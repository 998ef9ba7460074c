import Clearotron.Register.Nodes

/-!
# The kernel ends, and asks only so much

Four ways of asking in pieces re-enter the kernel: windows of names, a refused list
cut in two, halves of the regions, and the legs of an owner's classes. Every piece
has fewer names, fewer classes or fewer regions than the question it is a piece of,
so the recursion ends whatever the provider says. Each question asked as it stands
reads a bounded number of pages and is put in a bounded number of pieces, so the
requests of a whole run are bounded by a function of the question alone.
-/

namespace Clearotron

/-- Is this a page of a search? -/
def Event.isPage : Event → Bool
  | .page _ _ _ _ => true
  | _ => false

/-- The pages among a question's calls. -/
def pagesIn (calls : List Event) : Nat := calls.countP Event.isPage

@[simp] theorem pagesIn_nil : pagesIn [] = 0 := rfl

@[simp] theorem pagesIn_cons (call : Event) (calls : List Event) :
    pagesIn (call :: calls) = pagesIn calls + if call.isPage then 1 else 0 :=
  List.countP_cons

@[simp] theorem isPage_page (q : Params) (index : Nat) (prev : Option Page)
    (reply : Reply Page) : (Event.page q index prev reply).isPage = true := rfl

@[simp] theorem isPage_count (q : Params) (reply : CountReply) :
    (Event.count q reply).isPage = false := rfl

@[simp] theorem isPage_screen (uris : List String) (classes : List Nat)
    (reply : Reply ScreenAnswer) : (Event.screen uris classes reply).isPage = false := rfl

/-- The page guard as the loop reads it: the first page is asked before the guard. -/
def Deps.pages (D : Deps) : Nat := max D.pageGuard 1

/-- The requests of a question that can be put in pieces `depth` times over: its own
pages with a count and a screening call, one count for each name or class, and then
its pieces, of which a list of names or classes has at most one for each entry and a
split of regions has two halves, each of which may be split in turn. -/
def requestBound (pages : Nat) : Nat → Nat
  | 0 => pages + 2
  | depth + 1 => pages + 2 + (depth + 1) + (depth + 1 + 4) * requestBound pages depth

theorem requestBound_le_succ (pages depth : Nat) :
    requestBound pages depth ≤ requestBound pages (depth + 1) := by
  have one : 1 * requestBound pages depth ≤ (depth + 1 + 4) * requestBound pages depth :=
    Nat.mul_le_mul_right _ (by omega)
  rw [requestBound]
  omega

theorem requestBound_mono (pages : Nat) : Monotone (requestBound pages) :=
  monotone_nat_of_le_succ (requestBound_le_succ pages)

/-- Every question may read its pages, with a count and a screening call. -/
theorem requestBound_base (pages depth : Nat) : pages + 2 ≤ requestBound pages depth :=
  requestBound_mono pages (Nat.zero_le depth)

/-- A question's own calls and its probes fit, with as many pieces as it has entries. -/
theorem fits_of_parts {pages depth own probes parts each : Nat} (calls : own ≤ pages + 2)
    (counted : probes ≤ depth) (few : parts ≤ depth)
    (bounded : each ≤ parts * requestBound pages (depth - 1)) :
    own + probes + each ≤ requestBound pages depth := by
  cases depth with
  | zero =>
      have none : parts = 0 := by omega
      subst none
      simp only [requestBound]
      omega
  | succ depth =>
      have width : parts * requestBound pages depth ≤
          (depth + 1 + 4) * requestBound pages depth := Nat.mul_le_mul_right _ (by omega)
      simp only [requestBound, Nat.add_sub_cancel] at bounded ⊢
      omega

namespace Account

/-- The calls made for the question as it stands. -/
def ownCalls : Account → List Event
  | refused _ _ => []
  | leaf _ calls _ => calls
  | terms _ calls _ _ _ => calls
  | classes _ calls _ _ _ _ => calls
  | windows _ calls _ _ => calls
  | halves _ calls _ _ _ _ => calls

@[simp] theorem setAnswer_ownCalls (acct : Account) (a : Answer) :
    (acct.setAnswer a).ownCalls = acct.ownCalls := by cases acct <;> rfl

@[simp] theorem setAnswer_subs (acct : Account) (a : Answer) :
    (acct.setAnswer a).subs = acct.subs := by cases acct <;> rfl

/-- What holds of one question of a run: its pieces are smaller than it is, and it was
read no further than the page guard. -/
structure Bounded (D : Deps) (acct : Account) : Prop where
  descends : ∀ p ∈ acct.subs, p.question.depth < acct.question.depth
  paged : pagesIn acct.ownCalls ≤ D.pages

theorem Bounded.setAnswer {D : Deps} {acct : Account} (bounded : acct.Bounded D) (a : Answer) :
    (acct.setAnswer a).Bounded D where
  descends := by simpa using bounded.descends
  paged := by simpa using bounded.paged

/-- Requests add up over the pieces. -/
theorem allCallsOf_length_le {most : Nat} (parts : List Account)
    (each : ∀ p ∈ parts, p.allCalls.length ≤ most) :
    (allCallsOf parts).length ≤ parts.length * most := by
  induction parts with
  | nil => simp [allCallsOf]
  | cons p parts ih =>
      have here := each p List.mem_cons_self
      have rest := ih fun p mem => each p (List.mem_cons_of_mem _ mem)
      simp only [allCallsOf, List.length_append, List.length_cons, Nat.succ_mul]
      omega

end Account

section Leaf

variable {P : Provider} {D : Deps} {q : Params}

theorem FinishRun.calls_le {probeTotal : Option Nat} {st : PageState} {calls : List Event}
    {a : Answer} (run : FinishRun P D q probeTotal st calls a) :
    calls.length ≤ 1 ∧ pagesIn calls = 0 := by
  cases run <;> simp

/-- The loop asks for one page more than may still follow, and at most one screening
call after them. -/
theorem PageRun.calls_le {split : Bool} {probeTotal : Option Nat} {left index : Nat}
    {st : PageState} {calls : List Event} {outcome : LeafOutcome}
    (run : PageRun P D q split probeTotal left index st calls outcome) :
    calls.length ≤ left + 2 ∧ pagesIn calls ≤ left + 1 := by
  induction run with
  | last said read finish =>
      obtain ⟨short, unpaged⟩ := finish.calls_le
      simp only [List.length_cons, pagesIn_cons, unpaged, isPage_page, if_true]
      omega
  | more said read rest ih =>
      simp only [List.length_cons, pagesIn_cons, isPage_page, if_true]
      omega
  | _ => simp

theorem LeafRun.calls_le {split : Bool} {calls : List Event} {outcome : LeafOutcome}
    (run : LeafRun P D q split calls outcome) :
    calls.length ≤ D.pages + 2 ∧ pagesIn calls ≤ D.pages := by
  cases run with
  | counted endpoint said under pages =>
      obtain ⟨short, paged⟩ := pages.calls_le
      simp only [List.length_cons, pagesIn_cons, isPage_count, Deps.pages, Bool.false_eq_true,
        if_false]
      omega
  | paged searches pages =>
      obtain ⟨short, paged⟩ := pages.calls_le
      simp only [Deps.pages]
      omega
  | _ => simp

theorem HitRun.calls_le {calls : List Event} {probe : Probe} (run : HitRun P D q calls probe) :
    calls.length ≤ 1 := by
  cases run <;> simp

/-- Each leg costs at most one count. -/
theorem ProbesRun.calls_le {κ : Type} {narrow : κ → Params} {legs : List κ}
    {calls : List Event} {probes : List (κ × Probe)}
    (run : ProbesRun P D narrow legs calls probes) :
    calls.length ≤ legs.length ∧ probes.length = legs.length := by
  induction run with
  | nil => simp
  | cons hit rest ih =>
      have one := hit.calls_le
      simp only [List.length_append, List.length_cons]
      omega

end Leaf

section Parts

variable {P : Provider} {D : Deps} {part : Params → Bool → Account → Prop}
  {deeper : Params → String → Account → Prop} {q : Params}

/-- A budget never reads a leg twice. -/
theorem LegsRun.legs_le {ceiling : Nat} {legs : List TractableLeg} {st st' : ClassState}
    (run : LegsRun D part q ceiling legs st st') :
    st'.legs.length ≤ st.legs.length + legs.length := by
  induction run with
  | done => simp
  | skip exceeds rest ih =>
      simp only [ClassState.settle_legs, List.length_cons] at ih ⊢
      omega
  | read under asked rest ih =>
      simp only [foldLeg_legs, List.length_append, List.length_cons, List.length_nil] at ih ⊢
      omega

theorem tractableLegs_length_le (ceiling : Nat) (probes : List (Nat × Probe)) :
    (tractableLegs ceiling probes).length ≤ probes.length := by
  rw [tractableLegs, List.length_insertionSort]
  exact List.length_filterMap_le _ _

/-- Every part of a windowed answer is one of the windows, asked. -/
theorem WindowsRun.among {calls : List Event} {ceiling chunks : Nat}
    {windows : List (Nat × List String)} {st : WindowState} {acct : Account}
    (run : WindowsRun D part q calls ceiling chunks windows st acct) :
    ∃ parts a, acct = .windows q calls parts a ∧
      parts.length ≤ st.parts.length + windows.length ∧
      ∀ p ∈ parts, p ∈ st.parts ∨
        ∃ w ∈ windows, part { q with names := some w.2 } true p := by
  induction run with
  | done => exact ⟨_, _, rfl, by simp, fun p mem => .inl mem⟩
  | @stop index names rest st st' acct a asked fold =>
      have parts : st'.parts = st.parts ++ [acct] := fold.parts_eq
      refine ⟨_, _, rfl, by simp [parts], fun p mem => ?_⟩
      rw [parts] at mem
      obtain known | here := List.mem_append.mp mem
      · exact .inl known
      · obtain rfl := List.mem_singleton.mp here
        exact .inr ⟨(index, names), List.mem_cons_self, asked⟩
  | @next index names rest st st' acct whole asked fold later ih =>
      have parts : st'.parts = st.parts ++ [acct] := fold.parts_eq
      obtain ⟨all, a, rfl, few, each⟩ := ih
      refine ⟨all, a, rfl, ?_, fun p mem => ?_⟩
      · simp only [parts, List.length_append, List.length_cons, List.length_nil] at few ⊢
        omega
      · obtain known | ⟨w, wMem, later⟩ := each p mem
        · rw [parts] at known
          obtain known | here := List.mem_append.mp known
          · exact .inl known
          · obtain rfl := List.mem_singleton.mp here
            exact .inr ⟨(index, names), List.mem_cons_self, asked⟩
        · exact .inr ⟨w, List.mem_cons_of_mem _ wMem, later⟩

theorem windowsOf_length_le (width : Nat) (names : List String) :
    (windowsOf width names).length ≤ names.length := by
  simp only [windowsOf, List.length_map, List.length_range]
  cases width with
  | zero => simp
  | succ width =>
      cases names with
      | nil => simp
      | cons name names =>
          refine Nat.div_le_of_le_mul ?_
          simp only [List.length_cons]
          have wide : 1 * width ≤ (names.length + 1) * width := Nat.mul_le_mul_right _ (by omega)
          calc names.length + 1 + (width + 1) - 1 = 1 * width + (names.length + 1) := by omega
            _ ≤ (names.length + 1) * width + (names.length + 1) := by omega
            _ = (width + 1) * (names.length + 1) := by rw [Nat.mul_comm (width + 1), Nat.mul_succ]

/-- A half is halved in turn at most once. -/
theorem SettleRun.again_le {cause : String} {half : List String} {acct : Account}
    {st : HalvesState} {r : (Answer × HalvesState) ⊕ HalvesState}
    (run : SettleRun P D deeper q cause half acct st r) :
    (r.elim Prod.snd id).again.length ≤ st.again.length + 1 ∧
      ∀ p ∈ (r.elim Prod.snd id).again,
        p ∈ st.again ∨ ∃ cause, deeper { q with regions := some half } cause p := by
  cases run with
  | oneRegion timedOut one => exact ⟨by simp, fun p mem => .inl mem⟩
  | again timedOut several onTime asked fold =>
      rw [fold.again_eq]
      refine ⟨by simp, fun p mem => ?_⟩
      obtain known | here := List.mem_append.mp mem
      · exact .inl known
      · obtain rfl := List.mem_singleton.mp here
        exact .inr ⟨_, asked⟩
  | stands final fold =>
      rw [fold.again_eq]
      exact ⟨by simp, fun p mem => .inl mem⟩

/-- Between the two of them the halves are halved in turn at most twice. -/
theorem BothRun.again_le {ceiling : Nat} {cause : String} {first second : Account} {a : Answer}
    {st : HalvesState} (run : BothRun P D deeper ceiling q cause first second (a, st)) :
    st.again.length ≤ 2 ∧
      ∀ p ∈ st.again, ∃ half cause,
        (half = halfOf (q.regions.getD []) ∨ half = otherHalf (q.regions.getD [])) ∧
        deeper { q with regions := some half } cause p := by
  have left : ∀ {r}, SettleRun P D deeper q cause (halfOf (q.regions.getD [])) first {} r →
      (r.elim Prod.snd id).again.length ≤ 1 ∧ ∀ p ∈ (r.elim Prod.snd id).again,
        ∃ cause, deeper { q with regions := some (halfOf (q.regions.getD [])) } cause p := by
    intro r settle
    obtain ⟨few, each⟩ := settle.again_le
    exact ⟨by simpa using few, fun p mem => (each p mem).resolve_left (by simp)⟩
  have right : ∀ {st' r},
      SettleRun P D deeper q cause (halfOf (q.regions.getD [])) first {} (.inr st') →
      SettleRun P D deeper q cause (otherHalf (q.regions.getD [])) second st' r →
      (r.elim Prod.snd id).again.length ≤ 2 ∧ ∀ p ∈ (r.elim Prod.snd id).again,
        ∃ half cause, (half = halfOf (q.regions.getD []) ∨
          half = otherHalf (q.regions.getD [])) ∧
          deeper { q with regions := some half } cause p := by
    intro st' r settle settle'
    obtain ⟨few, each⟩ := left settle
    obtain ⟨few', each'⟩ := settle'.again_le
    refine ⟨by simp only [Sum.elim_inr, id_eq] at few; omega, fun p mem => ?_⟩
    obtain known | ⟨cause, asked⟩ := each' p mem
    · obtain ⟨cause, asked⟩ := each p known
      exact ⟨_, cause, .inl rfl, asked⟩
    · exact ⟨_, cause, .inr rfl, asked⟩
  cases run with
  | first settle =>
      obtain ⟨few, each⟩ := left settle
      refine ⟨by simp only [Sum.elim_inl] at few; omega, fun p mem => ?_⟩
      obtain ⟨cause, asked⟩ := each p mem
      exact ⟨_, cause, .inl rfl, asked⟩
  | second settle settle' => exact right settle settle'
  | whole settle settle' => exact right settle settle'

/-- The two halves of a split, and the at most two splits of a half. -/
theorem HalvesStep.among {ceiling : Nat} {calls : List Event} {cause : String}
    {acct : Account} (run : HalvesStep P D part deeper ceiling q calls cause acct) :
    ∃ asked again parts a, acct = .halves q calls asked again parts a ∧
      asked.length ≤ 2 ∧ again.length ≤ 2 ∧
      (∀ p ∈ asked, ∃ half : List String, half.length < (q.regions.getD []).length ∧
        part { q with regions := some half } false p) ∧
      (∀ p ∈ again, ∃ (half : List String) (cause : String),
        half.length < (q.regions.getD []).length ∧
          deeper { q with regions := some half } cause p) ∧
      ∀ p ∈ parts, p ∈ asked ∨ p ∈ again := by
  have several : 1 < (q.regions.getD []).length := by
    cases run with
    | stalled several => exact several
    | heard several => exact several
  have short : (halfOf (q.regions.getD [])).length < (q.regions.getD []).length := by
    rw [halfOf_length]; omega
  have short' : (otherHalf (q.regions.getD [])).length < (q.regions.getD []).length := by
    rw [otherHalf_length]; omega
  have both : ∀ first second : Account,
      part { q with regions := some (halfOf (q.regions.getD [])) } false first →
      part { q with regions := some (otherHalf (q.regions.getD [])) } false second →
      ∀ p ∈ [first, second], ∃ half : List String,
        half.length < (q.regions.getD []).length ∧
          part { q with regions := some half } false p := by
    intro first second left right p mem
    simp only [List.mem_cons, List.not_mem_nil, or_false] at mem
    rcases mem with rfl | rfl
    · exact ⟨_, short, left⟩
    · exact ⟨_, short', right⟩
  cases run with
  | stalled several left right timedOut =>
      exact ⟨_, _, _, _, rfl, by simp, by simp, both _ _ left right, by simp, by simp⟩
  | heard several left right timedOut run =>
      obtain ⟨few, again⟩ := run.again_le
      obtain ⟨-, -, parts⟩ := run.asked
      refine ⟨_, _, _, _, rfl, by simp, few, both _ _ left right, fun p mem => ?_,
        fun p mem => ?_⟩
      · obtain ⟨half, cause, rfl | rfl, asked⟩ := again p mem
        · exact ⟨_, cause, short, asked⟩
        · exact ⟨_, cause, short', asked⟩
      · obtain rfl | rfl | mem := parts p mem
        · exact .inl (by simp)
        · exact .inl (by simp)
        · exact .inr mem

end Parts

section Whole

variable {P : Provider} {D : Deps} {q : Params}

/-- What a whole run keeps to. -/
structure BoundedRun (D : Deps) (q : Params) (acct : Account) : Prop where
  question : acct.question = q
  bounded : ∀ node ∈ acct.nodes, node.Bounded D
  requests : acct.allCalls.length ≤ requestBound D.pages q.depth

/-- A node of an account is the account itself or a node of one of its pieces. -/
theorem Account.of_mem_nodes {acct node : Account} (mem : node ∈ acct.nodes) :
    node = acct ∨ ∃ p ∈ acct.subs, node ∈ p.nodes := by
  cases acct with
  | classes q calls more probes legs a =>
      exact (List.mem_cons.mp mem).imp_right Account.mem_nodesOf.mp
  | windows q calls parts a =>
      exact (List.mem_cons.mp mem).imp_right Account.mem_nodesOf.mp
  | halves q calls asked again parts a =>
      simp only [Account.nodes, List.mem_cons, List.mem_append, Account.mem_nodesOf] at mem
      simp only [Account.subs, List.mem_append]
      rcases mem with rfl | (⟨p, at_, mem⟩ | ⟨p, at_, mem⟩) | ⟨p, at_, mem⟩
      · exact .inl rfl
      · exact .inr ⟨p, .inl (.inl at_), mem⟩
      · exact .inr ⟨p, .inl (.inr at_), mem⟩
      · exact .inr ⟨p, .inr at_, mem⟩
  | _ => exact .inl (List.mem_singleton.mp mem)

/-- An account over smaller runs keeps to every bound its own node keeps to. -/
theorem Account.bounded_of_subs {acct : Account} (paged : pagesIn acct.ownCalls ≤ D.pages)
    (subs : ∀ p ∈ acct.subs, ∃ q', q'.depth < acct.question.depth ∧ BoundedRun D q' p) :
    ∀ node ∈ acct.nodes, node.Bounded D := by
  intro node mem
  obtain rfl | ⟨p, sub, mem⟩ := Account.of_mem_nodes mem
  · refine ⟨fun p sub => ?_, paged⟩
    obtain ⟨q', smaller, run⟩ := subs p sub
    rwa [run.question]
  · obtain ⟨q', -, run⟩ := subs p sub
    exact run.bounded node mem

/-- A smaller run costs no more than the largest smaller question may. -/
theorem BoundedRun.requests_le {q' : Params} {acct : Account} (run : BoundedRun D q' acct)
    (smaller : q'.depth < q.depth) :
    acct.allCalls.length ≤ requestBound D.pages (q.depth - 1) :=
  run.requests.trans (requestBound_mono _ (by omega))

theorem BoundedRun.setAnswer {acct : Account} (run : BoundedRun D q acct) (a : Answer) :
    BoundedRun D q (acct.setAnswer a) where
  question := by rw [Account.setAnswer_question, run.question]
  bounded := by
    intro node mem
    obtain rfl | mem := Account.mem_nodes_setAnswer mem
    · exact (run.bounded acct acct.mem_nodes_self).setAnswer a
    · exact run.bounded node mem
  requests := by rw [Account.setAnswer_allCalls]; exact run.requests

/-- The windows of a list narrower than it is, each asked through the kernel. -/
theorem WindowsRun.boundedRun {calls : List Event} {width : Nat} {acct : Account}
    (narrow : width < q.listed.length) (short : calls.length ≤ D.pages + 2)
    (paged : pagesIn calls ≤ D.pages)
    (run : WindowsRun D (fun q _ acct => BoundedRun D q acct) q calls (D.ceiling q)
      (windowsOf width q.listed).length (windowsOf width q.listed) {} acct) :
    BoundedRun D q acct := by
  obtain ⟨parts, a, rfl, few, each⟩ := run.among
  have smaller : ∀ p ∈ parts, ∃ q', q'.depth < q.depth ∧ BoundedRun D q' p := by
    intro p mem
    obtain known | ⟨w, wMem, run⟩ := each p mem
    · cases known
    · exact ⟨_, Params.depth_window wMem narrow, run⟩
  refine ⟨rfl, Account.bounded_of_subs paged smaller, ?_⟩
  have folded : (Account.allCallsOf parts).length ≤
      parts.length * requestBound D.pages (q.depth - 1) :=
    Account.allCallsOf_length_le parts fun p mem => by
      obtain ⟨q', less, run⟩ := smaller p mem
      exact run.requests_le less
  have width := windowsOf_length_le width q.listed
  have entries : parts.length ≤ q.depth := by
    simp only [List.length_nil, Params.depth] at few ⊢
    omega
  have fits : calls.length + 0 + (Account.allCallsOf parts).length ≤
      requestBound D.pages q.depth := fits_of_parts short (Nat.zero_le _) entries folded
  simpa [Account.allCalls] using fits

/-- What a split of regions keeps to: beside its own calls its two halves, and the at
most two splits of a half, are each within the largest smaller question's bound. -/
structure BoundedSplit (D : Deps) (q : Params) (calls : List Event) (acct : Account) :
    Prop where
  question : acct.question = q
  bounded : ∀ node ∈ acct.nodes, node.Bounded D
  requests : acct.allCalls.length ≤
    calls.length + (2 + 2) * requestBound D.pages (q.depth - 1)

theorem BoundedSplit.boundedRun {calls : List Event} {acct : Account}
    (split : BoundedSplit D q calls acct) (several : 1 < (q.regions.getD []).length)
    (short : calls.length ≤ D.pages + 2) : BoundedRun D q acct where
  question := split.question
  bounded := split.bounded
  requests := by
    obtain ⟨depth, deep⟩ : ∃ depth, q.depth = depth + 1 :=
      ⟨q.depth - 1, by simp only [Params.depth]; omega⟩
    have requests := split.requests
    have four : (2 + 2) * requestBound D.pages depth ≤
        (depth + 1 + 4) * requestBound D.pages depth := Nat.mul_le_mul_right _ (by omega)
    simp only [deep, Nat.add_sub_cancel] at requests
    rw [deep, requestBound]
    omega

theorem HalvesStep.boundedSplit {ceiling : Nat} {calls : List Event} {cause : String}
    {acct : Account} (paged : pagesIn calls ≤ D.pages)
    (run : HalvesStep P D (fun q _ acct => BoundedRun D q acct)
      (fun q _ acct => 1 < (q.regions.getD []).length ∧ BoundedSplit D q [] acct)
      ceiling q calls cause acct) :
    BoundedSplit D q calls acct := by
  obtain ⟨asked, again, parts, a, rfl, two, two', left, right, among⟩ := run.among
  have inAsked : ∀ p ∈ asked, ∃ q', q'.depth < q.depth ∧ BoundedRun D q' p := by
    intro p mem
    obtain ⟨half, shorter, run⟩ := left p mem
    exact ⟨_, Params.depth_half shorter, run⟩
  have inAgain : ∀ p ∈ again, ∃ q', q'.depth < q.depth ∧ BoundedRun D q' p := by
    intro p mem
    obtain ⟨half, cause, shorter, several, split⟩ := right p mem
    exact ⟨_, Params.depth_half shorter, split.boundedRun several (by simp)⟩
  have cost : ∀ parts : List Account, parts.length ≤ 2 →
      (∀ p ∈ parts, ∃ q', q'.depth < q.depth ∧ BoundedRun D q' p) →
      (Account.allCallsOf parts).length ≤ 2 * requestBound D.pages (q.depth - 1) := by
    intro parts few smaller
    have folded : (Account.allCallsOf parts).length ≤
        parts.length * requestBound D.pages (q.depth - 1) :=
      Account.allCallsOf_length_le parts fun p mem => by
        obtain ⟨q', less, run⟩ := smaller p mem
        exact run.requests_le less
    exact folded.trans (Nat.mul_le_mul_right _ few)
  refine ⟨rfl, Account.bounded_of_subs paged fun p mem => ?_, ?_⟩
  · obtain mem | mem := List.mem_append.mp mem
    · obtain mem | mem := List.mem_append.mp mem
      · exact inAsked p mem
      · exact inAgain p mem
    · obtain mem | mem := among p mem
      · exact inAsked p mem
      · exact inAgain p mem
  · have askedCost := cost asked two inAsked
    have againCost := cost again two' inAgain
    simp only [Account.allCalls, List.length_append, Nat.add_mul]
    omega

/-- One question keeps to its bound, given that every smaller question does. -/
theorem QuestionRun.boundedRun {split : Bool} {acct : Account}
    (run : QuestionRun P D (fun q _ acct => BoundedRun D q acct) q split acct) :
    BoundedRun D q acct := by
  cases run with
  | refused element =>
      refine ⟨rfl, Account.bounded_of_subs (by simp [Account.ownCalls]) (by simp [Account.subs]),
        by simp [Account.allCalls]⟩
  | wide element wide run => exact run.boundedRun wide (by simp) (by simp)
  | leaf element narrow leaf =>
      obtain ⟨short, paged⟩ := leaf.calls_le
      refine ⟨rfl, Account.bounded_of_subs paged (by simp [Account.subs]), ?_⟩
      simpa [Account.allCalls] using short.trans (requestBound_base D.pages q.depth)
  | refusedList element narrow leaf run =>
      obtain ⟨short, paged⟩ := leaf.calls_le
      exact run.boundedRun (D.namesChunk_half leaf.several_of_listRefused) short paged
  | timedOut element narrow leaf run =>
      obtain ⟨short, paged⟩ := leaf.calls_le
      have several := Params.several_regions leaf.splittable_of_timedOut
      have split := HalvesRun.of_step
        (motive := fun q calls _ acct => 1 < (q.regions.getD []).length ∧
          (pagesIn calls ≤ D.pages → BoundedSplit D q calls acct))
        (fun q calls cause acct step => ⟨by cases step <;> assumption, fun paged =>
          HalvesStep.boundedSplit paged (step.mono fun q cause acct deep =>
            ⟨deep.1, deep.2 (by simp)⟩)⟩) run
      exact (split.2 paged).boundedRun several short
  | terms element narrow leaf counts several probed =>
      obtain ⟨short, paged⟩ := leaf.calls_le
      obtain ⟨counted, -⟩ := probed.calls_le
      refine ⟨rfl, Account.bounded_of_subs paged (by simp [Account.subs]), ?_⟩
      have names : q.listed.length ≤ q.depth := by simp only [Params.depth]; omega
      have fits := fits_of_parts short (counted.trans names) (Nat.zero_le _) (Nat.zero_le _)
      simpa [Account.allCalls] using fits
  | @classes calls more total floor blind probes st element narrow leaf counts oneName several
      probed run =>
      obtain ⟨short, paged⟩ := leaf.calls_le
      obtain ⟨counted, probesLength⟩ := probed.calls_le
      have few := run.legs_le
      have tractable := tractableLegs_length_le (D.ceiling q) probes
      have classes : q.splitClasses.length ≤ q.depth := by simp only [Params.depth]; omega
      have smaller : ∀ p ∈ st.legs, ∃ q', q'.depth < q.depth ∧ BoundedRun D q' p := by
        intro p mem
        obtain known | ⟨c, run⟩ := run.asked mem
        · cases known
        · exact ⟨_, Params.depth_ofClass c several, run⟩
      refine ⟨rfl, Account.bounded_of_subs paged smaller, ?_⟩
      have folded : (Account.allCallsOf st.legs).length ≤
          st.legs.length * requestBound D.pages (q.depth - 1) :=
        Account.allCallsOf_length_le st.legs fun p mem => by
          obtain ⟨q', less, run⟩ := smaller p mem
          exact run.requests_le less
      have entries : st.legs.length ≤ q.depth := by
        simp only [List.length_nil] at few
        omega
      have fits := fits_of_parts short (counted.trans classes) entries folded
      simpa [Account.allCalls, Nat.add_assoc] using fits
  | blind element narrow leaf unrescued =>
      obtain ⟨short, paged⟩ := leaf.calls_le
      refine ⟨rfl, Account.bounded_of_subs paged (by simp [Account.subs]), ?_⟩
      simpa [Account.allCalls] using short.trans (requestBound_base D.pages q.depth)

/-- A half of a half is never refused for want of depth: the list's own length is
enough, and any more gives the same. -/
theorem regionHalves_eq (ask : Params → Bool → Session Event Account) (ceiling : Nat)
    {depth depth' : Nat} (calls : List Event) (cause : String)
    (several : 1 < (q.regions.getD []).length) (enough : (q.regions.getD []).length ≤ depth)
    (enough' : (q.regions.getD []).length ≤ depth') :
    regionHalves P D ask ceiling depth q calls cause =
      regionHalves P D ask ceiling depth' q calls cause := by
  induction depth generalizing q calls cause depth' with
  | zero => omega
  | succ depth ih =>
      obtain ⟨depth', rfl⟩ : ∃ k, depth' = k + 1 := ⟨depth' - 1, by omega⟩
      have settle : ∀ half : List String, half ≠ [] →
          half.length < (q.regions.getD []).length → ∀ acct st,
          settleHalf P D cause
            (fun q cause => regionHalves P D ask ceiling depth q [] cause) q half acct st =
          settleHalf P D cause
            (fun q cause => regionHalves P D ask ceiling depth' q [] cause) q half acct st := by
        intro half nonempty shorter acct st
        refine settleHalf_congr P D acct st nonempty fun two cause => ?_
        have lengths : ((some half).getD []).length = half.length := rfl
        exact ih (q := { q with regions := some half }) [] cause two
          (by simp only [lengths]; omega) (by simp only [lengths]; omega)
      have nonempty : halfOf (q.regions.getD []) ≠ [] := by
        rw [← List.length_pos_iff, halfOf_length]; omega
      have nonempty' : otherHalf (q.regions.getD []) ≠ [] := by
        rw [← List.length_pos_iff, otherHalf_length]; omega
      have short : (halfOf (q.regions.getD [])).length < (q.regions.getD []).length := by
        rw [halfOf_length]; omega
      have short' : (otherHalf (q.regions.getD [])).length < (q.regions.getD []).length := by
        rw [otherHalf_length]; omega
      simp only [regionHalves, settle _ nonempty short, settle _ nonempty' short']

/-- `enumerate` ends. Whatever depth its recursion is given, beyond the question's own
measure, gives the same computation, and so does whatever depth a split of its regions
is given. Every run returns an account of exactly its requests, in which every piece has
fewer names, classes or regions than the question it is a piece of and every question is
read no further than the page guard, and the requests of the whole are bounded by the
question's measure and the page guard. -/
theorem enumerate_ends (P : Provider) (D : Deps) (q : Params) (split : Bool) :
    (∀ depth, q.depth < depth → enumerateWithin P D depth q split = enumerate P D q split) ∧
    (∀ depth calls cause, 1 < (q.regions.getD []).length →
      (q.regions.getD []).length ≤ depth →
      regionHalves P D (enumerate P D) (D.ceiling q) depth q calls cause =
        regionHalves P D (enumerate P D) (D.ceiling q) (q.regions.getD []).length q calls
          cause) ∧
    Session.Runs (enumerate P D q split) (fun calls acct =>
      calls = acct.allCalls ∧ acct.question = q ∧
      calls.length ≤ requestBound D.pages q.depth ∧
      ∀ node ∈ acct.nodes,
        (∀ p ∈ node.subs, p.question.depth < node.question.depth) ∧
        pagesIn node.ownCalls ≤ D.pages) := by
  refine ⟨fun depth enough => enumerateWithin_eq P D depth q split enough,
    fun depth calls cause several enough => regionHalves_eq _ _ calls cause several enough le_rfl,
    ?_⟩
  refine (enumerate_runs P D (motive := fun q _ acct => BoundedRun D q acct)
    (fun q split acct run => run.boundedRun.setAnswer _) q split).mono ?_
  rintro calls acct ⟨rfl, run⟩
  exact ⟨rfl, run.question, run.requests, fun node mem =>
    ⟨(run.bounded node mem).descends, (run.bounded node mem).paged⟩⟩

end Whole

end Clearotron
