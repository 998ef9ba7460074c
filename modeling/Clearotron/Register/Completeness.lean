import Clearotron.Register.Pieces

/-!
# An enumerated answer is a completion

Every exit of the kernel that says `enumerated` is traced to the pieces it rests on.
A piece is either read, page by page until the provider said there are no more, or
it is a leg of a rescue that the provider counted at zero. Together the pieces cover
each cell of the question once.
-/

namespace Clearotron

/-- A question really put to the provider, and how it settled its cells. -/
inductive Piece where
  | read (q : Params) (calls : List Event)
  | zero (q : Params)

def Piece.question : Piece → Params
  | read q _ => q
  | zero q => q

/-- The classes a class rescue counted at zero. -/
def zeroClasses (probes : List (Nat × Probe)) : List Nat :=
  probes.filterMap fun cp =>
    match cp.2 with
    | .counted 0 _ => some cp.1
    | _ => none

namespace Account

mutual

/-- The questions an enumerated answer rests on. -/
def pieces : Account → List Piece
  | refused _ _ => []
  | leaf q calls _ => [.read q calls]
  | terms q _ _ _ _ => q.listed.map fun t => .zero (q.ofTerm t)
  | classes q _ _ probes legs _ =>
      ((zeroClasses probes).map fun c => .zero (q.ofClass c)) ++ piecesOf legs
  | windows _ _ parts _ => piecesOf parts
  | halves _ _ _ _ parts _ => piecesOf parts

def piecesOf : List Account → List Piece
  | [] => []
  | acct :: rest => pieces acct ++ piecesOf rest

end

mutual

/-- Did a rescue settle the question or a part of it? -/
def isRescued : Account → Bool
  | refused _ _ => false
  | leaf _ _ _ => false
  | terms _ _ _ _ _ => true
  | classes _ _ _ _ _ _ => true
  | windows _ _ parts _ => anyRescued parts
  | halves _ _ _ _ parts _ => anyRescued parts

def anyRescued : List Account → Bool
  | [] => false
  | acct :: rest => isRescued acct || anyRescued rest

end

/-- Was the question asked as it stands, and in no other way? -/
def isWhole : Account → Bool
  | leaf _ _ _ => true
  | _ => false

/-- Was the question's own stack counted leg by leg? -/
def isStack : Account → Bool
  | terms _ _ _ _ _ => true
  | classes _ _ _ _ _ _ => true
  | _ => false

@[simp] theorem setAnswer_pieces (acct : Account) (a : Answer) :
    (acct.setAnswer a).pieces = acct.pieces := by
  cases acct <;> simp [setAnswer, pieces]

@[simp] theorem setAnswer_isRescued (acct : Account) (a : Answer) :
    (acct.setAnswer a).isRescued = acct.isRescued := by
  cases acct <;> simp [setAnswer, isRescued]

@[simp] theorem setAnswer_isWhole (acct : Account) (a : Answer) :
    (acct.setAnswer a).isWhole = acct.isWhole := by
  cases acct <;> rfl

@[simp] theorem setAnswer_isStack (acct : Account) (a : Answer) :
    (acct.setAnswer a).isStack = acct.isStack := by
  cases acct <;> rfl

theorem allCalls_infix {acct : Account} {parts : List Account} (mem : acct ∈ parts) :
    acct.allCalls <:+: allCallsOf parts := by
  obtain ⟨before, after, rfl⟩ := List.append_of_mem mem
  rw [allCallsOf_append]
  exact ⟨allCallsOf before, allCallsOf after, by simp [allCallsOf]⟩

end Account

/-- The rows the pages among some calls returned. -/
def rowsIn : List Event → Nat
  | [] => 0
  | .page _ _ _ (.answered p) :: rest => p.results.length + rowsIn rest
  | _ :: rest => rowsIn rest

/-- The rows of the pages a piece was read in. -/
def Piece.rows : Piece → Nat
  | read _ calls => rowsIn calls
  | zero _ => 0

/-- On a provider that counts first, the search's own last word is not over the rows either. -/
def Piece.SearchAgrees (D : Deps) : Piece → Prop
  | read _ calls => D.countProbe = .endpoint → ∀ q i prev p, .page q i prev (.answered p) ∈ calls →
      p.hasMore = false → ∀ t, p.totalHits = some t → t ≤ rowsIn calls
  | zero _ => True

/-- Page requests one after another, each given the last one's response, every one of
them answered with a page, up to the page that says there are no more. -/
inductive Followed (q : Params) : Nat → Option Page → List Event → Prop where
  | last {index : Nat} {prev : Option Page} {p : Page} (end_ : p.hasMore = false) :
      Followed q index prev [.page q index prev (.answered p)]
  | more {index : Nat} {prev : Option Page} {p : Page} {calls : List Event}
      (more : p.hasMore = true) (rest : Followed q (index + 1) (some p) calls) :
      Followed q index prev (.page q index prev (.answered p) :: calls)

/-- The calls of a question read to its end: the count where the provider has one,
the pages to the last, and the screening of what they returned. -/
structure ReadToEnd (q : Params) (calls : List Event) : Prop where
  parts : ∃ counts pages screens, calls = counts ++ pages ++ screens ∧
    Followed q 0 none pages ∧
    (∀ c ∈ counts, ∃ total said, c = .count q (.counted total said)) ∧
    ∀ s ∈ screens, ∃ uris classes reply, s = .screen uris classes reply
  counted : ∀ n said, .count q (.counted (some n) said) ∈ calls → n ≤ rowsIn calls

section Leaf

variable {P : Provider} {D : Deps} {q : Params}

theorem joinScreen_length (results : List Record) (sj : Option ScreenAnswer) :
    (joinScreen D results sj).1.length = results.length := by
  unfold joinScreen
  split
  · rfl
  · split
    · rfl
    · simp

/-- What an enumerated leaf carries: its band's total over its band's rows. -/
theorem screenedBand_enumerated {st : PageState} {reply : Reply ScreenAnswer}
    {e : Enumerated} (h : screenedBand D st reply = .enumerated e) :
    e.totalHits = st.total ∧ e.count = st.results.length := by
  unfold screenedBand at h
  simp only at h
  split at h
  · cases h
  · cases h
    exact ⟨rfl, joinScreen_length _ _⟩

theorem bandShortfall_none {probeTotal : Option Nat} {st : PageState}
    (full : bandShortfall D probeTotal st = none) :
    (D.countProbe = .endpoint → ∀ n, probeTotal = some n → n ≤ st.results.length) ∧
      (D.countProbe = .cheap → ∀ n, st.total = some n → n ≤ st.results.length) := by
  unfold bandShortfall at full
  split at full
  · cases full
  · next endpoint =>
      split at full
      · cases full
      · next cheap =>
          constructor
          · rintro is n rfl
            by_contra exceeds
            exact endpoint ⟨is, by simpa using exceeds⟩
          · rintro is n total
            by_contra exceeds
            exact cheap ⟨is, by simpa [total] using exceeds⟩

/-- An exhausted band that enumerates reconciled its count with its rows, and
screening adds no page. -/
theorem FinishRun.enumerated {probeTotal : Option Nat} {st : PageState} {calls : List Event}
    {e : Enumerated} (run : FinishRun P D q probeTotal st calls (.enumerated e)) :
    bandShortfall D probeTotal st = none ∧ e.totalHits = st.total ∧
      e.count = st.results.length ∧
      (∀ s ∈ calls, ∃ uris classes reply, s = .screen uris classes reply) := by
  generalize answer : Answer.enumerated e = a at run
  cases run with
  | shortfall short => cases answer
  | inline full free =>
      cases answer
      refine ⟨full, rfl, ?_, by simp⟩
      change (inlineBand D q st).records.length = _
      unfold inlineBand
      split <;> simp
  | screened full needed said =>
      obtain ⟨total, rows⟩ := screenedBand_enumerated answer.symm
      exact ⟨full, total, rows, by simp⟩

theorem rowsIn_screens {screens : List Event}
    (h : ∀ s ∈ screens, ∃ uris classes reply, s = .screen uris classes reply) :
    rowsIn screens = 0 := by
  induction screens with
  | nil => rfl
  | cons s screens ih =>
      obtain ⟨uris, classes, reply, rfl⟩ := h s (by simp)
      exact ih fun s hs => h s (by simp [hs])

/-- A page loop that enumerates followed its pages to the last. -/
theorem PageRun.enumerated {split : Bool} {probeTotal : Option Nat} {left index : Nat}
    {st : PageState} {calls : List Event} {outcome : LeafOutcome} {e : Enumerated}
    (run : PageRun P D q split probeTotal left index st calls outcome)
    (answer : outcome = .answered (.enumerated e)) :
    (∃ pages screens, calls = pages ++ screens ∧ Followed q index st.prev pages ∧
      ∀ s ∈ screens, ∃ uris classes reply, s = .screen uris classes reply) ∧
    e.count = st.results.length + rowsIn calls ∧
    (D.countProbe = .endpoint → (∀ n, probeTotal = some n → n ≤ e.count) ∧
      ∃ i prev p, .page q i prev (.answered p) ∈ calls ∧ p.hasMore = false ∧
        e.totalHits = some (max (probeTotal.getD 0) (p.totalHits.getD 0))) ∧
    (D.countProbe = .cheap → ∀ n, e.totalHits = some n → n ≤ e.count) ∧
    (D.countProbe = .none → e.totalHits = st.total) := by
  induction run with
  | exit said read => cases read <;> cases answer
  | @last left index st next p calls a said read finish =>
      cases read with
      | last kept hasMore =>
          cases answer
          obtain ⟨full, total, rows, screens⟩ := finish.enumerated
          obtain ⟨endpoint, cheap⟩ := bandShortfall_none full
          refine ⟨⟨[_], calls, rfl, .last hasMore, screens⟩, ?_, ?_, ?_, ?_⟩
          · simp [rows, rowsIn, rowsIn_screens screens, PageState.take]
          · intro is
            refine ⟨rows ▸ endpoint is, index, st.prev, p, List.mem_cons_self, hasMore, ?_⟩
            simp [total, PageState.take, readTotal, is]
          · rw [rows, total]; exact cheap
          · intro without
            simp [total, PageState.take, readTotal, without]
  | @more left index st next p calls outcome said read rest ih =>
      cases read with
      | more kept hasMore =>
          obtain ⟨⟨pages, screens, rfl, followed, screened⟩, rows, endpoint, cheap, without⟩ :=
            ih answer
          refine ⟨⟨_ :: pages, screens, rfl, .more hasMore followed, screened⟩, ?_, fun is => ?_,
            cheap, ?_⟩
          · simp only [rows, rowsIn, PageState.take, List.length_append]
            omega
          · obtain ⟨counted, i, prev, last, mem, end_, total⟩ := endpoint is
            exact ⟨counted, i, prev, last, List.mem_cons_of_mem _ mem, end_, total⟩
          · intro is
            rw [without is]
            simp [PageState.take, readTotal, is]
  | _ => cases answer

theorem Followed.isPage {index : Nat} {prev : Option Page} {calls : List Event}
    (followed : Followed q index prev calls) :
    ∀ c ∈ calls, ∃ i prev p, c = .page q i prev (.answered p) := by
  induction followed with
  | last end_ => simp
  | more more rest ih => simpa using ih

/-- A question that enumerates as it stands was read to its end, and its total is
not over its rows where the search's own is not. -/
theorem LeafRun.enumerated {split : Bool} {calls : List Event} {e : Enumerated}
    (run : LeafRun P D q split calls (.answered (.enumerated e))) :
    ReadToEnd q calls ∧ e.count = rowsIn calls ∧
      ((Piece.read q calls).SearchAgrees D → ∀ n, e.totalHits = some n → n ≤ e.count) := by
  cases run with
  | @counted total counts calls outcome endpoint said under run =>
      obtain ⟨⟨pages, screens, rfl, followed, screened⟩, rows, counted, -, -⟩ :=
        run.enumerated rfl
      have rows' : e.count = rowsIn (pages ++ screens) := by simpa using rows
      refine ⟨⟨⟨[.count q (.counted total counts)], pages, screens, by simp, followed,
        by simp, screened⟩, ?_⟩, rows', ?_⟩
      swap
      · intro agrees n stated
        obtain ⟨rowed, i, prev, p, mem, end_, total'⟩ := counted endpoint
        rw [total'] at stated
        cases stated
        refine max_le (rowed _ rfl) ?_
        cases searched : p.totalHits with
        | none => exact Nat.zero_le _
        | some t =>
            rw [rows']
            exact agrees endpoint q i prev p (List.mem_cons_of_mem _ mem) end_ t searched
      intro n counts' mem
      obtain same | mem | mem : .count q (.counted (some n) counts') =
          Event.count q (.counted total counts) ∨
          .count q (.counted (some n) counts') ∈ pages ∨
          .count q (.counted (some n) counts') ∈ screens := by
        simpa using mem
      · cases same
        change n ≤ rowsIn (pages ++ screens)
        rw [← rows']
        exact (counted endpoint).1 n rfl
      · obtain ⟨_, _, _, h⟩ := followed.isPage _ mem
        cases h
      · obtain ⟨_, _, _, h⟩ := screened _ mem
        cases h
  | paged searches run =>
      obtain ⟨⟨pages, screens, rfl, followed, screened⟩, rows, -, cheap, without⟩ :=
        run.enumerated rfl
      refine ⟨⟨⟨[], pages, screens, by simp, followed, by simp, screened⟩, ?_⟩,
        by simpa using rows, ?_⟩
      · intro n counts mem
        obtain mem | mem := List.mem_append.mp mem
        · obtain ⟨_, _, _, h⟩ := followed.isPage _ mem
          cases h
        · obtain ⟨_, _, _, h⟩ := screened _ mem
          cases h
      · intro _ n total
        cases probe : D.countProbe with
        | cheap => exact cheap probe n total
        | endpoint => exact absurd probe searches
        | none =>
            rw [without probe, probe] at total
            cases total

end Leaf

/-- The total a call stated. -/
def Event.total : Event → Option Nat
  | .page _ _ _ (.answered p) => p.totalHits
  | .count _ (.counted total _) => total
  | _ => none

/-- Did the call count this question at zero? -/
def Event.countsZero (q : Params) : Event → Prop
  | .probe q' (.answered p) => q' = q ∧ p.totalHits = some 0
  | .count q' (.counted total _) => q' = q ∧ total = some 0
  | _ => False

section Crowd

variable {P : Provider} {D : Deps} {q : Params}

/-- What a crowd starts from: a total over the ceiling that a call stated, or the
register's floor. -/
theorem PageRun.crowd {split : Bool} {probeTotal : Option Nat} {left index : Nat}
    {st : PageState} {calls : List Event} {outcome : LeafOutcome} {total floor : Option Nat}
    {blind : Incomplete}
    (run : PageRun P D q split probeTotal left index st calls outcome)
    (crowded : outcome = .crowd total floor blind) :
    (floor = none ∧ ∃ t, total = some t ∧ D.ceiling q < t ∧ ∃ c ∈ calls, c.total = some t) ∨
      (total = none ∧ ∃ f, floor = some f) := by
  induction run with
  | exit said read =>
      cases read with
      | floorCrowd cheap untotalled floored first =>
          cases crowded
          exact .inr ⟨rfl, _, rfl⟩
      | crowd cheap first totalled exceeds =>
          cases crowded
          exact .inl ⟨rfl, _, rfl, exceeds, _, List.mem_singleton_self _, totalled⟩
      | _ => cases crowded
  | more said read rest ih =>
      obtain ⟨unfloored, t, rfl, exceeds, c, mem, stated⟩ | floored := ih crowded
      · exact .inl ⟨unfloored, t, rfl, exceeds, c, by simp [mem], stated⟩
      · exact .inr floored
  | _ => cases crowded

theorem LeafRun.crowd {split : Bool} {calls : List Event} {total floor : Option Nat}
    {blind : Incomplete} (run : LeafRun P D q split calls (.crowd total floor blind)) :
    (floor = none ∧ ∃ t, total = some t ∧ D.ceiling q < t ∧ ∃ c ∈ calls, c.total = some t) ∨
      (total = none ∧ ∃ f, floor = some f) := by
  cases run with
  | @countCrowd total counts endpoint said exceeds =>
      cases total with
      | none => simp at exceeds
      | some t => exact .inl ⟨rfl, t, rfl, exceeds, _, List.mem_singleton_self _, rfl⟩
  | counted endpoint said under pages =>
      obtain ⟨unfloored, t, rfl, exceeds, c, mem, stated⟩ | floored := pages.crowd rfl
      · exact .inl ⟨unfloored, t, rfl, exceeds, c, by simp [mem], stated⟩
      · exact .inr floored
  | paged searches pages => exact pages.crowd rfl

theorem HitRun.zero {calls : List Event} {said : Option String}
    (hit : HitRun P D q calls (.counted 0 said)) : ∃ c ∈ calls, c.countsZero q := by
  generalize zero : Probe.counted 0 said = probe at hit
  cases hit with
  | untotalled => cases zero
  | @endpoint reply _ said =>
      refine ⟨_, List.mem_singleton_self _, ?_⟩
      match reply with
      | .counted (some n) counts =>
          cases zero
          exact ⟨rfl, rfl⟩
      | .counted none counts => cases zero
      | .failed reason => cases zero
  | @cheap reply _ said =>
      refine ⟨_, List.mem_singleton_self _, ?_⟩
      match reply with
      | .answered p =>
          refine ⟨rfl, ?_⟩
          unfold readProbe at zero
          cases total : p.totalHits with
          | none => simp [total] at zero
          | some n => simp_all
      | .error text => cases zero
      | .unparsed text => cases zero

theorem ProbesRun.zero {κ : Type} {narrow : κ → Params} {legs : List κ} {calls : List Event}
    {probes : List (κ × Probe)} (run : ProbesRun P D narrow legs calls probes) {leg : κ}
    {said : Option String} (mem : (leg, .counted 0 said) ∈ probes) :
    ∃ c ∈ calls, c.countsZero (narrow leg) := by
  induction run with
  | nil => simp at mem
  | cons hit rest ih =>
      obtain same | later := List.mem_cons.mp mem
      · cases same
        obtain ⟨c, hc, zero⟩ := hit.zero
        exact ⟨c, by simp [hc], zero⟩
      · obtain ⟨c, hc, zero⟩ := ih later
        exact ⟨c, by simp [hc], zero⟩

end Crowd

/-- How a piece settled its cells, by calls that were really made. -/
def Piece.Settled (all : List Event) : Piece → Prop
  | read q calls => calls <:+: all ∧ ReadToEnd q calls
  | zero q => ∃ c ∈ all, c.countsZero q

theorem Piece.Settled.mono {all all' : List Event} (within : all <:+: all') {piece : Piece}
    (settled : piece.Settled all) : piece.Settled all' := by
  cases piece with
  | read q calls => exact ⟨settled.1.trans within, settled.2⟩
  | zero q =>
      obtain ⟨c, mem, zero⟩ := settled
      exact ⟨c, within.subset mem, zero⟩

/-- What an enumerated answer is worth. -/
structure Completion (D : Deps) (q : Params) (acct : Account) (e : Enumerated) : Prop where
  /-- the pieces cover each cell of the question once -/
  tiles : (acct.pieces.map fun piece => piece.question.cells).sum = q.cells
  settled : ∀ piece ∈ acct.pieces, piece.Settled acct.allCalls
  /-- a total put together over pieces that were all read is no larger than their rows -/
  total : (∀ piece ∈ acct.pieces, piece.SearchAgrees D) → acct.isRescued = false →
    ∀ t, e.totalHits = some t → t ≤ (acct.pieces.map Piece.rows).sum
  /-- a question asked whole carries every row read -/
  whole : acct.isWhole = true → e.count = (acct.pieces.map Piece.rows).sum
  /-- a rescued stack carries the total its own call stated -/
  stack : acct.isStack = true → ∃ c ∈ acct.allCalls, ∃ t, c.total = some t ∧
    e.totalHits = some t

/-- Every enumerated answer of this account is a completion. -/
def Completes (D : Deps) (q : Params) (acct : Account) : Prop :=
  ∀ e, acct.answer = .enumerated e → Completion D q acct e

theorem exists_of_mem_right {α β : Type} {R : α → β → Prop} {xs : List α} {ys : List β}
    (h : List.Forall₂ R xs ys) {y : β} (mem : y ∈ ys) : ∃ x, R x y := by
  induction h with
  | nil => simp at mem
  | cons here rest ih =>
      obtain rfl | later := List.mem_cons.mp mem
      · exact ⟨_, here⟩
      · exact ih later

section Parts

variable {D : Deps}

theorem piecesOf_tiles {ι : Type} {items : List ι} {question : ι → Params}
    {parts : List Account}
    (complete : List.Forall₂ (fun i acct => ∃ e, Completion D (question i) acct e)
      items parts) :
    ((Account.piecesOf parts).map fun piece => piece.question.cells).sum =
      (items.map fun i => (question i).cells).sum := by
  induction complete with
  | nil => simp [Account.piecesOf]
  | cons here rest ih =>
      obtain ⟨e, here⟩ := here
      simp [Account.piecesOf, here.tiles, ih]

theorem piecesOf_settled (D : Deps) {parts : List Account} {all : List Event}
    (complete : ∀ p ∈ parts, (∃ q e, Completion D q p e) ∧ p.allCalls <:+: all) :
    ∀ piece ∈ Account.piecesOf parts, piece.Settled all := by
  induction parts with
  | nil => simp [Account.piecesOf]
  | cons p parts ih =>
      intro piece mem
      obtain here | later := List.mem_append.mp mem
      · obtain ⟨⟨q, e, done⟩, within⟩ := complete p (by simp)
        exact (done.settled piece here).mono within
      · exact ih (fun p hp => complete p (by simp [hp])) piece later

theorem partTotals_le_rows {parts : List Account}
    (agrees : ∀ piece ∈ Account.piecesOf parts, piece.SearchAgrees D)
    (unrescued : Account.anyRescued parts = false)
    (complete : ∀ p ∈ parts, ∃ q e, p.answer = .enumerated e ∧ Completion D q p e) :
    partTotals parts ≤ ((Account.piecesOf parts).map Piece.rows).sum := by
  induction parts with
  | nil => simp [partTotals]
  | cons p parts ih =>
      simp only [Account.anyRescued, Bool.or_eq_false_iff] at unrescued
      obtain ⟨q, e, answer, done⟩ := complete p (by simp)
      have later := ih (fun piece mem => agrees piece (List.mem_append_right _ mem)) unrescued.2
        fun p hp => complete p (by simp [hp])
      have here : p.answer.totalHits.getD 0 ≤ (p.pieces.map Piece.rows).sum := by
        rw [answer]
        change e.totalHits.getD 0 ≤ _
        cases total : e.totalHits with
        | none => simp
        | some t =>
            exact done.total (fun piece mem => agrees piece (List.mem_append_left _ mem))
              unrescued.1 t total
      simp only [partTotals, List.map_cons, List.sum_cons, Account.piecesOf,
        List.map_append, List.sum_append] at later ⊢
      omega

end Parts

section Kernel

variable {P : Provider} {D : Deps} {q : Params}

/-- A slice asked in windows completes as its windows do. -/
theorem WindowsRun.completes {calls : List Event} {ceiling width : Nat} {acct : Account}
    (positive : 0 < width) (listed : q.listed ≠ [])
    (run : WindowsRun D (fun q _ acct => Completes D q acct) q calls ceiling
      (windowsOf width q.listed).length (windowsOf width q.listed) {} acct) :
    Completes D q acct := by
  intro e answer
  obtain ⟨-, parts, rfl, windows, totals, -⟩ := run.enumerated answer
  have complete : List.Forall₂ (fun (w : Nat × List String) acct =>
      ∃ e, acct.answer = .enumerated e ∧ Completion D { q with names := some w.2 } acct e)
      (windowsOf width q.listed) parts :=
    windows.imp fun w acct ⟨complete, e, enumerated⟩ => ⟨e, enumerated, complete e enumerated⟩
  have each : ∀ p ∈ parts, ∃ q e, p.answer = .enumerated e ∧ Completion D q p e := by
    intro p mem
    obtain ⟨w, e, enumerated, done⟩ := exists_of_mem_right complete mem
    exact ⟨_, e, enumerated, done⟩
  have windows_ne : (windowsOf width q.listed).map Prod.snd ≠ [] := by
    intro none
    have whole := windowsOf_flatten positive q.listed
    rw [none] at whole
    exact listed whole.symm
  constructor
  · change ((Account.piecesOf ([] ++ parts)).map fun piece => piece.question.cells).sum = _
    rw [List.nil_append, piecesOf_tiles (complete.imp fun w acct ⟨e, _, finished⟩ => ⟨e, finished⟩)]
    have tiles := Params.cells_windows windows_ne (by
      intro part mem
      obtain ⟨w, windowMem, rfl⟩ := List.mem_map.mp mem
      exact windowsOf_ne_nil positive windowMem) (windowsOf_flatten positive q.listed)
    rwa [List.map_map] at tiles
  · refine piecesOf_settled D fun p mem => ?_
    obtain ⟨q', e', -, done⟩ := each p mem
    exact ⟨⟨q', e', done⟩, (Account.allCalls_infix mem).trans (List.suffix_append _ _).isInfix⟩
  · intro agrees unrescued t total
    rw [totals] at total
    cases total
    change 0 + partTotals parts ≤ ((Account.piecesOf parts).map Piece.rows).sum
    rw [Nat.zero_add]
    exact partTotals_le_rows agrees unrescued each
  · intro whole
    cases whole
  · intro stack
    cases stack

/-- A split completes as its halves do. -/
theorem HalvesStep.completes {ceiling : Nat} {calls : List Event} {cause : String}
    {acct : Account}
    (run : HalvesStep P D (fun q _ acct => Completes D q acct)
      (fun q _ acct => Completes D q acct) ceiling q calls cause acct) :
    Completes D q acct := by
  intro e answer
  obtain ⟨several, asked, again, p, p', e₁, e₂, rfl, left, right, answer₁, answer₂, total,
    -, -⟩ := run.enumerated answer
  have within : ∀ {half acct},
      HalfOf (fun q _ acct => Completes D q acct) (fun q _ acct => Completes D q acct) q
        asked again half acct →
      Completes D { q with regions := some half } acct ∧
        acct.allCalls <:+: (Account.halves q calls asked again [p, p']
          (.enumerated e)).allCalls := by
    rintro half acct (⟨mem, done⟩ | ⟨mem, cause, done⟩)
    · exact ⟨done, (Account.allCalls_infix mem).trans
        ⟨calls, Account.allCallsOf again, by simp [Account.allCalls]⟩⟩
    · exact ⟨done, (Account.allCalls_infix mem).trans
        ⟨calls ++ Account.allCallsOf asked, [], by simp [Account.allCalls]⟩⟩
  obtain ⟨done₁, within₁⟩ := within left
  obtain ⟨done₂, within₂⟩ := within right
  constructor
  · simp only [Account.pieces, Account.piecesOf, List.append_nil, List.map_append,
      List.sum_append, (done₁ e₁ answer₁).tiles, (done₂ e₂ answer₂).tiles]
    exact Params.cells_halves several
  · refine piecesOf_settled D fun part mem => ?_
    simp only [List.mem_cons, List.not_mem_nil, or_false] at mem
    rcases mem with rfl | rfl
    · exact ⟨⟨_, e₁, done₁ e₁ answer₁⟩, within₁⟩
    · exact ⟨⟨_, e₂, done₂ e₂ answer₂⟩, within₂⟩
  · intro agrees unrescued t stated
    have bound : partTotals [p, p'] ≤ ((Account.piecesOf [p, p']).map Piece.rows).sum := by
      refine partTotals_le_rows agrees unrescued fun part mem => ?_
      simp only [List.mem_cons, List.not_mem_nil, or_false] at mem
      rcases mem with rfl | rfl
      · exact ⟨_, e₁, answer₁, done₁ e₁ answer₁⟩
      · exact ⟨_, e₂, answer₂, done₂ e₂ answer₂⟩
    have sum : partTotals [p, p'] = e₁.totalHits.getD 0 + e₂.totalHits.getD 0 := by
      simp [partTotals, answer₁, answer₂, Answer.totalHits]
    rw [total] at stated
    cases stated
    rw [← sum]
    exact bound
  · intro whole
    cases whole
  · intro stack
    cases stack

theorem zeroClasses_perm {ceiling : Nat} {probes : List (Nat × Probe)}
    (settled : ∀ cp ∈ probes, (∃ said, cp.2 = .counted 0 said) ∨
      (tractableLeg ceiling cp).isSome = true) :
    (zeroClasses probes ++
      (probes.filterMap (tractableLeg ceiling)).map TractableLeg.class_).Perm
        (probes.map Prod.fst) := by
  induction probes with
  | nil => simp [zeroClasses]
  | cons cp probes ih =>
      have rest := ih fun cp' mem => settled cp' (by simp [mem])
      obtain ⟨c, probe⟩ := cp
      obtain ⟨said, rfl⟩ | isLeg := settled (c, probe) (by simp)
      · have noLeg : tractableLeg ceiling (c, .counted 0 said) = none := by
          simp [tractableLeg, countedDisposition]
        simp only [zeroClasses, List.filterMap_cons, noLeg, List.cons_append, List.map_cons]
        exact rest.cons c
      · obtain ⟨leg, leg_eq⟩ := Option.isSome_iff_exists.mp isLeg
        have noZero : zeroClasses ((c, probe) :: probes) = zeroClasses probes := by
          cases probe with
          | uncounted floor reason => rfl
          | counted n said =>
              cases n with
              | zero => simp [tractableLeg, countedDisposition] at isLeg
              | succ n => rfl
        rw [noZero, List.filterMap_cons, leg_eq, List.map_cons, List.map_cons,
          tractableLeg_some leg_eq]
        exact List.perm_middle.trans (rest.cons c)

/-- Stamping an answer with what its total counts changes nothing a completion says. -/
theorem Completes.stamped {acct : Account} (done : Completes D q acct) :
    Completes D q acct.stamped := by
  intro e answer
  have same : ∃ e', acct.answer = .enumerated e' ∧ e'.totalHits = e.totalHits ∧
      e'.count = e.count := by
    simp only [Account.stamped, Account.setAnswer_answer] at answer
    cases plain : acct.answer with
    | missingElement text =>
        rw [plain] at answer
        cases heard : acct.heard <;> simp [heard, Answer.stampTotalCounts] at answer
    | incomplete i =>
        rw [plain] at answer
        cases heard : acct.heard <;> simp [heard, Answer.stampTotalCounts] at answer
    | enumerated e' =>
        rw [plain] at answer
        refine ⟨e', rfl, ?_⟩
        cases heard : acct.heard with
        | none => simp_all [Answer.stampTotalCounts]
        | some said =>
            simp only [heard, Answer.stampTotalCounts, Answer.enumerated.injEq] at answer
            subst answer
            exact ⟨rfl, rfl⟩
  obtain ⟨e', answer', total, count⟩ := same
  obtain ⟨tiles, settled, bound, whole, stack⟩ := done e' answer'
  rw [total] at bound stack
  rw [count] at whole
  constructor
  · simpa [Account.stamped] using tiles
  · simpa [Account.stamped] using settled
  · simpa [Account.stamped] using bound
  · simpa [Account.stamped] using whole
  · simpa [Account.stamped] using stack

theorem QuestionRun.completes {split : Bool} {acct : Account}
    (run : QuestionRun P D (fun q _ acct => Completes D q acct) q split acct) :
    Completes D q acct := by
  cases run with
  | refused element =>
      intro e answer
      cases answer
  | wide element wide run =>
      refine run.completes (D.namesChunk_pos q none) ?_
      rintro none
      simp [none] at wide
  | @leaf calls a element narrow leaf =>
      intro e answer
      obtain rfl : a = .enumerated e := answer
      obtain ⟨toEnd, rows, total⟩ := leaf.enumerated
      have pieces : (Account.leaf q calls (.enumerated e)).pieces = [.read q calls] := rfl
      constructor
      · simp [pieces, Piece.question]
      · intro piece mem
        obtain rfl := List.mem_singleton.mp mem
        exact ⟨List.infix_rfl, toEnd⟩
      · intro agrees _ t stated
        have agrees := agrees _ (List.mem_singleton.mpr rfl)
        simpa [pieces, Piece.rows, rows] using total agrees t stated
      · intro _
        simp [pieces, Piece.rows, rows]
      · intro stack
        cases stack
  | refusedList element narrow leaf run =>
      refine run.completes (D.namesChunk_pos q _) ?_
      rintro none
      have several := leaf.several_of_listRefused
      simp [none] at several
  | timedOut element narrow leaf run =>
      exact HalvesRun.of_step (motive := fun q _ _ acct => Completes D q acct)
        (fun q calls cause acct step => step.completes) run
  | @terms calls more total floor blind probes element narrow leaf counts several probed =>
      intro e answer
      obtain ⟨rfl, total', -, zeros⟩ := termsAnswer_enumerated answer
      have listed : q.listed ≠ [] := by
        rintro none
        simp [none] at several
      constructor
      · change ((q.listed.map fun t => Piece.zero (q.ofTerm t)).map
          fun piece => piece.question.cells).sum = _
        rw [List.map_map]
        exact Params.cells_terms listed
      · intro piece mem
        obtain ⟨t, termMem, rfl⟩ := List.mem_map.mp mem
        obtain ⟨said, zero⟩ := zeros t (by rwa [probed.legs_eq])
        obtain ⟨c, callMem, isZero⟩ := probed.zero zero
        exact ⟨c, List.mem_append_right _ callMem, isZero⟩
      · intro _ rescued
        cases rescued
      · intro whole
        cases whole
      · intro _
        obtain ⟨-, t, rfl, -, c, mem, stated⟩ | ⟨-, f, floored⟩ := leaf.crowd
        · exact ⟨c, List.mem_append_left _ mem, t, stated, total'⟩
        · cases floored
  | @classes calls more total floor blind probes st element narrow leaf counts oneName several
      probed run =>
      intro e answer
      have distinct : (probes.map Prod.fst).Nodup := probed.legs_eq ▸ q.splitClasses_nodup
      obtain ⟨rfl, total', read, settled⟩ := classesAnswer_enumerated distinct run answer
      have complete : List.Forall₂ (fun (leg : TractableLeg) acct =>
          ∃ e, Completion D (q.ofClass leg.class_) acct e)
          (tractableLegs (D.ceiling q) probes) st.legs :=
        read.imp fun leg acct ⟨done, e, enumerated⟩ => ⟨e, done e enumerated⟩
      have perm : (zeroClasses probes ++
          (tractableLegs (D.ceiling q) probes).map TractableLeg.class_).Perm q.splitClasses := by
        rw [← probed.legs_eq]
        refine ((((tractableLegs_perm _ probes).map _).append_left _).trans ?_)
        exact zeroClasses_perm settled
      constructor
      · simp only [Account.pieces, List.map_append, List.sum_append, List.map_map]
        rw [piecesOf_tiles complete]
        have tiles := Params.cells_classes several perm
        rw [List.map_append, List.sum_append, List.map_map] at tiles
        exact tiles
      · intro piece mem
        obtain zero | leg := List.mem_append.mp mem
        · obtain ⟨c, classMem, rfl⟩ := List.mem_map.mp zero
          obtain ⟨⟨c', probe⟩, probeMem, isZero⟩ := List.mem_filterMap.mp classMem
          match probe with
          | .counted 0 said =>
              cases isZero
              obtain ⟨call, callMem, counted⟩ := probed.zero probeMem
              exact ⟨call, by simp [Account.allCalls, callMem], counted⟩
          | .counted (n + 1) said => cases isZero
          | .uncounted floor reason => cases isZero
        · refine piecesOf_settled D (fun p mem => ?_) piece leg
          obtain ⟨leg, e, done⟩ := exists_of_mem_right complete mem
          exact ⟨⟨_, e, done⟩, (Account.allCalls_infix mem).trans
            (List.suffix_append _ _).isInfix⟩
      · intro _ rescued
        cases rescued
      · intro whole
        cases whole
      · intro _
        obtain ⟨-, t, rfl, -, c, mem, stated⟩ | ⟨-, f, floored⟩ := leaf.crowd
        · exact ⟨c, by simp [Account.allCalls, mem], t, stated, total'⟩
        · cases floored
  | blind element narrow leaf unrescued =>
      intro e answer
      cases answer

end Kernel

/-- Whatever the provider answers, an answer that says `enumerated` rests on pieces that
cover each name in each region and class once, each of them read to the provider's own
end of it or counted at zero by a rescue; and the calls it rests on are the calls the
run made. -/
theorem enumerated_completes (P : Provider) (D : Deps) (q : Params) (split : Bool)
    (history : List Event) (e : Enumerated)
    (answer : (enumerate P D q split history).1.answer = .enumerated e) :
    (enumerate P D q split history).2 =
        history ++ (enumerate P D q split history).1.allCalls ∧
      Completion D q (enumerate P D q split history).1 e := by
  have runs := enumerate_runs P D (motive := fun q _ acct => Completes D q acct)
    (fun q split acct run => run.completes.stamped) q split
  obtain ⟨calls, extends_, rfl, complete⟩ := runs history
  exact ⟨extends_, complete e answer⟩

/-- A provider with one record under every question. -/
def oneRecord : Provider where
  search _ _ _ _ := .ok (.answered { totalHits := some 1, results := [{}] })
  cheapSearch _ _ := .ok (.answered { totalHits := some 1, results := [{}] })
  count _ _ := .ok (.counted (some 1) none)
  screen _ _ _ := .ok (.answered {})

theorem enumerated_completes_oneRecord :
    Completion {} { names := some ["A"] }
      (enumerate oneRecord {} { names := some ["A"] } true []).1
      { totalHits := some 1, records := [{}] } :=
  (enumerated_completes oneRecord {} { names := some ["A"] } true [] _
    (by decide +kernel)).2

/-- A provider whose stacks crowd while each spelling alone has no record. -/
def hollowStack : Provider where
  search _ _ _ _ := .ok (.answered { totalHits := some 700, results := [{}], hasMore := true })
  cheapSearch _ _ := .ok (.answered { totalHits := some 0 })
  count _ _ := .ok (.counted (some 0) none)
  screen _ _ _ := .ok (.answered {})

/-- Is this the last page of a question? -/
def Event.isLastPage : Event → Bool
  | .page _ _ _ (.answered p) => !p.hasMore
  | _ => false

/-- The figures of an enumerated answer: its total and the number of its records. -/
def Answer.figures : Answer → Option (Option Nat × Nat)
  | .enumerated e => some (e.totalHits, e.count)
  | _ => none

/-- A crowded stack whose spellings each count at zero says `enumerated` with a total
of 700 over no record, and no page of it was followed to an end. -/
theorem rescued_stack_is_not_read :
    (enumerate hollowStack {} { names := some ["A", "B"] } true []).1.answer.figures =
        some (some 700, 0) ∧
      (enumerate hollowStack {} { names := some ["A", "B"] } true []).1.isStack = true ∧
      (enumerate hollowStack {} { names := some ["A", "B"] } true []).2.any
        Event.isLastPage = false := by
  decide +kernel

end Clearotron
