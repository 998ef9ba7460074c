import Clearotron.Searches.Request

/-!
# Offices that refuse a goods search

One office without the goods field refuses a whole request, so a request is sent again without the
office its refusal names, for as long as another office refuses. An office that has refused once is
kept, and later requests of the run leave it out before they are sent.
-/

namespace Clearotron

/-- What comes back from a request: a refusal, or an answer that may carry a reason of its own. -/
inductive RegisterReply (α : Type) where
  | refusal (reason : String)
  | answer (value : α) (reason : Option String)

namespace RegisterReply

variable {α : Type}

def reason : RegisterReply α → Option String
  | refusal reason => some reason
  | answer _ reason => reason

def isAnswer : RegisterReply α → Bool
  | refusal _ => false
  | answer _ _ => true

end RegisterReply

def isOfficeLetter (c : Char) : Bool := 65 ≤ c.toNat && c.toNat ≤ 90

/-- `/^[A-Z]{2}$/` -/
def isOfficeCode (code : String) : Bool :=
  code.toList.length = 2 && code.toList.all isOfficeLetter

/-- The office that the refusal of a goods field names, the words of the refusal found. -/
def officeBehind (words : List Char) : List Char → Option String
  | [] => none
  | c :: rest =>
    let behind := (c :: rest).drop words.length
    let code := String.ofList (behind.take 2)
    if words.isPrefixOf (c :: rest) && isOfficeCode code &&
        !(behind.drop 2).head?.any Text.isWord then some code
    else officeBehind words rest

def officeRefusingGoodsField (reason : Option String) : Option String :=
  officeBehind ("Search field " ++ goodsField ++
    " is not supported for registrationOfficeCode ").toList (reason.getD "").toList

section

variable {α : Type} (T : RequestText)

/-- The office codes of a request's regions. -/
def codesOf (regions : List String) : List String := (resolveOffices T regions).1

/-- The request built, and sent where it asks an office and every region is known. -/
def askOffices (send : ℕ → List String → RegisterReply α) (n : ℕ) (regions : List String) :
    RegisterReply α :=
  let (codes, unknown) := resolveOffices T regions
  if unknown ≠ [] then
    .refusal ("jurisdiction(s) [" ++ ", ".intercalate unknown ++ "] are outside this provider's " ++
      "registrationOfficeCode vocabulary — a coverage gap to disclose, never a filter to drop")
  else if codes = [] then
    .refusal ("regions[] is required (Compumark Content requires at least one " ++
      "registrationOfficeCode)")
  else send n regions

structure GoodsResult (α : Type) where
  out : RegisterReply α
  regions : List String
  leftOut : List String
  /-- the offices that `remember` is called with -/
  remembered : List String
  /-- every request that was made, with its reply -/
  replies : List (List String × RegisterReply α)

/-- The regions that do not stand for an office. -/
def regionsWithout (office : String) (regions : List String) : List String :=
  regions.filter fun r => office ∉ codesOf T [r]

/-- The loop of `withoutOfficesRefusingGoods`, `n` requests sent so far. -/
def askAgain (ask : ℕ → List String → RegisterReply α) (n : ℕ) (regions leftOut : List String)
    (out : RegisterReply α) : GoodsResult α :=
  match officeRefusingGoodsField out.reason with
  | none => ⟨out, regions, leftOut, [], []⟩
  | some office =>
    let rest := regionsWithout T office regions
    -- the office is not in the request as it was written, or it is the only one
    if office ∈ leftOut ∨ rest = [] ∨ rest.length = regions.length then
      ⟨out, regions, leftOut, [], []⟩
    else
      let again := askAgain ask (n + 1) rest (leftOut ++ [office]) (ask n rest)
      { again with
        remembered := office :: again.remembered
        replies := (rest, ask n rest) :: again.replies }
termination_by regions.length
decreasing_by
  rename_i stays
  have shorter : (regionsWithout T office regions).length ≤ regions.length :=
    List.length_filter_le _ _
  exact lt_of_le_of_ne shorter fun same => stays (.inr (.inr same))

/-- What is asked first: the offices known to refuse left out, unless they are all it asks. -/
def firstAsked (goods : List String) (known : List String) (asked : List String) :
    List String × List String :=
  let rest := asked.filter fun r => !(codesOf T [r]).any (· ∈ known)
  if known ≠ [] ∧ trimmed goods ≠ [] ∧ asked ≠ [] ∧ rest ≠ [] ∧ rest.length < asked.length then
    (rest, ((asked.flatMap fun r => codesOf T [r]).filter (· ∈ known)).eraseDups)
  else (asked, [])

def withoutOfficesRefusingGoods (goods known asked : List String)
    (ask : ℕ → List String → RegisterReply α) : GoodsResult α :=
  let (regions, leftOut) := firstAsked T goods known asked
  let out := ask 0 regions
  let again := askAgain T ask 1 regions leftOut out
  { again with replies := (regions, out) :: again.replies }

end

/-- The file of the offices that refused, `written` where this write of it succeeds. -/
def rememberGoodsRefusal (written : Bool) (held : List String) (office : String) : List String :=
  if !isOfficeCode office || held.contains office || !written then held else held ++ [office]

structure GoodsCall (α : Type) where
  goods : List String
  asked : List String
  send : ℕ → List String → RegisterReply α
  written : String → Bool

/-- What a run has of its calls so far: the file, and every reply. -/
structure GoodsRun (α : Type) where
  held : List String := []
  replies : List (List String × RegisterReply α) := []

section

variable {α : Type} (T : RequestText)

def GoodsCall.result (call : GoodsCall α) (held : List String) : GoodsResult α :=
  withoutOfficesRefusingGoods T call.goods held call.asked (askOffices T call.send)

def GoodsRun.step (run : GoodsRun α) (call : GoodsCall α) : GoodsRun α :=
  let result := call.result T run.held
  { held := result.remembered.foldl
      (fun held office => rememberGoodsRefusal (call.written office) held office) run.held
    replies := run.replies ++ result.replies }

/-- The calls of a run, from a folder with no file. -/
def goodsRun (calls : List (GoodsCall α)) : GoodsRun α := calls.foldl (GoodsRun.step T) {}

/-- An office a reply names, of a request that asked it. -/
def NamedIn (replies : List (List String × RegisterReply α)) (office : String) : Prop :=
  ∃ x ∈ replies, officeRefusingGoodsField x.2.reason = some office ∧ office ∈ codesOf T x.1

/-- What is asked and what is left out are the offices of `asked`, each on one side. -/
structure Parted (asked regions leftOut : List String) : Prop where
  together : ∀ c, c ∈ codesOf T asked ↔ c ∈ codesOf T regions ∨ c ∈ leftOut
  apart : ∀ c ∈ codesOf T regions, c ∉ leftOut

/-- What a call owes the offices it is asked for, `before` being the replies of the run's calls
before it. -/
structure LeftOutByName (before : List (List String × RegisterReply α)) (call : GoodsCall α)
    (result : GoodsResult α) : Prop where
  /-- one request at the most for each region -/
  ends : result.replies.length ≤ max 1 call.asked.length
  parted : Parted T call.asked result.regions result.leftOut
  named : ∀ c ∈ result.leftOut, NamedIn T (before ++ result.replies) c
  /-- an office that a reply names of a request that asked it beside others is left out -/
  leaves : ∀ x ∈ result.replies, ∀ c, officeRefusingGoodsField x.2.reason = some c →
    c ∈ codesOf T x.1 → (∃ d ∈ codesOf T x.1, d ≠ c) → c ∈ result.leftOut
  /-- the result is the reply to the regions it reports -/
  replied : (result.regions, result.out) ∈ result.replies
  over_offices : result.out.isAnswer = true → codesOf T result.regions ≠ []
  refused : ∀ refuses : String → Prop,
    (∀ n regions, (∃ c ∈ codesOf T regions, refuses c) →
      (call.send n regions).isAnswer = false) →
    (∀ c ∈ codesOf T call.asked, refuses c) → result.out.isAnswer = false

variable {T} {asked regions leftOut known : List String} {office c : String}
  {ask send : ℕ → List String → RegisterReply α} {n : ℕ} {out : RegisterReply α}
  {before own replies : List (List String × RegisterReply α)}

theorem mem_codesOf :
    c ∈ codesOf T regions ↔ ∃ r ∈ regions, T.translate r = some c ∧ T.covered c = true := by
  simp only [codesOf, resolveOffices, List.mem_eraseDups, List.mem_filter, List.mem_map,
    List.mem_filterMap, Option.map_eq_some_iff]
  constructor
  · rintro ⟨⟨-, ⟨r, mem, _, translated, rfl⟩, rfl⟩, covered⟩
    exact ⟨r, mem, translated, covered⟩
  · rintro ⟨r, mem, translated, covered⟩
    exact ⟨⟨(r, c), ⟨r, mem, c, translated, rfl⟩, rfl⟩, covered⟩

/-- A region stands for one office at the most. -/
theorem codesOf_singleton_unique {r d : String} (left : c ∈ codesOf T [r])
    (right : d ∈ codesOf T [r]) : c = d := by
  obtain ⟨r, mem, translated, -⟩ := mem_codesOf.mp left
  obtain ⟨r', mem', translated', -⟩ := mem_codesOf.mp right
  rw [List.mem_singleton] at mem mem'
  subst mem mem'
  exact Option.some_injective _ (translated.symm.trans translated')

theorem mem_codesOf_iff_region (regions : List String) :
    c ∈ codesOf T regions ↔ ∃ r ∈ regions, c ∈ codesOf T [r] := by
  simp [mem_codesOf]

theorem mem_codesOf_regionsWithout :
    c ∈ codesOf T (regionsWithout T office regions) ↔ c ∈ codesOf T regions ∧ c ≠ office := by
  rw [mem_codesOf_iff_region, mem_codesOf_iff_region regions]
  constructor
  · rintro ⟨r, mem, code⟩
    obtain ⟨mem, stays⟩ := List.mem_filter.mp mem
    exact ⟨⟨r, mem, code⟩, fun same => of_decide_eq_true stays (same ▸ code)⟩
  · rintro ⟨⟨r, mem, code⟩, other⟩
    refine ⟨r, List.mem_filter.mpr ⟨mem, decide_eq_true fun is => other ?_⟩, code⟩
    exact codesOf_singleton_unique code is

theorem regionsWithout_length_le :
    (regionsWithout T office regions).length ≤ regions.length := List.length_filter_le _ _

/-- An office whose regions are fewer without it was asked. -/
theorem mem_codesOf_of_shorter
    (shorter : (regionsWithout T office regions).length ≠ regions.length) :
    office ∈ codesOf T regions := by
  by_contra absent
  refine shorter (congrArg List.length (List.filter_eq_self.mpr fun r mem => decide_eq_true ?_))
  exact fun code => absent ((mem_codesOf_iff_region _).mpr ⟨r, mem, code⟩)

theorem regionsWithout_length_ne (mem : office ∈ codesOf T regions) :
    (regionsWithout T office regions).length ≠ regions.length := by
  obtain ⟨r, there, code⟩ := (mem_codesOf_iff_region _).mp mem
  intro same
  have stays := List.length_filter_eq_length_iff.mp same r there
  exact of_decide_eq_true stays code

namespace Parted

theorem start : Parted T asked asked [] := ⟨fun c => by simp, fun c _ => by simp⟩

/-- An office that is asked is left out. -/
theorem leave (parted : Parted T asked regions leftOut) (mem : office ∈ codesOf T regions) :
    Parted T asked (regionsWithout T office regions) (leftOut ++ [office]) where
  together c := by
    rw [parted.together, mem_codesOf_regionsWithout, List.mem_append, List.mem_singleton]
    by_cases same : c = office
    · subst same
      exact iff_of_true (.inl mem) (.inr (.inr rfl))
    · simp [same]
  apart c code := by
    obtain ⟨code, other⟩ := mem_codesOf_regionsWithout.mp code
    rw [List.mem_append, List.mem_singleton]
    exact not_or.mpr ⟨parted.apart c code, other⟩

end Parted

theorem NamedIn.mono (named : NamedIn T before c) (sub : ∀ x ∈ before, x ∈ replies) :
    NamedIn T replies c := by
  obtain ⟨x, mem, names⟩ := named
  exact ⟨x, sub x mem, names⟩

/-- What holds of a call between two requests, `own` being its replies so far. -/
structure Underway (T : RequestText) (asked : List String)
    (ask : ℕ → List String → RegisterReply α) (before : List (List String × RegisterReply α))
    (regions leftOut : List String) (out : RegisterReply α)
    (own : List (List String × RegisterReply α)) : Prop where
  parted : Parted T asked regions leftOut
  named : ∀ c ∈ leftOut, NamedIn T (before ++ own) c
  replied : (regions, out) ∈ own
  reply : ∃ n, out = ask n regions
  /-- what the replies before the last one name is left out -/
  leaves : ∀ x ∈ own, x = (regions, out) ∨
    ∀ c, officeRefusingGoodsField x.2.reason = some c → c ∈ leftOut

theorem Underway.leave (underway : Underway T asked ask before regions leftOut out own)
    (names : officeRefusingGoodsField out.reason = some office)
    (mem : office ∈ codesOf T regions) (n : ℕ) :
    Underway T asked ask before (regionsWithout T office regions) (leftOut ++ [office])
      (ask n (regionsWithout T office regions))
      (own ++ [(regionsWithout T office regions, ask n (regionsWithout T office regions))]) where
  parted := underway.parted.leave mem
  named c left := by
    rw [← List.append_assoc]
    obtain left | left := List.mem_append.mp left
    · exact (underway.named c left).mono fun x mem => List.mem_append_left _ mem
    · rw [List.mem_singleton] at left
      subst left
      exact ⟨_, List.mem_append_left _ (List.mem_append_right _ underway.replied), names, mem⟩
  replied := List.mem_append_right _ (List.mem_singleton_self _)
  reply := ⟨n, rfl⟩
  leaves x there := by
    obtain there | last := List.mem_append.mp there
    · right
      intro c named
      obtain rfl | left := underway.leaves x there
      · obtain rfl := Option.some.inj (names.symm.trans named)
        exact List.mem_append_right _ (List.mem_singleton_self _)
      · exact List.mem_append_left _ (left c named)
    · exact .inl (List.mem_singleton.mp last)

theorem askAgain_of_none (unnamed : officeRefusingGoodsField out.reason = none) :
    askAgain T ask n regions leftOut out = ⟨out, regions, leftOut, [], []⟩ := by
  rw [askAgain, unnamed]

/-- The refusal stands as it was given. -/
theorem askAgain_of_stands (names : officeRefusingGoodsField out.reason = some office)
    (stands : office ∈ leftOut ∨ regionsWithout T office regions = [] ∨
      (regionsWithout T office regions).length = regions.length) :
    askAgain T ask n regions leftOut out = ⟨out, regions, leftOut, [], []⟩ := by
  rw [askAgain, names]
  exact if_pos stands

theorem askAgain_of_leaves (names : officeRefusingGoodsField out.reason = some office)
    (leaves : ¬ (office ∈ leftOut ∨ regionsWithout T office regions = [] ∨
      (regionsWithout T office regions).length = regions.length)) :
    askAgain T ask n regions leftOut out =
      let rest := regionsWithout T office regions
      let again := askAgain T ask (n + 1) rest (leftOut ++ [office]) (ask n rest)
      { again with
        remembered := office :: again.remembered
        replies := (rest, ask n rest) :: again.replies } := by
  rw [askAgain, names]
  exact if_neg leaves

theorem askAgain_spec (underway : Underway T asked ask before regions leftOut out own) :
    ∃ result, askAgain T ask n regions leftOut out = result ∧
      Underway T asked ask before result.regions result.leftOut result.out
        (own ++ result.replies) ∧
      result.leftOut = leftOut ++ result.remembered ∧
      result.replies.length + 1 ≤ max 1 regions.length := by
  induction n, regions, leftOut, out using askAgain.induct T ask generalizing own with
  | case1 n regions leftOut out unnamed =>
    exact ⟨_, askAgain_of_none unnamed, by simpa using underway, by simp, by simp⟩
  | case2 n regions leftOut out office names rest =>
    rename_i stands
    exact ⟨_, askAgain_of_stands names stands, by simpa using underway, by simp, by simp⟩
  | case3 n regions leftOut out office names rest =>
    rename_i leaves ih
    simp only [rest] at ih leaves
    have shorter : (regionsWithout T office regions).length ≠ regions.length :=
      fun same => leaves (.inr (.inr same))
    obtain ⟨again, is, after, remembered, length⟩ :=
      ih (underway.leave names (mem_codesOf_of_shorter shorter) n)
    refine ⟨_, askAgain_of_leaves names leaves, ?_⟩
    simp only [is]
    refine ⟨by simpa using after, by simpa using remembered, ?_⟩
    have le : (regionsWithout T office regions).length ≤ regions.length :=
      regionsWithout_length_le
    have some_left : (regionsWithout T office regions).length ≠ 0 := fun none_left =>
      leaves (.inr (.inl (List.length_eq_zero_iff.mp none_left)))
    rw [List.length_cons]
    omega

/-- A refusal that stands names an office left out before, or the only one its request asked. -/
theorem askAgain_leaves
    (names : officeRefusingGoodsField (askAgain T ask n regions leftOut out).out.reason = some c)
    (mem : c ∈ codesOf T (askAgain T ask n regions leftOut out).regions)
    (others : ∃ d ∈ codesOf T (askAgain T ask n regions leftOut out).regions, d ≠ c) :
    c ∈ (askAgain T ask n regions leftOut out).leftOut := by
  induction n, regions, leftOut, out using askAgain.induct T ask with
  | case1 n regions leftOut out unnamed =>
    rw [askAgain_of_none unnamed] at names
    cases unnamed.symm.trans names
  | case2 n regions leftOut out office named rest =>
    rename_i stands
    rw [askAgain_of_stands named stands] at names mem others ⊢
    obtain rfl := Option.some.inj (named.symm.trans names)
    obtain left | empty | same := stands
    · exact left
    · obtain ⟨d, code, other⟩ := others
      have code' := mem_codesOf_regionsWithout.mpr ⟨code, other⟩
      rw [show regionsWithout T office regions = [] from empty] at code'
      exact absurd code' (by simp [mem_codesOf])
    · exact absurd same (regionsWithout_length_ne mem)
  | case3 n regions leftOut out office named rest =>
    rename_i leaves ih
    rw [askAgain_of_leaves named leaves] at names mem others ⊢
    exact ih names mem others

theorem firstAsked_spec (goods known asked : List String) :
    Parted T asked (firstAsked T goods known asked).1 (firstAsked T goods known asked).2 ∧
      (∀ c ∈ (firstAsked T goods known asked).2, c ∈ known) ∧
      (firstAsked T goods known asked).1.length ≤ asked.length := by
  rw [firstAsked]
  split
  · refine ⟨⟨fun c => ?_, fun c code => ?_⟩, fun c left => ?_, List.length_filter_le _ _⟩
    · rw [List.mem_eraseDups, List.mem_filter, List.mem_flatMap, mem_codesOf_iff_region,
        mem_codesOf_iff_region (asked.filter _)]
      constructor
      · rintro ⟨r, mem, code⟩
        by_cases held : c ∈ known
        · exact .inr ⟨⟨r, mem, code⟩, decide_eq_true held⟩
        · refine .inl ⟨r, List.mem_filter.mpr ⟨mem, ?_⟩, code⟩
          rw [Bool.not_eq_true', List.any_eq_false]
          intro d other
          rw [codesOf_singleton_unique other code]
          simpa using held
      · rintro (⟨r, mem, code⟩ | ⟨⟨r, mem, code⟩, -⟩)
        · exact ⟨r, List.mem_of_mem_filter mem, code⟩
        · exact ⟨r, mem, code⟩
    · obtain ⟨r, mem, code⟩ := (mem_codesOf_iff_region _).mp code
      have stays := (List.mem_filter.mp mem).2
      rw [Bool.not_eq_true', List.any_eq_false] at stays
      rw [List.mem_eraseDups, List.mem_filter]
      exact fun held => stays c code held.2
    · rw [List.mem_eraseDups, List.mem_filter] at left
      exact of_decide_eq_true left.2
  · exact ⟨.start, by simp, le_rfl⟩

/-- A request of no office the register covers is refused before it is sent. -/
theorem codesOf_ne_nil_of_isAnswer (answer : (askOffices T send n regions).isAnswer = true) :
    codesOf T regions ≠ [] := by
  intro empty
  rw [codesOf] at empty
  simp only [askOffices, empty] at answer
  split at answer <;> cases answer

theorem askOffices_isAnswer_eq_false (refused : (send n regions).isAnswer = false) :
    (askOffices T send n regions).isAnswer = false := by
  simp only [askOffices]
  split
  · rfl
  · split
    · rfl
    · exact refused

theorem GoodsCall.result_spec (call : GoodsCall α) (known : List String)
    (named : ∀ c ∈ known, NamedIn T before c) :
    LeftOutByName T before call (call.result T known) ∧
      ∀ c ∈ (call.result T known).remembered, c ∈ (call.result T known).leftOut := by
  obtain ⟨parted, held, fewer⟩ := firstAsked_spec (T := T) call.goods known call.asked
  have underway : Underway T call.asked (askOffices T call.send) before
      (firstAsked T call.goods known call.asked).1 (firstAsked T call.goods known call.asked).2
      (askOffices T call.send 0 (firstAsked T call.goods known call.asked).1)
      [((firstAsked T call.goods known call.asked).1,
        askOffices T call.send 0 (firstAsked T call.goods known call.asked).1)] :=
    ⟨parted, fun c left => (named c (held c left)).mono fun x mem => List.mem_append_left _ mem,
      List.mem_singleton_self _, ⟨0, rfl⟩, fun x last => .inl (List.mem_singleton.mp last)⟩
  obtain ⟨result, is, after, remembered, length⟩ := askAgain_spec (n := 1) underway
  have made : call.result T known = { result with
      replies := ((firstAsked T call.goods known call.asked).1,
        askOffices T call.send 0 (firstAsked T call.goods known call.asked).1) ::
          result.replies } := by
    rw [← is]
    rfl
  rw [List.singleton_append] at after
  obtain ⟨n, reply⟩ := after.reply
  have offices : result.out.isAnswer = true → codesOf T result.regions ≠ [] := fun answer =>
    codesOf_ne_nil_of_isAnswer (reply ▸ answer)
  rw [made]
  refine ⟨⟨?_, after.parted, after.named, ?_, after.replied, offices, ?_⟩, fun c mem => ?_⟩
  · rw [List.length_cons]
    omega
  · intro x mem c names code others
    obtain rfl | left := after.leaves x mem
    · subst is
      exact askAgain_leaves names code others
    · exact left c names
  · intro refuses refusal every
    rw [Bool.eq_false_iff]
    intro answer
    obtain ⟨c, code⟩ := List.exists_mem_of_ne_nil _ (offices answer)
    have refused := refusal n result.regions
      ⟨c, code, every c ((after.parted.together c).mpr (.inl code))⟩
    rw [reply, askOffices_isAnswer_eq_false refused] at answer
    cases answer
  · exact remembered ▸ List.mem_append_right _ mem

theorem mem_rememberGoodsRefusal {written : Bool}
    (mem : c ∈ rememberGoodsRefusal written known office) : c ∈ known ∨ c = office := by
  rw [rememberGoodsRefusal] at mem
  split at mem
  · exact .inl mem
  · simpa using mem

theorem mem_remembered {written : String → Bool} {offices : List String}
    (mem : c ∈ offices.foldl
      (fun held office => rememberGoodsRefusal (written office) held office) known) :
    c ∈ known ∨ c ∈ offices := by
  induction offices generalizing known with
  | nil => exact .inl mem
  | cons office offices ih =>
    obtain held | mem := ih mem
    · obtain held | rfl := mem_rememberGoodsRefusal held
      · exact .inl held
      · exact .inr List.mem_cons_self
    · exact .inr (List.mem_cons_of_mem _ mem)

/-- What the file of a run holds has been named by a reply of the run. -/
def GoodsRun.Known (T : RequestText) (run : GoodsRun α) : Prop :=
  ∀ c ∈ run.held, NamedIn T run.replies c

theorem GoodsRun.Known.step {run : GoodsRun α} (known : run.Known T) (call : GoodsCall α) :
    (run.step T call).Known T := by
  intro c mem
  obtain ⟨spec, left⟩ := call.result_spec run.held known
  obtain held | mem := mem_remembered mem
  · exact (known c held).mono fun x mem => List.mem_append_left _ mem
  · exact spec.named c (left c mem)

theorem goodsRun_known (calls : List (GoodsCall α)) : (goodsRun T calls).Known T := by
  induction calls using List.reverseRecOn with
  | nil => exact fun c mem => nomatch mem
  | append_singleton calls call ih =>
    rw [goodsRun, List.foldl_append]
    exact ih.step call

end

end Clearotron
