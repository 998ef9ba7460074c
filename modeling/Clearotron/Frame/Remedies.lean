import Clearotron.Plan.TermShape

/-!
# What a directive searches again

A directive of the frame diff says what a search left out. Its remedy is the terms and the
classes it dictates or, where it dictates none, those read from its label. A class the frame
added costs one question, the identical mark in it, which the plan asks already: so the added
classes come off a remedy, and one that names nothing else is answered by the plan's question.
-/

namespace Clearotron.Frame

/-- What a source dictated; a list that is missing is empty. -/
structure DictatedRemedy where
  terms : List String := []
  niceClasses : List String := []
  regions : List String := []
  deriving DecidableEq

structure Directive where
  layer : String := ""
  item : String := ""
  severity : String := ""
  observation : String := ""
  remedy : Option DictatedRemedy := none
  deriving DecidableEq

/-- The identical mark in an added class, as the plan asks it. -/
structure AddedClassQuestion where
  predicate : Predicate
  term : String
  niceClasses : List String
  regions : List String
  termLiteral : Bool
  deriving DecidableEq

/-- The fields of a frozen entry that the bound reads. -/
structure FrozenEntry where
  addedClassReason : Option String := none
  predicate : Option Predicate := none
  term : Option String := none
  niceClasses : List String := []
  regions : List String := []
  termLiteral : Bool := false
  deriving DecidableEq

structure FrozenPlan where
  addedClasses : List String := []
  entries : List FrozenEntry := []
  deriving DecidableEq

/-- `identicalOnly` is a remedy with questions. -/
structure Remedy where
  terms : List String
  niceClasses : List String
  regions : List String
  questions : Option (List AddedClassQuestion) := none
  deriving DecidableEq

/-- What bounds a remedy. -/
structure AddedClassBound where
  addedClasses : List String
  addedClassQuestions : List AddedClassQuestion
  deriving DecidableEq

/-- The question an entry asks in an added class. -/
def FrozenEntry.addedQuestion (e : FrozenEntry) : Option AddedClassQuestion :=
  let term := Text.trim (e.term.getD "")
  if e.addedClassReason.any (· ≠ "") ∧ term ≠ "" ∧ e.niceClasses ≠ [] then
    some ⟨e.predicate.getD .exact, term, e.niceClasses, e.regions, e.termLiteral⟩
  else none

/-- The texts trimmed, without the empty ones. -/
def trimmedTexts (l : List String) : List String := (l.map Text.trim).filter (· ≠ "")

def addedClassBound (plan : FrozenPlan) : AddedClassBound where
  addedClasses := (trimmedTexts plan.addedClasses).eraseDups
  addedClassQuestions := plan.entries.filterMap FrozenEntry.addedQuestion

open Text in
/-- What follows `cl`, `class` or `classes`, written as a word of its own. -/
def afterClassWord (s : List Char) : Option (List Char) :=
  ["cl", "class", "classes"].findSome? fun w =>
    let rest := s.drop w.length
    if w.toList.isPrefixOf (s.map Char.toLower) ∧ rest.head?.any isWord = false then some rest
    else none

/-- A number of one digit or two, and what follows it. -/
def shortNumber (s : List Char) : Option (Nat × List Char) :=
  let digits := (s.takeWhile Char.isDigit).take 2
  if digits = [] then none
  else some (digits.foldl (fun n c => 10 * n + (c.toNat - 48)) 0, s.drop digits.length)

open Text in
/-- What follows a separator between two class numbers. -/
def afterSeparator (s : List Char) : Option (List Char) :=
  let s := s.dropWhile isSpace
  [",", "and", "&", "/", "+", "or"].findSome? fun w =>
    if w.toList.isPrefixOf (s.map Char.toLower) then some ((s.drop w.length).dropWhile isSpace)
    else none

/-- The numbers that follow a first one, and where they end. -/
def moreNumbers : Nat → List Char → List Nat × List Char
  | 0, s => ([], s)
  | fuel + 1, s =>
    match (afterSeparator s).bind shortNumber with
    | none => ([], s)
    | some (n, rest) => ((n :: (moreNumbers fuel rest).1), (moreNumbers fuel rest).2)

open Text in
/-- The numbers behind a class word. -/
def classesAt (s : List Char) : Option (List Nat × List Char) := do
  let rest ← afterClassWord s
  let rest := if rest.head? = some '.' then rest.tail else rest
  let (n, rest) ← shortNumber (rest.dropWhile isSpace)
  return (n :: (moreNumbers rest.length rest).1, (moreNumbers rest.length rest).2)

open Text in
/-- The class numbers of a label; `before` is the character in front of it. -/
def scanClasses : Nat → Option Char → List Char → List Nat
  | fuel + 1, before, c :: rest =>
    match if before.any isWord then none else classesAt (c :: rest) with
    | some (ns, after) => ns ++ scanClasses fuel (some '0') after
    | none => scanClasses fuel (some c) rest
  | _, _, _ => []

def parseFieldClasses (item : String) : List String :=
  (((scanClasses item.length none item.toList).filter fun c => 1 ≤ c ∧ c ≤ 45).map
    toString).eraseDups

example : parseFieldClasses "Cl. 35 (retail) and classes 38, 9/35" = ["35", "38", "9"] := by
  decide +kernel

/-- `/^\d{1,2}$/`. -/
def isClassText (c : String) : Bool :=
  c.toList.all Char.isDigit && (c.length = 1 || c.length = 2)

/-- The remedy a source dictated, coerced. -/
def DictatedRemedy.coerced (r : DictatedRemedy) : Remedy where
  terms := trimmedTexts r.terms
  niceClasses := ((r.niceClasses.map Text.trim).filter isClassText).eraseDups
  regions := trimmedTexts r.regions

/-- The remedy of a directive that dictates none. -/
def remedyOfLabel (d : Directive) (dominantElement : String) (inScope : List String) :
    Option Remedy :=
  let inScopeStr := (trimmedTexts inScope).eraseDups
  if d.layer.toLower = "field" then
    let classes := parseFieldClasses d.item
    let term := Text.trim dominantElement
    if classes ≠ [] ∧ term ≠ "" then some { terms := [term], niceClasses := classes, regions := [] }
    else none
  else
    let item := Text.trim d.item
    if item = "" ∨ inScopeStr = [] then none
    else if (termShapeIssue item).isSome ∨ (termPredicateIssue item .exact).isSome then none
    else some { terms := [item], niceClasses := inScopeStr, regions := [] }

def remedyAsDirected (d : Directive) (dominantElement : String) (inScope : List String) :
    Option Remedy :=
  match d.remedy with
  | some r =>
    if r.terms ≠ [] ∨ r.niceClasses ≠ [] then some r.coerced
    else remedyOfLabel d dominantElement inScope
  | none => remedyOfLabel d dominantElement inScope

/-- The plan's questions in some classes. -/
def questionsIn (questions : List AddedClassQuestion) (classes : List String) :
    List AddedClassQuestion :=
  questions.filter fun q => q.niceClasses.any (· ∈ classes)

def boundAddedClasses (remedy : Option Remedy) (bound : AddedClassBound) : Option Remedy :=
  remedy.bind fun r =>
    let added := trimmedTexts bound.addedClasses
    if added = [] then some r
    else
      let kept := r.niceClasses.filter (· ∉ added)
      let questions := questionsIn bound.addedClassQuestions r.niceClasses
      if kept ≠ [] then some { r with niceClasses := kept }
      else if questions = [] then none
      else some
        { terms := (questions.map AddedClassQuestion.term).eraseDups
          niceClasses := (questions.flatMap AddedClassQuestion.niceClasses).eraseDups
          regions := []
          questions := some questions }

def deriveDirectiveRemedy (d : Directive) (dominantElement : String) (inScope : List String)
    (bound : AddedClassBound) : Option Remedy :=
  boundAddedClasses (remedyAsDirected d dominantElement inScope) bound

structure Proposal where
  predicate : Predicate
  term : String
  niceClasses : List String
  regions : List String
  rationale : String
  termLiteral : Bool := false
  deriving DecidableEq

/-- The predicates a directive's terms are asked under. -/
def Directive.predicates (d : Directive) : List Predicate :=
  if d.severity = "dominant-element" then [.exact, .default] else [.exact]

/-- The reason a sweep gives for what it asks. -/
def Directive.rationale (d : Directive) : String :=
  "frame-reopen " ++ d.layer ++ ": " ++ Text.slice 120 d.observation

/-- A question of the plan as a proposal. -/
def AddedClassQuestion.proposal (rationale : String) (q : AddedClassQuestion) : Proposal :=
  ⟨q.predicate, q.term, q.niceClasses, q.regions, rationale, q.termLiteral⟩

/-- `remedyProposals`, on the base the sweep gives it. -/
def remedyProposals (remedy : Option Remedy) (d : Directive) : List Proposal :=
  match remedy with
  | none => []
  | some r =>
    match r.questions with
    | some questions => questions.map (AddedClassQuestion.proposal d.rationale)
    | none => r.terms.flatMap fun t => d.predicates.map fun p =>
        ⟨p, t, r.niceClasses, r.regions, d.rationale, false⟩

/-- Is the directive swept, or put off for want of a term or a class? -/
def isSwept (remedy : Option Remedy) : Bool :=
  remedy.any fun r => r.terms ≠ [] && r.niceClasses ≠ []

theorem mem_trimmedTexts {l : List String} {s : String} :
    s ∈ trimmedTexts l ↔ s ≠ "" ∧ ∃ t ∈ l, Text.trim t = s := by
  simp [trimmedTexts, and_comm]

theorem trimmedTexts_of_trimmed {l : List String} (trimmed : ∀ s ∈ l, Text.trim s = s)
    (solid : ∀ s ∈ l, s ≠ "") : trimmedTexts l = l := by
  unfold trimmedTexts
  rw [List.map_congr_left trimmed, List.map_id'', List.filter_eq_self]
  · exact fun s mem => by simpa using solid s mem
  · exact fun _ => rfl

/-- The classes of a bound are trimmed already. -/
@[simp] theorem trimmedTexts_addedClasses (plan : FrozenPlan) :
    trimmedTexts (addedClassBound plan).addedClasses = (addedClassBound plan).addedClasses := by
  have each : ∀ s ∈ (addedClassBound plan).addedClasses, s ≠ "" ∧ Text.trim s = s := by
    intro s mem
    obtain ⟨solid, t, -, rfl⟩ := mem_trimmedTexts.mp (List.mem_eraseDups.mp mem)
    exact ⟨solid, Text.trim_trim t⟩
  exact trimmedTexts_of_trimmed (fun s mem => (each s mem).2) fun s mem => (each s mem).1

/-- Before the bound no remedy carries questions of the plan. -/
theorem questions_of_directed {d : Directive} {dominantElement : String} {inScope : List String}
    {r : Remedy} (directed : remedyAsDirected d dominantElement inScope = some r) :
    r.questions = none := by
  have ofLabel (found : remedyOfLabel d dominantElement inScope = some r) :
      r.questions = none := by
    unfold remedyOfLabel at found
    dsimp only at found
    split_ifs at found <;> cases found <;> rfl
  unfold remedyAsDirected at directed
  split at directed
  · split at directed
    · cases directed
      rfl
    · exact ofLabel directed
  · exact ofLabel directed

section Bounds

variable {r : Remedy} {bound : AddedClassBound} {d : Directive}

theorem boundAddedClasses_of_no_added (none' : trimmedTexts bound.addedClasses = []) :
    boundAddedClasses (some r) bound = some r := by
  unfold boundAddedClasses
  rw [Option.bind_some, if_pos none']

theorem boundAddedClasses_of_kept (some' : trimmedTexts bound.addedClasses ≠ [])
    (kept : r.niceClasses.filter (· ∉ trimmedTexts bound.addedClasses) ≠ []) :
    boundAddedClasses (some r) bound =
      some { r with niceClasses := r.niceClasses.filter (· ∉ trimmedTexts bound.addedClasses) } := by
  unfold boundAddedClasses
  rw [Option.bind_some, if_neg some', if_pos kept]

theorem boundAddedClasses_of_added (some' : trimmedTexts bound.addedClasses ≠ [])
    (none' : r.niceClasses.filter (· ∉ trimmedTexts bound.addedClasses) = []) :
    boundAddedClasses (some r) bound =
      if questionsIn bound.addedClassQuestions r.niceClasses = [] then none
      else some
        { terms := ((questionsIn bound.addedClassQuestions r.niceClasses).map
            AddedClassQuestion.term).eraseDups
          niceClasses := ((questionsIn bound.addedClassQuestions r.niceClasses).flatMap
            AddedClassQuestion.niceClasses).eraseDups
          regions := []
          questions := some (questionsIn bound.addedClassQuestions r.niceClasses) } := by
  unfold boundAddedClasses
  rw [Option.bind_some, if_neg some', none', if_neg (not_not.mpr rfl)]

/-- The proposal in those of its classes that no frame added. -/
def Proposal.without (added : List String) (p : Proposal) : Proposal :=
  { p with niceClasses := p.niceClasses.filter (· ∉ added) }

theorem Proposal.without_nil : Proposal.without [] = id := by
  funext p
  simp [Proposal.without]

theorem remedyProposals_narrowed (directed : r.questions = none) (added : List String) :
    remedyProposals (some { r with niceClasses := r.niceClasses.filter (· ∉ added) }) d =
      (remedyProposals (some r) d).map (Proposal.without added) := by
  unfold remedyProposals
  simp only [directed, List.map_flatMap, List.map_map]
  rfl

end Bounds

section Kept

variable (plan : FrozenPlan) (d : Directive) (dominantElement : String) (inScope : List String)

/-- What the classes the frame added do to a directive's proposals. -/
structure QuestionKept : Prop where
  /-- without an added class the remedy stands as it was directed -/
  unbounded : (addedClassBound plan).addedClasses = [] →
    deriveDirectiveRemedy d dominantElement inScope (addedClassBound plan) =
      remedyAsDirected d dominantElement inScope
  /-- a remedy that names a class no frame added asks the same in the classes it keeps -/
  narrowed : ∀ r, remedyAsDirected d dominantElement inScope = some r →
    (∃ c ∈ r.niceClasses, c ∉ (addedClassBound plan).addedClasses) →
    remedyProposals (deriveDirectiveRemedy d dominantElement inScope (addedClassBound plan)) d =
        (remedyProposals (some r) d).map (Proposal.without (addedClassBound plan).addedClasses) ∧
      isSwept (deriveDirectiveRemedy d dominantElement inScope (addedClassBound plan)) =
        isSwept (some r)
  /-- a remedy that names added classes only is the plan's own question in them -/
  identical : ∀ r, remedyAsDirected d dominantElement inScope = some r →
    r.niceClasses ≠ [] → (∀ c ∈ r.niceClasses, c ∈ (addedClassBound plan).addedClasses) →
    remedyProposals (deriveDirectiveRemedy d dominantElement inScope (addedClassBound plan)) d =
        (questionsIn (addedClassBound plan).addedClassQuestions r.niceClasses).map
          (AddedClassQuestion.proposal d.rationale) ∧
      (isSwept (deriveDirectiveRemedy d dominantElement inScope (addedClassBound plan)) ↔
        questionsIn (addedClassBound plan).addedClassQuestions r.niceClasses ≠ [])

theorem question_term_ne_empty {q : AddedClassQuestion}
    (mem : q ∈ (addedClassBound plan).addedClassQuestions) :
    q.term ≠ "" ∧ q.niceClasses ≠ [] := by
  obtain ⟨e, -, asks⟩ := List.mem_filterMap.mp mem
  unfold FrozenEntry.addedQuestion at asks
  dsimp only at asks
  split at asks
  · rename_i ok
    cases asks
    exact ok.2
  · cases asks

/-- Questions of the plan are swept. -/
theorem isSwept_questions {qs : List AddedClassQuestion} (some' : qs ≠ [])
    (asked : ∀ q ∈ qs, q ∈ (addedClassBound plan).addedClassQuestions) (regions : List String) :
    isSwept (some
      { terms := (qs.map AddedClassQuestion.term).eraseDups
        niceClasses := (qs.flatMap AddedClassQuestion.niceClasses).eraseDups
        regions
        questions := some qs }) := by
  obtain ⟨q, mem⟩ := List.exists_mem_of_ne_nil qs some'
  obtain ⟨c, isClass⟩ := List.exists_mem_of_ne_nil _ (question_term_ne_empty plan (asked q mem)).2
  have term : q.term ∈ (qs.map AddedClassQuestion.term).eraseDups :=
    List.mem_eraseDups.mpr (List.mem_map_of_mem mem)
  have niceClass : c ∈ (qs.flatMap AddedClassQuestion.niceClasses).eraseDups :=
    List.mem_eraseDups.mpr (List.mem_flatMap.mpr ⟨q, mem, isClass⟩)
  simp [isSwept, List.ne_nil_of_mem term, List.ne_nil_of_mem niceClass]

theorem question_kept : QuestionKept plan d dominantElement inScope where
  unbounded none' := by
    unfold deriveDirectiveRemedy
    cases remedyAsDirected d dominantElement inScope with
    | none => rfl
    | some r => exact boundAddedClasses_of_no_added (by rw [none']; rfl)
  narrowed r directed names := by
    obtain ⟨c, mem, kept⟩ := names
    have own := questions_of_directed directed
    have stays : r.niceClasses.filter (· ∉ (addedClassBound plan).addedClasses) ≠ [] :=
      List.ne_nil_of_mem (List.mem_filter.mpr ⟨mem, by simpa using kept⟩)
    have derived : deriveDirectiveRemedy d dominantElement inScope (addedClassBound plan) =
        some { r with niceClasses :=
          r.niceClasses.filter (· ∉ (addedClassBound plan).addedClasses) } := by
      unfold deriveDirectiveRemedy
      rw [directed]
      by_cases none' : (addedClassBound plan).addedClasses = []
      · rw [boundAddedClasses_of_no_added (by rw [none']; rfl), none']
        simp
      · rw [boundAddedClasses_of_kept] <;> rw [trimmedTexts_addedClasses]
        · exact none'
        · exact stays
    rw [derived]
    have swept := List.ne_nil_of_mem mem
    refine ⟨remedyProposals_narrowed own _, ?_⟩
    simp only [isSwept, Option.any_some, decide_eq_true stays, decide_eq_true swept, ne_eq]
  identical r directed names only := by
    have some' : (addedClassBound plan).addedClasses ≠ [] := by
      obtain ⟨c, mem⟩ := List.exists_mem_of_ne_nil _ names
      exact List.ne_nil_of_mem (only c mem)
    have noneKept : r.niceClasses.filter
        (· ∉ trimmedTexts (addedClassBound plan).addedClasses) = [] := by
      rw [trimmedTexts_addedClasses]
      exact List.filter_eq_nil_iff.mpr fun c mem => by simpa using only c mem
    have someAdded : trimmedTexts (addedClassBound plan).addedClasses ≠ [] := by
      rwa [trimmedTexts_addedClasses]
    unfold deriveDirectiveRemedy
    rw [directed, boundAddedClasses_of_added someAdded noneKept]
    split
    · rename_i none'
      rw [none']
      exact ⟨rfl, by simp [isSwept]⟩
    · rename_i asks
      refine ⟨rfl, iff_of_true ?_ asks⟩
      exact isSwept_questions plan asks (fun q mem => (List.mem_filter.mp mem).1) []

/-- A remedy without classes is dropped beside any added class. -/
theorem derive_of_no_class {r : Remedy}
    (directed : remedyAsDirected d dominantElement inScope = some r) (classless : r.niceClasses = [])
    (added : (addedClassBound plan).addedClasses ≠ []) :
    deriveDirectiveRemedy d dominantElement inScope (addedClassBound plan) = none := by
  have someAdded : trimmedTexts (addedClassBound plan).addedClasses ≠ [] := by
    rwa [trimmedTexts_addedClasses]
  have asksNone : questionsIn (addedClassBound plan).addedClassQuestions r.niceClasses = [] := by
    simp [questionsIn, classless]
  unfold deriveDirectiveRemedy
  rw [directed, boundAddedClasses_of_added someAdded (by simp [classless]), if_pos asksNone]

theorem predicates_ne_nil : d.predicates ≠ [] := by
  unfold Directive.predicates
  split <;> simp

/-- The question of a remedy is kept: bounded, it proposes what it proposed before in those of its
classes that no frame added, and one without classes stands. -/
structure KeepsQuestion : Prop where
  asks : ∀ r, remedyAsDirected d dominantElement inScope = some r →
    remedyProposals (deriveDirectiveRemedy d dominantElement inScope (addedClassBound plan)) d =
      (remedyProposals (some r) d).map (Proposal.without (addedClassBound plan).addedClasses)
  stands : ∀ r, remedyAsDirected d dominantElement inScope = some r → r.niceClasses = [] →
    deriveDirectiveRemedy d dominantElement inScope (addedClassBound plan) = some r

/-- The plan adds no class, or the remedy names a class no frame added, or there is nothing to ask:
it names added classes and no term, and the plan asks nothing in them. -/
def NamesOwnClass : Prop :=
  ∀ r, remedyAsDirected d dominantElement inScope = some r →
    (addedClassBound plan).addedClasses = [] ∨
      (∃ c ∈ r.niceClasses, c ∉ (addedClassBound plan).addedClasses) ∨
      (r.niceClasses ≠ [] ∧ r.terms = [] ∧
        questionsIn (addedClassBound plan).addedClassQuestions r.niceClasses = [])

variable {plan d dominantElement inScope}

/-- In added classes only, the plan's questions are the remedy's where there are none of either. -/
theorem questions_eq_narrowed_iff {r : Remedy}
    (directed : remedyAsDirected d dominantElement inScope = some r)
    (only : ∀ c ∈ r.niceClasses, c ∈ (addedClassBound plan).addedClasses) :
    (questionsIn (addedClassBound plan).addedClassQuestions r.niceClasses).map
        (AddedClassQuestion.proposal d.rationale) =
      (remedyProposals (some r) d).map (Proposal.without (addedClassBound plan).addedClasses) ↔
    r.terms = [] ∧ questionsIn (addedClassBound plan).addedClassQuestions r.niceClasses = [] := by
  have own := questions_of_directed directed
  have noneKept : r.niceClasses.filter (· ∉ (addedClassBound plan).addedClasses) = [] :=
    List.filter_eq_nil_iff.mpr fun c mem => by simpa using only c mem
  constructor
  · intro same
    have asksNone : questionsIn (addedClassBound plan).addedClassQuestions r.niceClasses = [] := by
      refine List.eq_nil_iff_forall_not_mem.mpr fun q mem => ?_
      have proposed : q.proposal d.rationale ∈ (remedyProposals (some r) d).map
          (Proposal.without (addedClassBound plan).addedClasses) :=
        same ▸ List.mem_map_of_mem mem
      rw [← remedyProposals_narrowed own, noneKept] at proposed
      -- the remedy has no class left, and a question of the plan has one
      have classless : q.niceClasses = [] := by
        simp only [remedyProposals, own, List.mem_flatMap, List.mem_map] at proposed
        obtain ⟨t, -, p, -, is⟩ := proposed
        exact (congrArg Proposal.niceClasses is).symm
      exact (question_term_ne_empty plan (List.mem_filter.mp mem).1).2 classless
    refine ⟨?_, asksNone⟩
    rw [asksNone, List.map_nil, eq_comm, List.map_eq_nil_iff] at same
    simp only [remedyProposals, own, List.flatMap_eq_nil_iff, List.map_eq_nil_iff] at same
    exact List.eq_nil_iff_forall_not_mem.mpr fun t mem => predicates_ne_nil d (same t mem)
  · rintro ⟨termless, asksNone⟩
    rw [asksNone]
    simp [remedyProposals, own, termless]

variable (plan d dominantElement inScope)

end Kept

/-- The identical question in an added class. -/
def acmeQuestion : FrozenEntry where
  addedClassReason := some "the client sells online"
  predicate := some .exact
  term := some "ACME"
  niceClasses := ["35"]

/-- A directive whose remedy names these classes. -/
def novaDirective (niceClasses : List String) : Directive where
  layer := "variant"
  item := "NOVA"
  remedy := some { terms := ["NOVA"], niceClasses }

end Clearotron.Frame
