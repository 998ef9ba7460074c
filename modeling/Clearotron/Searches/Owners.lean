import Clearotron.Searches.Meant
import Clearotron.Searches.Request
import Mathlib.Algebra.BigOperators.Group.List.Basic

/-!
# An owner filter, sent

The owner terms of a caller are swept with what they resolve to, as far as the width of a request
goes. A term that does not fit is left out, and those behind it. What the other fields send is
counted before their apostrophes are expanded.
-/

namespace Clearotron

/-- Do two that satisfy `q` stand side by side? -/
def adjacentIn (q : Char → Bool) : List Char → Bool
  | a :: b :: s => (q a && q b) || adjacentIn q (b :: s)
  | _ => false

/-- What the register says it cannot search in the name of a party. -/
def notSearchable : List Char := "\"\x7b\x7d()¦#:;<>\x27!|%[]^~ÃÂ§²³¾".toList

section

variable (T : RequestText)

/-- What normalization does to a letter with a tilde or a circumflex: decomposed it has none, and
composed it comes of a letter and a mark behind it. -/
structure RequestText.Lawful : Prop where
  latin : T.isLatin 'A' = true
  canonical : ∀ s, 'Ã' ∉ (T.canonical s).toList ∧ 'Â' ∉ (T.canonical s).toList
  composed : ∀ s c, c = 'Ã' ∨ c = 'Â' → c ∈ (T.composed s).toList → c ∈ s.toList ∨
    ∃ front mark back, s.toList = front ++ 'A' :: mark :: back ∧ T.isCombining mark = true

/-- A name of a party as it is searched, before its apostrophes are expanded. -/
def searchedName (name : String) : String := Text.trim (sanitizeOwnerName T name)

/-- Two wildcards, or apostrophes to become one, stand side by side in a name. -/
def wildSideBySide (name : String) : Bool :=
  adjacentIn (fun c => isWildcard c || isApostrophe c) (searchedName T name).toList

/-- The values a name is sent as. -/
def sentSpellings (name : String) : List String :=
  (expandApostrophe (searchedName T name)).filter (· ≠ "")

/-- How many values a clause has, where it can be built. -/
def countOf (values : Except String (List String)) : Nat :=
  match values with
  | .ok values => (values.filter (· ≠ "")).length
  | .error _ => 0

variable {O : Type} (p : SearchParams O) (resolveCompany : String → Except String (List Company))

/-- The OR operands the other fields put on the wire. -/
def otherOperandsSent : Nat :=
  countOf (markOperands T p) + countOf (partyOperands T p.representativeTerm) +
    countOf (.ok (classOperands p.niceClasses)) +
    countOf (goodsOperands T p.goodsTextGaps (goodsTermsOf p))

/-- The owner names a request may be swept for: what they resolve to is among them. -/
def sweepable : List String :=
  if p.resolves then ownerNames T p resolveCompany else ownerTermsOf p

/-- Some owner names fit beside the rest of the request, as the expansion counts it. -/
def FitsBudget (names : List String) : Prop :=
  p.resolves = true → (names.map (ownerCost T)).sum ≤ ownerBudget p

/-- An owner filter that is sent as it was stated. -/
structure FilterKept (sent : SearchParams O) (request : BuiltRequest O) : Prop where
  swept : ∀ t ∈ ownerTermsOf p, t ∈ ownerTermsOf sent
  clause : ownerTermsOf p ≠ [] → ∃ f ∈ request.searchFields, f.name = ownerField ∧ f.operands ≠ []
  width : (request.searchFields.map fun f => f.operands.length).sum ≤ maxOrWidth
  searchable : ∀ f ∈ request.searchFields, f.name = ownerField ∨ f.name = representativeField →
    ∀ v ∈ f.operands, (∀ c ∈ v.toList, c ∉ notSearchable) ∧ adjacentIn isWildcard v.toList = false

/-- What of a request lets its owner filter be sent as stated. -/
structure FilterFits : Prop where
  /-- each caller's term has room, counted up to it -/
  own : ∀ t ∈ ownerTermsOf p, ∃ front back, ownerTermsOf p = front ++ t :: back ∧
    FitsBudget T p (front ++ [t])
  /-- the names there is room for leave room for what the other fields send -/
  width : ∀ front, front <+: sweepable T p resolveCompany → FitsBudget T p front →
    (front.flatMap (sentSpellings T)).length + otherOperandsSent T p ≤ maxOrWidth
  apart : ∀ front, front <+: sweepable T p resolveCompany → FitsBudget T p front →
    ∀ name ∈ front, wildSideBySide T name = false
  representative : ∀ name ∈ p.representativeTerm, wildSideBySide T name = false

end

section

variable {T : RequestText} {budget width : Nat} {names front : List String}

theorem sweep_starts (T : RequestText) (budget width : Nat) (names : List String) :
    sweep T budget width names <+: names := by
  induction names generalizing width with
  | nil => exact List.prefix_rfl
  | cons name names ih =>
    rw [sweep]
    split
    · exact List.nil_prefix
    · exact (List.prefix_cons_inj name).mpr (ih _)

/-- The sweep takes the names that fit, and those alone. -/
theorem prefix_sweep_iff (starts : front <+: names) (room : width ≤ budget) :
    front <+: sweep T budget width names ↔ width + (front.map (ownerCost T)).sum ≤ budget := by
  induction names generalizing width front with
  | nil =>
    obtain rfl := List.prefix_nil.mp starts
    simpa [sweep] using room
  | cons name names ih =>
    cases front with
    | nil => simpa using room
    | cons first front =>
      obtain ⟨rfl, later⟩ := List.cons_prefix_cons.mp starts
      rw [sweep, List.map_cons, List.sum_cons]
      split
      · rename_i tight
        simp only [List.prefix_nil, reduceCtorEq, false_iff]
        omega
      · rename_i fits
        rw [List.cons_prefix_cons, ih later (by omega)]
        simp only [true_and]
        omega

theorem trimmed_eq_self {l : List String} (clean : ∀ s ∈ l, Text.trim s = s ∧ s ≠ "") :
    trimmed l = l := by
  have same : l.map Text.trim = l := by
    rw [List.map_congr_left fun s mem => (clean s mem).1]
    exact List.map_id' l
  rw [trimmed, same]
  exact List.filter_eq_self.mpr fun s mem => by simpa using (clean s mem).2

theorem mem_trimmed {l : List String} {s : String} (mem : s ∈ trimmed l) :
    Text.trim s = s ∧ s ≠ "" := by
  obtain ⟨there, some'⟩ := List.mem_filter.mp mem
  obtain ⟨t, -, rfl⟩ := List.mem_map.mp there
  exact ⟨Text.trim_trim t, by simpa using some'⟩

/-- The caller's names stand first, and each name behind them is trimmed. -/
theorem mergeNames_spec (T : RequestText) (merged names : List String) :
    ∃ more, mergeNames T merged names = merged ++ more ∧ ∀ s ∈ more, Text.trim s = s ∧ s ≠ "" := by
  induction names generalizing merged with
  | nil => exact ⟨[], (List.append_nil _).symm, by simp⟩
  | cons given names ih =>
    rw [mergeNames]
    split
    · exact ih merged
    · rename_i some'
      split
      · exact ih merged
      · split
        · obtain ⟨more, whole, clean⟩ := ih (merged ++ [Text.trim given])
          refine ⟨Text.trim given :: more, by rw [whole]; simp, ?_⟩
          exact List.forall_mem_cons.mpr ⟨⟨Text.trim_trim _, some'⟩, clean⟩
        · exact ih merged

end

section

variable {T : RequestText} {O : Type} {p : SearchParams O}
  {resolveCompany : String → Except String (List Company)}

theorem ownerNames_clean : ∃ more, ownerNames T p resolveCompany = ownerTermsOf p ++ more ∧
    ∀ s ∈ ownerNames T p resolveCompany, Text.trim s = s ∧ s ≠ "" := by
  obtain ⟨more, whole, clean⟩ := mergeNames_spec T (ownerTermsOf p)
    ((resolvedCompanies p resolveCompany).map (·.applicantName))
  refine ⟨more, whole, fun s mem => ?_⟩
  rw [ownerNames, whole, List.mem_append] at mem
  obtain mem | mem := mem
  · exact mem_trimmed mem
  · exact clean s mem

/-- The params that are sent: the sweep, where there is one, and nothing else changed. -/
theorem resolveOwnerParamsOnce_fst : (resolveOwnerParamsOnce T p resolveCompany).1 =
    if p.resolves then
      { p with
        owners := sweep T (ownerBudget p) 0 (ownerNames T p resolveCompany)
        owner := none
        ownerResolution := some (expandOwnerTerms T p resolveCompany).2 }
    else p := by
  unfold resolveOwnerParamsOnce SearchParams.resolves
  cases noted : p.ownerResolution with
  | some note => simp
  | none =>
    cases wanted : p.resolveOwner with
    | false => simp
    | true =>
      by_cases none' : ownerTermsOf p = []
      · simp [none']
      · simp [none', expandOwnerTerms, wanted]

/-- The owner terms of params that were swept. -/
theorem swept_terms (note : Option OwnerNote) : ownerTermsOf { p with
    owners := sweep T (ownerBudget p) 0 (ownerNames T p resolveCompany)
    owner := none
    ownerResolution := note } = sweep T (ownerBudget p) 0 (ownerNames T p resolveCompany) := by
  obtain ⟨more, -, clean⟩ := @ownerNames_clean T O p resolveCompany
  rw [ownerTermsOf, Option.toList_none, List.append_nil]
  exact trimmed_eq_self fun s mem => clean s ((sweep_starts T _ _ _).subset mem)

/-- The owner terms that are sent are the names that fit. -/
theorem prefix_sent_iff {front : List String}
    (starts : front <+: sweepable T p resolveCompany) :
    front <+: ownerTermsOf (resolveOwnerParamsOnce T p resolveCompany).1 ↔
      FitsBudget T p front := by
  rw [resolveOwnerParamsOnce_fst]
  unfold FitsBudget
  unfold sweepable at starts
  split at starts
  · rename_i resolves
    rw [if_pos resolves, swept_terms, prefix_sweep_iff starts (Nat.zero_le _), Nat.zero_add]
    simp [resolves]
  · rename_i asStated
    rw [if_neg asStated]
    simp [asStated, starts]

theorem sent_starts : ownerTermsOf (resolveOwnerParamsOnce T p resolveCompany).1 <+:
    sweepable T p resolveCompany := by
  rw [resolveOwnerParamsOnce_fst, sweepable]
  split
  · rw [swept_terms]
    exact sweep_starts T _ _ _
  · exact List.prefix_rfl

end

section

variable {T : RequestText}

/-- Behind a Latin letter no mark is left. -/
theorem stripLatinMarks_chain (behindLatin : Bool) (s : List Char) :
    (behindLatin = true → ∀ c ∈ (stripLatinMarks T behindLatin s).head?, T.isCombining c = false) ∧
      (stripLatinMarks T behindLatin s).IsChain
        fun a mark => T.isLatin a = true → T.isCombining mark = false := by
  induction s generalizing behindLatin with
  | nil => exact ⟨fun _ c mem => (by cases mem), .nil⟩
  | cons c s ih =>
    rw [stripLatinMarks]
    split
    · rename_i both
      obtain rfl : behindLatin = true := (Bool.and_eq_true _ _ ▸ both).1
      exact ih true
    · rename_i kept
      obtain ⟨head, tail⟩ := ih (T.isLatin c)
      refine ⟨fun behind d is => ?_, List.isChain_cons.mpr ⟨fun d mem latin => ?_, tail⟩⟩
      · obtain rfl := Option.some.inj is
        simpa [behind] using kept
      · exact head latin d mem

theorem mem_stripLatinMarks {behindLatin : Bool} {s : List Char} {c : Char}
    (mem : c ∈ stripLatinMarks T behindLatin s) : c ∈ s := by
  induction s generalizing behindLatin with
  | nil => cases mem
  | cons d s ih =>
    rw [stripLatinMarks] at mem
    split at mem
    · exact List.mem_cons_of_mem _ (ih mem)
    · obtain rfl | mem := List.mem_cons.mp mem
      · exact List.mem_cons_self
      · exact List.mem_cons_of_mem _ (ih mem)

/-- A folded name has no letter the register refuses. -/
theorem not_mem_fold (lawful : T.Lawful) (name : String) {c : Char} (accented : c = 'Ã' ∨ c = 'Â') :
    c ∉ (foldLatinDiacritics T name).toList := by
  intro mem
  obtain own | ⟨front, mark, back, split, combining⟩ := lawful.composed _ c accented mem
  · have there := mem_stripLatinMarks (String.toList_ofList ▸ own)
    obtain rfl | rfl := accented
    · exact (lawful.canonical name).1 there
    · exact (lawful.canonical name).2 there
  · rw [String.toList_ofList] at split
    have chain := (stripLatinMarks_chain (T := T) false (T.canonical name).toList).2
    rw [split, List.isChain_append] at chain
    have clear := (List.isChain_cons_cons.mp chain.2.1).1 lawful.latin
    rw [combining] at clear
    cases clear

theorem mem_squeeze {l : List Char} {c : Char} (mem : c ∈ Text.squeeze l) : c = ' ' ∨ c ∈ l := by
  fun_induction Text.squeeze l with
  | case1 => cases mem
  | case2 d rest space more ih => exact (ih mem).imp_right (List.mem_cons_of_mem _)
  | case3 d rest space last ih =>
    obtain rfl | mem := List.mem_cons.mp mem
    · exact .inl rfl
    · exact (ih mem).imp_right (List.mem_cons_of_mem _)
  | case4 d rest solid ih =>
    obtain rfl | mem := List.mem_cons.mp mem
    · exact .inr List.mem_cons_self
    · exact (ih mem).imp_right (List.mem_cons_of_mem _)

/-- A searched name has nothing in it that cannot be searched but its apostrophes. -/
theorem mem_searchedName (lawful : T.Lawful) {name : String} {c : Char}
    (mem : c ∈ (searchedName T name).toList) : c ∉ notSearchable ∨ c = '\x27' := by
  have folded : ∀ d ∈ (foldLatinDiacritics T name).toList.map (fun c =>
      if c = '²' then '2' else if c = '³' then '3' else c),
      d ∉ ['²', '³', 'Ã', 'Â'] := by
    intro d mem
    obtain ⟨e, there, rfl⟩ := List.mem_map.mp mem
    have noTilde := fun is => not_mem_fold lawful name (c := e) (.inl is) there
    have noHat := fun is => not_mem_fold lawful name (c := e) (.inr is) there
    split
    · decide
    · split
      · decide
      · simp_all
  have clean : isUnsearchable c = false ∧ c ∉ ['²', '³', 'Ã', 'Â'] := by
    have sanitized := mem_trim mem
    unfold sanitizeOwnerName at sanitized
    dsimp only at sanitized
    split at sanitized
    · rw [Text.tidy, Text.collapseSpaces] at sanitized
      have inText := mem_trim sanitized
      rw [String.toList_ofList, String.toList_ofList] at inText
      obtain rfl | inText := mem_squeeze inText
      · decide
      · obtain ⟨d, there, rfl⟩ := List.mem_map.mp inText
        split
        · decide
        · rename_i searchable
          exact ⟨by simpa using searchable, folded d there⟩
    · rename_i none'
      rw [String.toList_ofList] at sanitized
      refine ⟨?_, folded c sanitized⟩
      by_contra bad
      exact none' (List.any_eq_true.mpr ⟨c, sanitized, by simpa using bad⟩)
  have all : notSearchable.all (fun c =>
      isUnsearchable c || c ∈ ['²', '³', 'Ã', 'Â'] || c = '\x27') = true := by decide
  by_cases bad : c ∈ notSearchable
  · have kind := List.all_eq_true.mp all c bad
    simp only [Bool.or_eq_true, decide_eq_true_eq] at kind
    obtain (bad | bad) | is := kind
    · rw [clean.1] at bad
      cases bad
    · exact absurd bad clean.2
    · exact .inr is
  · exact .inl bad

theorem adjacentIn_cons {q : Char → Bool} {a : Char} {s : List Char} :
    adjacentIn q (a :: s) = false ↔
      (q a = true → ∀ b ∈ s.head?, q b = false) ∧ adjacentIn q s = false := by
  cases s with
  | nil => simp [adjacentIn]
  | cons b s =>
    rw [adjacentIn]
    simp only [Bool.or_eq_false_iff, Bool.and_eq_false_iff, List.head?_cons, Option.mem_def,
      Option.some.injEq, forall_eq']
    cases q a <;> simp

/-- An apostrophe as a wildcard stands beside another where it stood beside one. -/
theorem adjacentIn_wild (s : List Char) :
    adjacentIn isWildcard (s.map fun c => if isApostrophe c then '?' else c) =
      adjacentIn (fun c => isWildcard c || isApostrophe c) s := by
  have each (c : Char) : isWildcard (if isApostrophe c then '?' else c) =
      (isWildcard c || isApostrophe c) := by
    cases apostrophe : isApostrophe c
    · simp
    · simp [isWildcard]
  induction s with
  | nil => rfl
  | cons a s ih =>
    cases s with
    | nil => rfl
    | cons b s =>
      rw [List.map_cons, List.map_cons, adjacentIn, adjacentIn, each, each, ← ih, List.map_cons]

/-- Without its apostrophes a name has no wildcards side by side that had not one between. -/
theorem adjacentIn_stripped {s : List Char}
    (apart : adjacentIn (fun c => isWildcard c || isApostrophe c) s = false) :
    adjacentIn isWildcard (s.filter fun c => !isApostrophe c) = false := by
  induction s with
  | nil => rfl
  | cons a s ih =>
    obtain ⟨head, tail⟩ := adjacentIn_cons.mp apart
    cases apostrophe : isApostrophe a with
    | true =>
      rw [List.filter_cons_of_neg (by simp [apostrophe])]
      exact ih tail
    | false =>
      rw [List.filter_cons_of_pos (by simp [apostrophe])]
      refine adjacentIn_cons.mpr ⟨fun wild b is => ?_, ih tail⟩
      cases s with
      | nil => cases is
      | cons d s =>
        have none' := head (by simp [wild]) d rfl
        simp only [Bool.or_eq_false_iff] at none'
        rw [List.filter_cons_of_pos (by simp [none'.2])] at is
        obtain rfl := Option.some.inj is
        exact none'.1

theorem assertSearchableTerm_ok {P : PhraseLetters} {term safe : String}
    {wild parens reserved : Bool} (ok : assertSearchableTerm P term wild parens reserved = .ok safe) :
    safe = Text.trim term ∧ safe ≠ "" := by
  unfold assertSearchableTerm at ok
  dsimp only at ok
  split_ifs at ok with empty
  have same := Except.ok.inj ok
  exact ⟨same.symm, same ▸ empty⟩

/-- The values of some names are their spellings, each of a name that is not empty. -/
theorem partyOperands_ok {names values : List String} (ok : partyOperands T names = .ok values) :
    values.filter (· ≠ "") = names.flatMap (sentSpellings T) ∧
      ∀ name ∈ names, searchedName T name ≠ "" := by
  induction names generalizing values with
  | nil =>
    obtain rfl := Except.ok.inj ok
    exact ⟨rfl, by simp⟩
  | cons name names ih =>
    rw [partyOperands] at ok
    cases safe : assertSearchableTerm T.phrases (sanitizeOwnerName T name) true false false with
    | error why => rw [safe] at ok; cases ok
    | ok searched =>
      rw [safe] at ok
      cases others : partyOperands T names with
      | error why => rw [others] at ok; cases ok
      | ok rest =>
        rw [others] at ok
        obtain rfl := Except.ok.inj ok
        obtain ⟨rfl, some'⟩ := assertSearchableTerm_ok safe
        obtain ⟨spelled, named⟩ := ih others
        exact ⟨by rw [List.filter_append, spelled]; rfl, List.forall_mem_cons.mpr ⟨some', named⟩⟩

/-- The spellings of a name can be searched exactly where none has wildcards side by side. -/
theorem spellings_searchable_iff (lawful : T.Lawful) {name : String}
    (named : searchedName T name ≠ "") :
    (∀ v ∈ sentSpellings T name, (∀ c ∈ v.toList, c ∉ notSearchable) ∧
      adjacentIn isWildcard v.toList = false) ↔ wildSideBySide T name = false := by
  have noMark : '?' ∉ notSearchable := by decide
  have clear {c : Char} (mem : c ∈ (searchedName T name).toList) (plain : isApostrophe c = false) :
      c ∉ notSearchable := by
    obtain clear | rfl := mem_searchedName lawful mem
    · exact clear
    · cases plain
  unfold sentSpellings expandApostrophe wildSideBySide
  dsimp only
  split
  · rename_i apostrophes
    have longer : (searchedName T name).toList.map (fun c => if isApostrophe c then '?' else c) ≠
        (searchedName T name).toList.filter fun c => !isApostrophe c := by
      intro same
      obtain ⟨c, mem, apostrophe⟩ := List.any_eq_true.mp apostrophes
      have lengths := congrArg List.length same
      rw [List.length_map] at lengths
      have all := List.length_filter_eq_length_iff.mp lengths.symm c mem
      rw [apostrophe] at all
      cases all
    rw [if_neg longer]
    have wildForm : String.ofList ((searchedName T name).toList.map fun c =>
        if isApostrophe c then '?' else c) ≠ "" := by
      intro empty
      have none' := congrArg String.toList empty
      rw [String.toList_ofList, String.toList_empty, List.map_eq_nil_iff] at none'
      exact named (String.toList_inj.mp none')
    constructor
    · intro all
      have own := (all _ (List.mem_filter.mpr ⟨List.mem_cons_self, by simpa using wildForm⟩)).2
      rwa [String.toList_ofList, adjacentIn_wild] at own
    · intro apart v mem
      have isForm := (List.mem_filter.mp mem).1
      simp only [List.mem_cons, List.not_mem_nil, or_false] at isForm
      obtain rfl | rfl := isForm
      · rw [String.toList_ofList, adjacentIn_wild]
        refine ⟨fun c mem => ?_, apart⟩
        obtain ⟨d, there, rfl⟩ := List.mem_map.mp mem
        split
        · exact noMark
        · rename_i plain
          exact clear there (Bool.eq_false_iff.mpr plain)
      · rw [String.toList_ofList]
        refine ⟨fun c mem => ?_, adjacentIn_stripped apart⟩
        obtain ⟨there, plain⟩ := List.mem_filter.mp mem
        exact clear there (by simpa using plain)
  · rename_i none'
    have plain : ∀ c ∈ (searchedName T name).toList, isApostrophe c = false := by
      simpa using none'
    have same : adjacentIn (fun c => isWildcard c || isApostrophe c) (searchedName T name).toList =
        adjacentIn isWildcard (searchedName T name).toList := by
      have unchanged : (searchedName T name).toList.map
          (fun c => if isApostrophe c then '?' else c) = (searchedName T name).toList := by
        conv_rhs => rw [← List.map_id (searchedName T name).toList]
        exact List.map_congr_left fun c mem => by rw [plain c mem]; rfl
      rw [← adjacentIn_wild, unchanged]
    rw [same]
    constructor
    · intro all
      have own : searchedName T name ∈ [searchedName T name].filter (· ≠ "") := by simpa using named
      exact (all (searchedName T name) own).2
    · intro apart v mem
      obtain rfl := List.mem_singleton.mp (List.mem_filter.mp mem).1
      exact ⟨fun c mem => clear mem (plain c mem), apart⟩

end

section

variable {T : RequestText} {O : Type} {p : SearchParams O}

theorem orField_ok {name : String} {values : List String} {fields : List OrField}
    (ok : orField name values = .ok fields) :
    fields = [{ name, operands := values.filter (· ≠ "") }] := by
  unfold orField at ok
  dsimp only at ok
  split_ifs at ok
  exact (Except.ok.inj ok).symm

/-- What a clause of a request is: its values under its name, or nothing of no values. -/
structure IsClause (name : String) (values : List String) (fields : List OrField) : Prop where
  field : ∀ f ∈ fields, f.name = name ∧ f.operands = values.filter (· ≠ "")
  whole : values.filter (· ≠ "") ≠ [] → fields = [{ name, operands := values.filter (· ≠ "") }]
  width : (fields.map fun f => f.operands.length).sum = (values.filter (· ≠ "")).length

theorem IsClause.of_field {name : String} {values : List String} {fields : List OrField}
    (ok : orField name values = .ok fields) : IsClause name values fields := by
  obtain rfl := orField_ok ok
  exact ⟨by simp, fun _ => rfl, by simp⟩

theorem IsClause.nil (name : String) : IsClause name [] [] :=
  ⟨by simp, fun some' => absurd rfl some', rfl⟩

/-- The clauses of a request. -/
structure ClausesOf (T : RequestText) (p : SearchParams O) (fields : List OrField) where
  mode : MatchMode
  marks : List String
  owners : List String
  representatives : List String
  goods : List String
  markFields : List OrField
  ownerFields : List OrField
  representativeFields : List OrField
  classFields : List OrField
  goodsFields : List OrField
  whole : fields = markFields ++ ownerFields ++ representativeFields ++ classFields ++ goodsFields
  marksOk : markOperands T p = .ok marks
  ownersOk : partyOperands T (ownerTermsOf p) = .ok owners
  representativesOk : partyOperands T p.representativeTerm = .ok representatives
  goodsOk : goodsOperands T p.goodsTextGaps (goodsTermsOf p) = .ok goods
  isMark : IsClause mode.field.name marks markFields
  isOwner : IsClause ownerField owners ownerFields
  isRepresentative : IsClause representativeField representatives representativeFields
  isClass : IsClause classField (classOperands p.niceClasses) classFields
  isGoods : IsClause goodsField goods goodsFields

theorem markClause_ok {fields : List OrField} (ok : markClause T p = .ok fields) :
    ∃ mode values, markOperands T p = .ok values ∧
      IsClause (MatchMode.field mode).name values fields := by
  unfold markClause at ok
  cases named : matchModeOf p.matchMode with
  | error why => rw [named] at ok; cases ok
  | ok mode =>
    rw [named] at ok
    cases marks : markOperands T p with
    | error why => rw [marks] at ok; cases ok
    | ok values =>
      rw [marks] at ok
      refine ⟨mode, values, rfl, ?_⟩
      change (if markTermsOf p = [] then Except.ok [] else orField mode.field.name values) =
        .ok fields at ok
      split_ifs at ok with none'
      · obtain rfl := Except.ok.inj ok
        rw [markOperands, named] at marks
        change (markTermsOf p).mapM (markOperand T mode) = .ok values at marks
        rw [none'] at marks
        obtain rfl := Except.ok.inj marks
        exact .nil _
      · exact .of_field ok

/-- The clause of the name of a party. -/
theorem partyClause_ok {names : List String} {field : String} {fields : List OrField}
    (ok : (do
      let values ← partyOperands T names
      if names = [] then .ok [] else orField field values : Except String (List OrField)) =
        .ok fields) :
    ∃ values, partyOperands T names = .ok values ∧ IsClause field values fields := by
  cases spelled : partyOperands T names with
  | error why => rw [spelled] at ok; cases ok
  | ok values =>
    rw [spelled] at ok
    refine ⟨values, rfl, ?_⟩
    change (if names = [] then Except.ok [] else orField field values) = .ok fields at ok
    split_ifs at ok with none'
    · obtain rfl := Except.ok.inj ok
      rw [none'] at spelled
      obtain rfl := Except.ok.inj spelled
      exact .nil _
    · exact .of_field ok

theorem classClause_ok {fields : List OrField} (ok : classClause p = .ok fields) :
    IsClause classField (classOperands p.niceClasses) fields := by
  unfold classClause at ok
  split_ifs at ok with none'
  · obtain rfl := Except.ok.inj ok
    rw [none']
    exact .nil _
  · exact .of_field ok

theorem goodsClause_ok {fields : List OrField} (ok : goodsClause T p = .ok fields) :
    ∃ values, goodsOperands T p.goodsTextGaps (goodsTermsOf p) = .ok values ∧
      IsClause goodsField values fields := by
  unfold goodsClause at ok
  split_ifs at ok
  generalize goodsOperands T p.goodsTextGaps (goodsTermsOf p) = outcome at ok ⊢
  cases outcome with
  | error why => cases ok
  | ok values =>
    refine ⟨values, rfl, ?_⟩
    dsimp only [bind, Except.bind] at ok
    split_ifs at ok with none'
    · obtain rfl := Except.ok.inj ok
      rw [none']
      exact .nil _
    · exact .of_field ok

theorem buildSearchRequest_ok {request : BuiltRequest O}
    (ok : buildSearchRequest T p = .ok request) : Nonempty (ClausesOf T p request.searchFields) := by
  unfold buildSearchRequest at ok
  generalize matchModeOf p.matchMode = named at ok
  cases named with
  | error why => cases ok
  | ok mode =>
    dsimp only [bind, Except.bind] at ok
    split_ifs at ok
    generalize isMark : markClause T p = mark at ok
    generalize isOwner : ownerClause T p = owner at ok
    generalize isRepresentative : representativeClause T p = representative at ok
    generalize isClass : classClause p = classes at ok
    generalize isGoods : goodsClause T p = goods at ok
    cases mark with
    | error why => cases ok
    | ok markFields =>
      cases owner with
      | error why => cases ok
      | ok ownerFields =>
        cases representative with
        | error why => cases ok
        | ok representativeFields =>
          cases classes with
          | error why => cases ok
          | ok classFields =>
            cases goods with
            | error why => cases ok
            | ok goodsFields =>
              obtain rfl := Except.ok.inj ok
              obtain ⟨mode, marks, marksOk, mark⟩ := markClause_ok isMark
              obtain ⟨owners, ownersOk, owner⟩ := partyClause_ok isOwner
              obtain ⟨representatives, representativesOk, representative⟩ :=
                partyClause_ok isRepresentative
              obtain ⟨goods, goodsOk, isGoods⟩ := goodsClause_ok isGoods
              exact ⟨⟨mode, marks, owners, representatives, goods, markFields, ownerFields,
                representativeFields, classFields, goodsFields, rfl, marksOk, ownersOk,
                representativesOk, goodsOk, mark, owner, representative, classClause_ok isClass,
                isGoods⟩⟩

namespace ClausesOf

variable {fields : List OrField}

/-- The operands of a request: those of its owner names, and those of the other fields. -/
theorem width (clauses : ClausesOf T p fields) : (fields.map fun f => f.operands.length).sum =
    ((ownerTermsOf p).flatMap (sentSpellings T)).length + otherOperandsSent T p := by
  have owners := (partyOperands_ok clauses.ownersOk).1
  rw [clauses.whole]
  simp only [List.map_append, List.sum_append]
  rw [clauses.isMark.width, clauses.isOwner.width, clauses.isRepresentative.width,
    clauses.isClass.width, clauses.isGoods.width, owners, otherOperandsSent, clauses.marksOk,
    clauses.representativesOk, clauses.goodsOk]
  simp only [countOf]
  omega

/-- The fields under the name of a party are of its names. -/
theorem party (clauses : ClausesOf T p fields) {f : OrField} (mem : f ∈ fields)
    (party : f.name = ownerField ∨ f.name = representativeField) :
    ∃ names ∈ [ownerTermsOf p, p.representativeTerm], f.operands = names.flatMap (sentSpellings T) ∧
      ∀ name ∈ names, searchedName T name ≠ "" := by
  have owners := partyOperands_ok clauses.ownersOk
  have representatives := partyOperands_ok clauses.representativesOk
  have modes : ∀ mode : MatchMode, mode.field.name ≠ ownerField ∧
      mode.field.name ≠ representativeField := by
    intro mode
    cases mode <;> decide
  rw [clauses.whole] at mem
  simp only [List.mem_append] at mem
  obtain (((mem | mem) | mem) | mem) | mem := mem
  · rw [(clauses.isMark.field f mem).1] at party
    obtain is | is := party
    · exact absurd is (modes _).1
    · exact absurd is (modes _).2
  · exact ⟨_, List.mem_cons_self, (clauses.isOwner.field f mem).2.trans owners.1, owners.2⟩
  · exact ⟨_, by simp, (clauses.isRepresentative.field f mem).2.trans representatives.1,
      representatives.2⟩
  · rw [(clauses.isClass.field f mem).1] at party
    exact absurd party (by decide)
  · rw [(clauses.isGoods.field f mem).1] at party
    exact absurd party (by decide)

/-- A name that is not empty has a spelling. -/
theorem spellings_ne_nil {name : String} (named : searchedName T name ≠ "") :
    sentSpellings T name ≠ [] := by
  unfold sentSpellings expandApostrophe
  dsimp only
  have wildForm : String.ofList ((searchedName T name).toList.map fun c =>
      if isApostrophe c then '?' else c) ≠ "" := by
    intro empty
    have none' := congrArg String.toList empty
    rw [String.toList_ofList, String.toList_empty, List.map_eq_nil_iff] at none'
    exact named (String.toList_inj.mp none')
  split
  · split
    · simp [wildForm]
    · simp [wildForm]
  · simp [named]

theorem owner_operands (clauses : ClausesOf T p fields) {name : String}
    (mem : name ∈ ownerTermsOf p) : ∃ f ∈ fields, f.name = ownerField ∧
      f.operands = (ownerTermsOf p).flatMap (sentSpellings T) ∧ f.operands ≠ [] := by
  obtain ⟨spelled, named⟩ := partyOperands_ok clauses.ownersOk
  have some' : clauses.owners.filter (· ≠ "") ≠ [] := by
    rw [spelled]
    intro empty
    exact spellings_ne_nil (named name mem) (List.flatMap_eq_nil_iff.mp empty name mem)
  have isField := clauses.isOwner.whole some'
  refine ⟨{ name := ownerField, operands := clauses.owners.filter (· ≠ "") },
    ?_, rfl, spelled, some'⟩
  refine (congrArg (_ ∈ ·) clauses.whole).mpr ?_
  rw [isField]
  simp

theorem representative_operands (clauses : ClausesOf T p fields) {name : String}
    (mem : name ∈ p.representativeTerm) : ∃ f ∈ fields, f.name = representativeField ∧
      f.operands = p.representativeTerm.flatMap (sentSpellings T) := by
  obtain ⟨spelled, named⟩ := partyOperands_ok clauses.representativesOk
  have some' : clauses.representatives.filter (· ≠ "") ≠ [] := by
    rw [spelled]
    intro empty
    exact spellings_ne_nil (named name mem) (List.flatMap_eq_nil_iff.mp empty name mem)
  have isField := clauses.isRepresentative.whole some'
  refine ⟨{ name := representativeField, operands := clauses.representatives.filter (· ≠ "") },
    ?_, rfl, spelled⟩
  refine (congrArg (_ ∈ ·) clauses.whole).mpr ?_
  rw [isField]
  simp

end ClausesOf

section

variable {resolveCompany : String → Except String (List Company)} {request : BuiltRequest O}

theorem stated_starts : ownerTermsOf p <+: sweepable T p resolveCompany := by
  rw [sweepable]
  split
  · obtain ⟨more, whole, -⟩ := @ownerNames_clean T O p resolveCompany
    exact whole ▸ List.prefix_append _ _
  · exact List.prefix_rfl

/-- Resolving the owners changes nothing else of a request. -/
theorem sent_others : (resolveOwnerParamsOnce T p resolveCompany).1.representativeTerm =
      p.representativeTerm ∧
    otherOperandsSent T (resolveOwnerParamsOnce T p resolveCompany).1 = otherOperandsSent T p := by
  rw [resolveOwnerParamsOnce_fst]
  split <;> exact ⟨rfl, rfl⟩

/-- A caller's term is sent exactly where there is room for the terms up to it. -/
theorem mem_sent_iff {t : String} (stated : t ∈ ownerTermsOf p) :
    t ∈ ownerTermsOf (resolveOwnerParamsOnce T p resolveCompany).1 ↔
      ∃ front back, ownerTermsOf p = front ++ t :: back ∧ FitsBudget T p (front ++ [t]) := by
  have split (l : List String) (front back : List String) (whole : l = front ++ t :: back) :
      front ++ [t] <+: l := ⟨back, by rw [whole]; simp⟩
  constructor
  · intro sent
    obtain shorter | longer := List.prefix_or_prefix_of_prefix
      (@sent_starts T O p resolveCompany) stated_starts
    · obtain ⟨front, back, whole⟩ := List.append_of_mem sent
      obtain ⟨rest, isRest⟩ := shorter
      refine ⟨front, back ++ rest, by rw [← isRest, whole]; simp, ?_⟩
      have starts := split _ front back whole
      exact (prefix_sent_iff (starts.trans sent_starts)).mp starts
    · obtain ⟨front, back, whole⟩ := List.append_of_mem stated
      refine ⟨front, back, whole, ?_⟩
      have starts := (split _ front back whole).trans longer
      exact (prefix_sent_iff (starts.trans sent_starts)).mp starts
  · rintro ⟨front, back, whole, fits⟩
    have starts := (split _ front back whole).trans
      (@stated_starts T O p resolveCompany)
    exact ((prefix_sent_iff starts).mpr fits).subset (by simp)

/-- A request that is sent keeps the owner filter of its caller exactly where each stated term
has room as the expansion counts it, the names there is room for have it beside what the other
fields send, and no two wildcards stand side by side in the name of a party. -/
theorem owner_filter_kept (lawful : T.Lawful)
    (ok : buildSearchRequest T (resolveOwnerParamsOnce T p resolveCompany).1 = .ok request) :
    FilterKept p (resolveOwnerParamsOnce T p resolveCompany).1 request ↔
      FilterFits T p resolveCompany := by
  obtain ⟨clauses⟩ := buildSearchRequest_ok ok
  obtain ⟨representative, others⟩ := @sent_others T O p resolveCompany
  have sentFits : FitsBudget T p (ownerTermsOf (resolveOwnerParamsOnce T p resolveCompany).1) :=
    (prefix_sent_iff sent_starts).mp List.prefix_rfl
  have ownersNamed := (partyOperands_ok clauses.ownersOk).2
  have representativesNamed := (partyOperands_ok clauses.representativesOk).2
  constructor
  · intro kept
    refine ⟨fun t stated => (mem_sent_iff stated).mp (kept.swept t stated),
      fun front starts fits => ?_, fun front starts fits name mem => ?_, fun name mem => ?_⟩
    · obtain ⟨rest, whole⟩ := (prefix_sent_iff starts).mpr fits
      have total := kept.width
      rw [clauses.width, others, ← whole, List.flatMap_append, List.length_append] at total
      omega
    · have there := ((prefix_sent_iff starts).mpr fits).subset mem
      obtain ⟨f, isField, named, operands, -⟩ := clauses.owner_operands there
      refine (spellings_searchable_iff lawful (ownersNamed name there)).mp fun v spelled => ?_
      exact kept.searchable f isField (.inl named) v
        (operands ▸ List.mem_flatMap.mpr ⟨name, there, spelled⟩)
    · rw [← representative] at mem
      obtain ⟨f, isField, named, operands⟩ := clauses.representative_operands mem
      have named' := representativesNamed name mem
      refine (spellings_searchable_iff lawful named').mp fun v spelled => ?_
      exact kept.searchable f isField (.inr named) v
        (operands ▸ List.mem_flatMap.mpr ⟨name, mem, spelled⟩)
  · intro fits
    have swept : ∀ t ∈ ownerTermsOf p,
        t ∈ ownerTermsOf (resolveOwnerParamsOnce T p resolveCompany).1 :=
      fun t stated => (mem_sent_iff stated).mpr (fits.own t stated)
    refine ⟨swept, fun stated => ?_, ?_, fun f isField party v mem => ?_⟩
    · obtain ⟨t, there⟩ := List.exists_mem_of_ne_nil _ stated
      obtain ⟨f, isField, named, -, some'⟩ := clauses.owner_operands (swept t there)
      exact ⟨f, isField, named, some'⟩
    · rw [clauses.width, others]
      exact fits.width _ sent_starts sentFits
    · obtain ⟨names, which, operands, named⟩ := clauses.party isField party
      obtain ⟨name, there, spelled⟩ := List.mem_flatMap.mp (operands ▸ mem)
      have apart : wildSideBySide T name = false := by
        simp only [List.mem_cons, List.not_mem_nil, or_false] at which
        obtain rfl | rfl := which
        · exact fits.apart _ sent_starts sentFits name there
        · exact fits.representative name (representative ▸ there)
      exact (spellings_searchable_iff lawful (named name there)).mpr apart v spelled

end

/-- A runtime that takes a tilde and a circumflex off their letter, and one office. -/
def plainRequestText : RequestText where
  toPlanText := { plainPlanText with
    canonical := fun s => String.ofList (s.toList.flatMap fun c =>
      if c = 'Ã' then ['A', '\u0303'] else if c = 'Â' then ['A', '\u0302'] else [c])
    isCombining := fun c => c = '\u0302' || c = '\u0303' }
  fold := Char.toLower
  translate := some
  covered := fun c => c = "US"

theorem plainRequestText_lawful : plainRequestText.Lawful where
  latin := rfl
  canonical s := by
    have each : ∀ c : Char, ∀ d ∈ (if c = 'Ã' then ['A', '\u0303']
        else if c = 'Â' then ['A', '\u0302'] else [c]), d ≠ 'Ã' ∧ d ≠ 'Â' := by
      intro c d mem
      split at mem
      · have parts : ['A', '\u0303'].all (fun d => d ≠ 'Ã' && d ≠ 'Â') = true := by decide
        simpa using List.all_eq_true.mp parts d mem
      · split at mem
        · have parts : ['A', '\u0302'].all (fun d => d ≠ 'Ã' && d ≠ 'Â') = true := by decide
          simpa using List.all_eq_true.mp parts d mem
        · obtain rfl := List.mem_singleton.mp mem
          exact ⟨‹_›, ‹_›⟩
    have text : (plainRequestText.canonical s).toList = s.toList.flatMap fun c =>
        if c = 'Ã' then ['A', '\u0303'] else if c = 'Â' then ['A', '\u0302'] else [c] :=
      String.toList_ofList
    rw [text]
    constructor <;>
    · intro mem
      obtain ⟨c, -, there⟩ := List.mem_flatMap.mp mem
      have apart := each c _ there
      simp at apart
  composed _ _ _ mem := .inl mem

def noCompany : String → Except String (List Company) := fun _ => .ok []

/-- A search of one mark of one owner. -/
def ownerSearch (owner : String) : SearchParams Unit where
  names := ["WAVO"]
  owner := some owner
  regions := ["US"]
  options := ()

theorem owner_filter_kept_acme : ∃ request,
    buildSearchRequest plainRequestText
      (resolveOwnerParamsOnce plainRequestText (ownerSearch "Acme's") noCompany).1 = .ok request ∧
    FilterKept (ownerSearch "Acme's")
      (resolveOwnerParamsOnce plainRequestText (ownerSearch "Acme's") noCompany).1 request := by
  have names : sweepable plainRequestText (ownerSearch "Acme's") noCompany = ["Acme's"] := by
    decide +kernel
  have apart : wildSideBySide plainRequestText "Acme's" = false := by decide +kernel
  refine ⟨_, rfl, (owner_filter_kept plainRequestText_lawful rfl).mpr ⟨fun t stated => ?_,
    fun front starts _ => ?_, fun front starts _ name mem => ?_, fun name mem => ?_⟩⟩
  · obtain rfl : t = "Acme's" := by
      have terms : ownerTermsOf (ownerSearch "Acme's") = ["Acme's"] := by decide +kernel
      rw [terms] at stated
      exact List.mem_singleton.mp stated
    exact ⟨[], [], by decide +kernel, fun _ => by decide +kernel⟩
  · rw [names] at starts
    obtain ⟨rest, whole⟩ := starts
    have total : (["Acme's"].flatMap (sentSpellings plainRequestText)).length +
        otherOperandsSent plainRequestText (ownerSearch "Acme's") ≤ maxOrWidth := by decide +kernel
    rw [← whole, List.flatMap_append, List.length_append] at total
    omega
  · rw [names] at starts
    obtain rfl := List.mem_singleton.mp (starts.subset mem)
    exact apart
  · cases mem

/-- Two apostrophes in a row go out as two wildcards in a row. -/
theorem apostrophes_become_adjacent_wildcards : ¬ ∀ (T : RequestText) (p : SearchParams Unit)
    (resolveCompany : String → Except String (List Company)) (request : BuiltRequest Unit),
    T.Lawful → buildSearchRequest T (resolveOwnerParamsOnce T p resolveCompany).1 = .ok request →
    FilterKept p (resolveOwnerParamsOnce T p resolveCompany).1 request := by
  intro all
  have kept := all plainRequestText (ownerSearch "Rock ''n' Roll") noCompany _
    plainRequestText_lawful rfl
  have adjacent := (kept.searchable { name := ownerField
                                      operands := ["Rock ??n? Roll", "Rock n Roll"] }
    (by decide +kernel) (.inl rfl) "Rock ??n? Roll" (by decide)).2
  exact absurd adjacent (by decide +kernel)

end

end Clearotron
