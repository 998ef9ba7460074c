import Clearotron.Index.Search

/-!
# The plan's question on its way into the local index

A request names its marks and says how they are matched, in the words of the plan or in those of
the index. The index knows no wildcards: a star at an end of a name is an anchor and is taken off,
and any other is refused. One predicate is kept for the whole list, and a name with a star at
both ends changes it for every name.
-/

namespace Clearotron.Question

/-- `match_mode`, as the plan speaks of it. -/
inductive MatchMode
  | exact
  | default
  | contains
  | startsWith
  | endsWith
  | phonetic
  | other (name : String)
  deriving DecidableEq, Repr

def MatchMode.text : MatchMode → String
  | exact => "exact"
  | default => "default"
  | contains => "contains"
  | startsWith => "starts_with"
  | endsWith => "ends_with"
  | phonetic => "phonetic"
  | other name => name

/-- `MATCH_MODE_TO_PREDICATE`: no text index serves `phonetic`. -/
def MatchMode.toPredicate : MatchMode → Option IndexPredicate
  | exact => some .exact
  | default | contains => some .wildcardInfix
  | startsWith => some .wildcardPrefix
  | endsWith => some .wildcardSuffix
  | phonetic | other _ => none

/-- A request; a field that is missing or empty is `none`. -/
structure RequestParams where
  names : Option (List String) := none
  name : Option String := none
  term : Option String := none
  predicate : Option IndexPredicate := none
  matchMode : Option MatchMode := none
  owner : Option String := none
  classes : ClassList := .absent
  status : Option String := none
  deriving Repr

/-- The names asked for. -/
def RequestParams.rawNames (p : RequestParams) : List String :=
  p.names.getD ((p.name <|> p.term).toList)

def capabilityGapMarker : String := "capability-gap:"

/-- A refusal that is read as a gap to disclose. -/
def capabilityGap {α : Type} (msg : String) : Except String α :=
  .error (capabilityGapMarker ++ " " ++ msg)

def RequestParams.resolvePredicate (p : RequestParams) : Except String IndexPredicate :=
  match p.predicate with
  | some predicate => .ok predicate
  | none =>
    match p.matchMode with
    | some mode =>
      match mode.toPredicate with
      | some mapped => .ok mapped
      | none => capabilityGap ("the local US index cannot serve match_mode \"" ++ mode.text ++
          "\". It is a text index over the bulk register with no phonetic or fuzzy surface, so " ++
          "this slice was never searched. Disclose it as a gap; running it as a contains would " ++
          "return a clean negative for a search this source cannot perform.")
    | none => .ok (if p.owner.isSome ∧ p.rawNames = [] then .owner else .wildcardInfix)

/-- The name without the stars at its ends. -/
def stripStars (n : String) : String :=
  String.ofList ((n.toList.dropWhile (· = '*')).reverse.dropWhile (· = '*')).reverse

def startsWithStar (n : String) : Bool := n.toList.head? = some '*'

def endsWithStar (n : String) : Bool := n.toList.getLast? = some '*'

/-- A star at both ends. -/
def bothEnds (n : String) : Bool := startsWithStar n && endsWithStar n

/-- A wildcard that is no anchor. -/
def hasInnerWildcard (n : String) : Bool := (stripStars n).toList.any fun c => c = '*' || c = '?'

def deAnchor (term : String) (predicate : IndexPredicate) :
    Except String (String × IndexPredicate) :=
  if hasInnerWildcard term then
    capabilityGap ("the local US index has no wildcard query language, so the pattern \"" ++
      term ++ "\" cannot be expressed. Anchored terms are served as prefix/suffix/contains " ++
      "predicates; an INTERNAL wildcard is not serveable and a literal search for it would find " ++
      "nothing and read as a clean negative.")
  else .ok (stripStars term, if bothEnds term then .wildcardInfix else predicate)

/-- The loop over the names, and the predicate it carries along. -/
def deAnchorAll : List String → IndexPredicate → Except String (List String × IndexPredicate)
  | [], predicate => .ok ([], predicate)
  | n :: names, predicate => do
    let (term, predicate) ← deAnchor n predicate
    let (terms, predicate) ← deAnchorAll names predicate
    return (term :: terms, predicate)

def toQuery (p : RequestParams) : Except String IndexQuery := do
  let resolved ← p.resolvePredicate
  let (names, predicate) ← deAnchorAll p.rawNames resolved
  return {
    predicate
    term := if predicate = .owner ∧ names = [] then p.owner.toList else names
    classes := p.classes
    status := p.status
    owner := if predicate = .owner then none else p.owner }

/-- A name and how it is matched. -/
structure Reading where
  predicate : IndexPredicate
  term : String
  deriving DecidableEq, Repr

/-- The two names of a contains search are one. -/
def plainPredicate : IndexPredicate → IndexPredicate
  | .default => .wildcardInfix
  | predicate => predicate

/-- A mode whose names are patterns, so that a star at an end is an anchor. -/
def isPattern : IndexPredicate → Bool
  | .default | .wildcardPrefix | .wildcardSuffix | .wildcardInfix => true
  | .exact | .owner | .other _ => false

/-- How a name is matched under its own anchors and the stated mode. -/
def ownReading (stated : IndexPredicate) (n : String) : Reading :=
  if !isPattern stated then ⟨stated, n⟩
  else if bothEnds n then ⟨.wildcardInfix, stripStars n⟩
  else if startsWithStar n then ⟨.wildcardSuffix, stripStars n⟩
  else if endsWithStar n then ⟨.wildcardPrefix, stripStars n⟩
  else ⟨plainPredicate stated, n⟩

/-- How a query matches each of its terms. -/
def readings (q : IndexQuery) : List Reading := q.term.map fun t => ⟨plainPredicate q.predicate, t⟩

/-- The names of a request under their own readings, or its owner where it names no mark. -/
def asked (stated : IndexPredicate) (p : RequestParams) : List Reading :=
  if p.rawNames = [] then
    if stated = .owner then p.owner.toList.map (⟨.owner, ·⟩) else []
  else p.rawNames.map (ownReading stated)

/-- The question a reading puts, under the filters of a query. -/
def Reading.query (q : IndexQuery) (r : Reading) : IndexQuery :=
  { q with predicate := r.predicate, term := [r.term] }

/-- Does a request reach the index with its meaning? One whose mode is not served is refused.
Else it is refused, or the index refuses its predicate, or each name is matched as it reads on
its own and the answer is the union over the names. -/
structure MeaningKept (p : RequestParams) : Prop where
  unserved : ∀ mode, p.predicate = none → p.matchMode = some mode → mode.toPredicate = none →
    ∃ reason, toQuery p = .error reason
  read : ∀ stated q, p.resolvePredicate = .ok stated → toQuery p = .ok q →
    (∃ name, q.predicate = .other name) ∨ readings q = asked stated p
  union : ∀ stated q, p.resolvePredicate = .ok stated → toQuery p = .ok q →
    (∃ name, q.predicate = .other name) ∨ ∀ (T : IndexText) (r : MarkRecord),
      q.accepts T r = true ↔ ∃ reading ∈ asked stated p, (reading.query q).accepts T r = true

/-- Do the stars at the ends of a name say what the mode says? -/
def starsFit (stated : IndexPredicate) (n : String) : Bool :=
  match stated with
  | .wildcardPrefix => !startsWithStar n
  | .wildcardSuffix => !endsWithStar n
  | .other _ => !bothEnds n
  | .exact | .owner | .default | .wildcardInfix => !startsWithStar n && !endsWithStar n

/-- A name that is a contains search whatever the mode. -/
def isContains (stated : IndexPredicate) (n : String) : Bool :=
  bothEnds n ||
    (plainPredicate stated = .wildcardInfix && !startsWithStar n && !endsWithStar n)

/-- A list in which no name changes how another is matched: one of its names is refused, or the
stars of each say what the mode says, or each is a contains search. -/
def StarsAgree (stated : IndexPredicate) (names : List String) : Prop :=
  (∃ n ∈ names, hasInnerWildcard n = true) ∨ (∀ n ∈ names, starsFit stated n = true) ∨
    (isPattern stated = true ∧ ∀ n ∈ names, isContains stated n = true)

theorem stripStars_eq_self {n : String} (front : startsWithStar n = false)
    (back : endsWithStar n = false) : stripStars n = n := by
  have keeps (l : List Char) (solid : l.head? ≠ some '*') : l.dropWhile (· = '*') = l := by
    cases l with
    | nil => rfl
    | cons c l =>
      have apart : c ≠ '*' := fun is => solid (by rw [is]; rfl)
      rw [List.dropWhile_cons_of_neg (by simpa using apart)]
  have front' : n.toList.head? ≠ some '*' := by simpa [startsWithStar] using front
  have back' : n.toList.reverse.head? ≠ some '*' := by
    rw [List.head?_reverse]
    simpa [endsWithStar] using back
  rw [stripStars, keeps _ front', keeps _ back', List.reverse_reverse, String.ofList_toList]

theorem startsWithStar_stripStars (n : String) : startsWithStar (stripStars n) = false ∧
    endsWithStar (stripStars n) = false := by
  have heads (l : List Char) : (l.dropWhile (· = '*')).head? ≠ some '*' := by
    intro is
    have star := List.head?_dropWhile_not (· = '*') l
    rw [is] at star
    cases star
  have back : endsWithStar (stripStars n) = false := by
    rw [endsWithStar, stripStars, String.toList_ofList, List.getLast?_reverse]
    exact decide_eq_false (heads _)
  refine ⟨?_, back⟩
  rw [startsWithStar, stripStars, String.toList_ofList, List.head?_reverse]
  apply decide_eq_false
  intro last
  -- what is left ends where the whole list without its first stars begins
  obtain ⟨dropped, split⟩ := List.dropWhile_suffix (· = '*')
    (l := (n.toList.dropWhile (· = '*')).reverse)
  have first : (n.toList.dropWhile (· = '*')).head? = some '*' := by
    rw [← List.reverse_reverse (n.toList.dropWhile (· = '*')), List.head?_reverse, ← split,
      List.getLast?_append, last]
    rfl
  exact heads _ first

theorem deAnchorAll_eq (names : List String) (predicate : IndexPredicate) :
    (∃ reason, deAnchorAll names predicate = .error reason) ∧ (names.any hasInnerWildcard) = true ∨
    deAnchorAll names predicate = .ok (names.map stripStars,
      if names.any bothEnds then .wildcardInfix else predicate) ∧
        (names.any hasInnerWildcard) = false := by
  induction names generalizing predicate with
  | nil => exact .inr ⟨rfl, rfl⟩
  | cons n names ih =>
    rw [deAnchorAll, deAnchor, List.any_cons]
    cases inner : hasInnerWildcard n with
    | true => exact .inl ⟨⟨_, rfl⟩, rfl⟩
    | false =>
      obtain ⟨⟨reason, refused⟩, isInner⟩ | ⟨passed, noInner⟩ :=
        ih (if bothEnds n then .wildcardInfix else predicate)
      · refine .inl ⟨⟨reason, ?_⟩, isInner⟩
        simp only [Bool.false_eq_true, if_false, bind, Except.bind, refused]
      · have final : ∀ a b : Bool,
            (if b then .wildcardInfix else if a then .wildcardInfix else predicate) =
              if a || b then IndexPredicate.wildcardInfix else predicate := by
          intro a b
          cases a <;> cases b <;> rfl
        refine .inr ⟨?_, noInner⟩
        simp only [Bool.false_eq_true, if_false, bind, Except.bind, passed, pure, Except.pure,
          List.map_cons, List.any_cons]
        exact congrArg Except.ok (congrArg _ (final _ _))

/-- What becomes of a request whose mode is served. -/
theorem toQuery_cases {p : RequestParams} {stated : IndexPredicate}
    (resolved : p.resolvePredicate = .ok stated) :
    ((∃ reason, toQuery p = .error reason) ∧ ∃ n ∈ p.rawNames, hasInnerWildcard n = true) ∨
    ∃ q, toQuery p = .ok q ∧ (∀ n ∈ p.rawNames, hasInnerWildcard n = false) ∧
      q.predicate = (if p.rawNames.any bothEnds then .wildcardInfix else stated) ∧
      q.term = if p.rawNames = [] then if stated = .owner then p.owner.toList else []
        else p.rawNames.map stripStars := by
  obtain ⟨⟨reason, refused⟩, inner⟩ | ⟨passed, noInner⟩ := deAnchorAll_eq p.rawNames stated
  · refine .inl ⟨⟨reason, ?_⟩, by simpa using inner⟩
    unfold toQuery
    rw [resolved]
    simp only [bind, Except.bind, refused]
  · unfold toQuery
    simp only [resolved, bind, Except.bind, passed, pure, Except.pure]
    refine .inr ⟨_, rfl, by simpa using noInner, rfl, ?_⟩
    by_cases none' : p.rawNames = []
    · simp [none']
    · simp [none']

theorem plain_accepts {q : IndexQuery} {T : IndexText} {r : MarkRecord} :
    q.accepts T r = true ↔
      ∃ t ∈ q.term, ({ q with predicate := plainPredicate q.predicate, term := [t] } :
        IndexQuery).accepts T r = true := by
  have named : ∀ s : String, s ∈ q.terms T ↔ ∃ t ∈ q.term,
      s ∈ ({ q with predicate := plainPredicate q.predicate, term := [t] } :
        IndexQuery).terms T := by
    simp [IndexQuery.terms]
    grind
  have some' (f : String → Bool) : (q.terms T).any f = true ↔ ∃ t ∈ q.term,
      (({ q with predicate := plainPredicate q.predicate, term := [t] } :
        IndexQuery).terms T).any f = true := by
    simp only [List.any_eq_true, named]
    grind
  cases predicate : q.predicate with
  | exact =>
    rw [predicate] at named
    simp only [IndexQuery.accepts, predicate, plainPredicate, decide_eq_true_eq]
    refine (named _).trans (exists_congr fun t => and_congr_right fun _ => ?_)
    exact decide_eq_true_iff.symm
  | other name => simp [IndexQuery.accepts, predicate, plainPredicate]
  | _ =>
    rw [predicate] at some'
    simp only [IndexQuery.accepts, predicate, plainPredicate]
    exact some' _

theorem accepts_iff_readings {q : IndexQuery} {T : IndexText} {r : MarkRecord} :
    q.accepts T r = true ↔ ∃ reading ∈ readings q, (reading.query q).accepts T r = true := by
  rw [plain_accepts]
  simp [readings, Reading.query]

variable {stated : IndexPredicate} {n : String}

/-- Where no star goes with both ends, a name is matched as it reads exactly if its stars fit. -/
theorem stated_reading_iff (single : bothEnds n = false) (served : ∀ name, stated ≠ .other name) :
    (⟨plainPredicate stated, stripStars n⟩ : Reading) = ownReading stated n ↔
      starsFit stated n = true := by
  have apart (starred : startsWithStar n = true ∨ endsWithStar n = true) : stripStars n ≠ n := by
    intro self
    obtain ⟨front, back⟩ := startsWithStar_stripStars n
    rw [self] at front back
    simp [front, back] at starred
  cases front : startsWithStar n <;> cases back : endsWithStar n
  · have self := stripStars_eq_self front back
    cases stated <;>
      simp [ownReading, starsFit, isPattern, plainPredicate, single, front, back, self]
  · have ne := apart (.inr back)
    cases stated with
    | other name => exact absurd rfl (served name)
    | _ => simp [ownReading, starsFit, isPattern, plainPredicate, single, front, back, ne]
  · have ne := apart (.inl front)
    cases stated with
    | other name => exact absurd rfl (served name)
    | _ => simp [ownReading, starsFit, isPattern, plainPredicate, single, front, back, ne]
  · rw [bothEnds, front, back] at single
    cases single

/-- A name is matched by a contains search as it reads exactly if it is one. -/
theorem contains_reading_iff (pattern : isPattern stated = true) :
    (⟨.wildcardInfix, stripStars n⟩ : Reading) = ownReading stated n ↔
      isContains stated n = true := by
  cases both : bothEnds n with
  | true => simp [ownReading, isContains, pattern, both]
  | false =>
    cases front : startsWithStar n <;> cases back : endsWithStar n
    · have self := stripStars_eq_self front back
      simp [ownReading, isContains, pattern, both, front, back, self, eq_comm]
    · simp [ownReading, isContains, pattern, both, front, back]
    · simp [ownReading, isContains, pattern, both, front, back]
    · rw [bothEnds, front, back] at both
      cases both

theorem asked_of_names {p : RequestParams} (names : p.rawNames ≠ []) :
    asked stated p = p.rawNames.map (ownReading stated) := by
  unfold asked
  rw [if_neg names]

/-- The readings of a query that reaches the index, and those asked for. -/
theorem readings_eq_iff {p : RequestParams} {q : IndexQuery}
    (predicate : q.predicate = if p.rawNames.any bothEnds then .wildcardInfix else stated)
    (term : q.term = if p.rawNames = [] then if stated = .owner then p.owner.toList else []
      else p.rawNames.map stripStars)
    (served : ∀ name, q.predicate ≠ .other name) :
    readings q = asked stated p ↔ (∀ n ∈ p.rawNames, starsFit stated n = true) ∨
      (isPattern stated = true ∧ ∀ n ∈ p.rawNames, isContains stated n = true) := by
  by_cases none' : p.rawNames = []
  · rw [none', if_neg (by simp)] at predicate
    rw [if_pos none'] at term
    unfold readings asked
    rw [predicate, term, if_pos none']
    by_cases owner : stated = .owner
    · simp [owner, none', plainPredicate]
    · simp [owner, none']
  · rw [if_neg none'] at term
    rw [asked_of_names none', readings, term, List.map_map, List.map_inj_left]
    by_cases both : p.rawNames.any bothEnds = true
    · obtain ⟨m, isName, isBoth⟩ := List.any_eq_true.mp both
      rw [if_pos both] at predicate
      rw [predicate]
      constructor
      · intro same
        have pattern : isPattern stated = true := by
          have here := congrArg Reading.predicate (same m isName)
          cases stated <;> simp_all [ownReading, isPattern, plainPredicate]
        exact .inr ⟨pattern, fun n mem => (contains_reading_iff pattern).mp (same n mem)⟩
      · rintro (fit | ⟨pattern, each⟩)
        · have none'' := fit m isName
          simp only [bothEnds, Bool.and_eq_true] at isBoth
          cases stated <;> simp [starsFit, bothEnds, isBoth] at none''
        · exact fun n mem => (contains_reading_iff pattern).mpr (each n mem)
    · rw [if_neg both] at predicate
      have single : ∀ n ∈ p.rawNames, bothEnds n = false := by simpa using both
      rw [predicate] at served ⊢
      constructor
      · intro same
        exact .inl fun n mem => (stated_reading_iff (single n mem) served).mp (same n mem)
      · rintro (fit | ⟨pattern, each⟩) n mem
        · exact (stated_reading_iff (single n mem) served).mpr (fit n mem)
        · apply (stated_reading_iff (single n mem) served).mpr
          have contains := each n mem
          rw [isContains, single n mem] at contains
          cases stated <;> simp_all [starsFit, plainPredicate]

theorem meaning_kept_iff (p : RequestParams) :
    MeaningKept p ↔ ∀ stated, p.resolvePredicate = .ok stated → StarsAgree stated p.rawNames := by
  have unserved (mode : MatchMode) (own : p.predicate = none) (is : p.matchMode = some mode)
      (no : mode.toPredicate = none) : ∃ reason, toQuery p = .error reason := by
    unfold toQuery RequestParams.resolvePredicate
    rw [own, is]
    dsimp only
    rw [no]
    exact ⟨_, rfl⟩
  constructor
  · intro kept stated resolved
    obtain ⟨-, inner⟩ | ⟨q, isQuery, -, predicate, term⟩ := toQuery_cases resolved
    · exact .inl inner
    · by_cases other : ∃ name, q.predicate = .other name
      · obtain ⟨name, other⟩ := other
        rw [predicate] at other
        split at other
        · cases other
        · rename_i both
          subst other
          exact .inr (.inl (by simpa [starsFit] using both))
      · have same := (kept.read stated q resolved isQuery).resolve_left other
        exact .inr ((readings_eq_iff predicate term (not_exists.mp other)).mp same)
  · intro agree
    have read : ∀ stated q, p.resolvePredicate = .ok stated → toQuery p = .ok q →
        (∃ name, q.predicate = .other name) ∨ readings q = asked stated p := by
      intro stated q resolved isQuery
      obtain ⟨⟨reason, refused⟩, -⟩ | ⟨q', isQuery', none', predicate, term⟩ :=
        toQuery_cases resolved
      · rw [isQuery] at refused
        cases refused
      · obtain rfl : q = q' := Except.ok.inj (isQuery.symm.trans isQuery')
        by_cases other : ∃ name, q.predicate = .other name
        · exact .inl other
        · obtain ⟨n, mem, inner⟩ | fit := agree stated resolved
          · rw [none' n mem] at inner
            cases inner
          · exact .inr ((readings_eq_iff predicate term (not_exists.mp other)).mpr fit)
    refine ⟨unserved, read, fun stated q resolved isQuery => ?_⟩
    obtain other | same := read stated q resolved isQuery
    · exact .inl other
    · refine .inr fun T r => ?_
      rw [accepts_iff_readings, same]

/-- An exact search for two names, one of them with stars. -/
def starredNames : RequestParams where
  names := some ["*NOVA*", "ACME"]
  matchMode := some .exact

/-- The stars of one name make a contains search of the other, and are not searched themselves. -/
theorem star_changes_the_list :
    ¬ MeaningKept starredNames ∧ (toQuery starredNames).map readings =
      .ok [⟨.wildcardInfix, "NOVA"⟩, ⟨.wildcardInfix, "ACME"⟩] := by
  constructor
  · intro kept
    obtain ⟨name, other⟩ | same := kept.read .exact _ rfl rfl
    · cases other
    · exact absurd same (by decide)
  · rfl

end Clearotron.Question
