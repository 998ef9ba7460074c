import Clearotron.Neighbourhood.Families
import Clearotron.Searches.HeldList

/-!
# The vowel family of an element

A pattern stands for the spellings of an element with other vowels. The one opens each run of
vowels to a single character, the other keeps what the element starts and ends with. Where vowels
follow one another the first misses the element itself, and the second has it only between
consonants.
-/

namespace Clearotron.Neighbourhood

open Shape (isVowel squashRuns consonantSkeleton)

/-- One character with another in its place: a vowel for a vowel, a consonant kept. -/
def SamePlace (c d : Char) : Prop := if isVowel c then isVowel d = true else d = c

/-- The spellings with other vowels. -/
def Revowelled : List Char → List Char → Prop := List.Forall₂ SamePlace

/-- Is the text one that the pattern stands for? -/
def isReachedBy (t : List Char) (pattern : String) : Bool :=
  Wild.runs id (wildcards pattern.toList) t

/-- Two vowels follow one another. -/
def hasVowelRun : List Char → Bool
  | c :: d :: rest => isVowel c && isVowel d || hasVowelRun (d :: rest)
  | _ => false

/-- A consonant stands at either end, and they are not all one run. -/
def isBetweenConsonants (w : List Char) : Bool :=
  w.head?.any (!isVowel ·) && w.getLast?.any (!isVowel ·) &&
    2 ≤ (squashRuns (w.filter (!isVowel ·))).length

variable {T : FormText} {element p : String} {w t : List Char} {c d first last : Char}

theorem Revowelled.refl (w : List Char) : Revowelled w w := by
  refine List.forall₂_same.mpr fun c _ => ?_
  rw [SamePlace]
  split
  · assumption
  · rfl

theorem wildcards_cons (c : Char) (l : List Char) : wildcards (c :: l) =
    (if c = '*' then .any else if c = '?' then .one else .lit c) :: wildcards l := rfl

theorem wildcards_plain (plain : Shape.isPlain c = true) (l : List Char) :
    wildcards (c :: l) = .lit c :: wildcards l := by
  have star : c ≠ '*' := by
    rintro rfl
    exact absurd plain (by decide)
  have one : c ≠ '?' := by
    rintro rfl
    exact absurd plain (by decide)
  rw [wildcards_cons, if_neg star, if_neg one]

theorem openVowels_cons_of_apart (apart : hasVowelRun (c :: w) = false) :
    openVowels (c :: w) = (if isVowel c then '?' else c) :: openVowels w := by
  rw [openVowels]
  split
  · rename_i vowel
    have none' : w.head?.any isVowel = false := by
      cases w with
      | nil => rfl
      | cons d w =>
        rw [hasVowelRun, Bool.or_eq_false_iff, vowel, Bool.true_and] at apart
        exact apart.1
    rw [none', if_neg (by decide)]
  · rfl

theorem hasVowelRun_of_cons (apart : hasVowelRun (c :: w) = false) : hasVowelRun w = false := by
  cases w with
  | nil => rfl
  | cons d w =>
    rw [hasVowelRun, Bool.or_eq_false_iff] at apart
    exact apart.2

/-- Each vowel stands alone, and another in its place is one character as well. -/
theorem openVowels_reaches (plain : ∀ c ∈ w, Shape.isPlain c = true) (apart : hasVowelRun w = false)
    (same : Revowelled w t) : Wild.runs id (wildcards (openVowels w)) t = true := by
  induction same with
  | nil => rfl
  | @cons c d w t place rest ih =>
    have behind := ih (fun c mem => plain c (List.mem_cons_of_mem _ mem))
      (hasVowelRun_of_cons apart)
    rw [openVowels_cons_of_apart apart]
    rw [SamePlace] at place
    split
    · exact behind
    · rename_i consonant
      rw [if_neg consonant] at place
      subst place
      rw [wildcards_plain (plain d List.mem_cons_self)]
      simpa [Wild.runs] using behind

theorem length_openVowels_le (w : List Char) : (openVowels w).length ≤ w.length := by
  induction w with
  | nil => rfl
  | cons c w ih =>
    rw [openVowels]
    split
    · split
      · exact ih.trans (Nat.le_succ _)
      · exact Nat.succ_le_succ ih
    · exact Nat.succ_le_succ ih

/-- A run of vowels makes the pattern shorter than the element. -/
theorem length_openVowels_lt (run : hasVowelRun w = true) :
    (openVowels w).length < w.length := by
  induction w with
  | nil => cases run
  | cons c w ih =>
    rw [openVowels]
    split
    · split
      · exact Nat.lt_succ_of_le (length_openVowels_le w)
      · rename_i vowel none'
        refine Nat.succ_lt_succ (ih ?_)
        cases w with
        | nil => cases run
        | cons d w =>
          rw [hasVowelRun, Bool.or_eq_true, Bool.and_eq_true] at run
          exact run.resolve_left fun both => none' both.2
    · rename_i consonant
      refine Nat.succ_lt_succ (ih ?_)
      cases w with
      | nil => cases run
      | cons d w =>
        rw [hasVowelRun, Bool.or_eq_true, Bool.and_eq_true] at run
        exact run.resolve_left fun both => consonant both.1

/-- Without a star a pattern has as many characters as what it stands for. -/
theorem length_of_runs {ps : List Wild} (bound : ∀ x ∈ ps, x ≠ .any)
    (reached : Wild.runs id ps t = true) : t.length = ps.length := by
  induction ps generalizing t with
  | nil => simpa [Wild.runs] using reached
  | cons x ps ih =>
    have rest := fun y mem => bound y (List.mem_cons_of_mem x mem)
    cases x with
    | any => exact absurd rfl (bound .any List.mem_cons_self)
    | one | lit =>
      cases t with
      | nil => simp [Wild.runs] at reached
      | cons d t =>
        simp only [Wild.runs, Bool.and_eq_true] at reached
        simp [ih rest (by first | exact reached | exact reached.2)]

theorem plain_or_one_openVowels (plain : ∀ c ∈ w, Shape.isPlain c = true) :
    ∀ c ∈ openVowels w, c = '?' ∨ Shape.isPlain c = true := by
  induction w with
  | nil => simp [openVowels]
  | cons c w ih =>
    have behind := ih fun c mem => plain c (List.mem_cons_of_mem _ mem)
    rw [openVowels]
    split
    · split
      · exact behind
      · exact List.forall_mem_cons.mpr ⟨.inl rfl, behind⟩
    · exact List.forall_mem_cons.mpr ⟨.inr (plain c List.mem_cons_self), behind⟩

theorem wildcards_openVowels_bound (plain : ∀ c ∈ w, Shape.isPlain c = true) :
    ∀ x ∈ wildcards (openVowels w), x ≠ .any := by
  intro x mem
  obtain ⟨c, inside, rfl⟩ := List.mem_map.mp mem
  have star : c ≠ '*' := by
    rintro rfl
    obtain same | own := plain_or_one_openVowels plain '*' inside
    · cases same
    · exact absurd own (by decide)
  rw [if_neg star]
  split <;> nofun

/-- The open pattern has the element itself only where no two vowels follow one another. -/
theorem openVowels_self (plain : ∀ c ∈ w, Shape.isPlain c = true) :
    Wild.runs id (wildcards (openVowels w)) w = true ↔ hasVowelRun w = false := by
  refine ⟨fun reached => ?_, fun apart => openVowels_reaches plain apart (Revowelled.refl w)⟩
  rw [Bool.eq_false_iff]
  intro run
  have long := length_of_runs (wildcards_openVowels_bound plain) reached
  have short := length_openVowels_lt run
  rw [wildcards, List.length_map] at long
  omega

theorem one_mem_openVowels (vowel : ∃ c ∈ w, isVowel c = true) : '?' ∈ openVowels w := by
  induction w with
  | nil => simp at vowel
  | cons c w ih =>
    rw [openVowels]
    split
    · split
      · rename_i next
        cases w with
        | nil => cases next
        | cons d w => exact ih ⟨d, List.mem_cons_self, next⟩
      · exact List.mem_cons_self
    · rename_i consonant
      refine List.mem_cons_of_mem _ (ih ?_)
      obtain ⟨d, mem, own⟩ := vowel
      obtain rfl | mem := List.mem_cons.mp mem
      · exact absurd own consonant
      · exact ⟨d, mem, own⟩

theorem head?_squashRuns (l : List Char) : (squashRuns l).head? = l.head? := by
  induction l with
  | nil => rfl
  | cons c l ih =>
    rw [squashRuns]
    split
    · rename_i same
      rw [ih, same, List.head?_cons]
    · rw [List.head?_cons, List.head?_cons]

theorem getLast?_squashRuns (l : List Char) : (squashRuns l).getLast? = l.getLast? := by
  induction l with
  | nil => rfl
  | cons c l ih =>
    rw [squashRuns, List.getLast?_cons]
    split
    · rename_i same
      rw [ih]
      cases l with
      | nil => cases same
      | cons d l => rw [List.getLast?_cons, Option.getD_some]
    · rw [List.getLast?_cons, ih]

theorem length_squashRuns_le (l : List Char) : (squashRuns l).length ≤ l.length := by
  induction l with
  | nil => rfl
  | cons c l ih =>
    rw [squashRuns]
    split
    · exact ih.trans (Nat.le_succ _)
    · exact Nat.succ_le_succ ih

theorem runs_anchored (plainFirst : Shape.isPlain first = true)
    (plainLast : Shape.isPlain last = true) :
    Wild.runs id (wildcards [first, '*', last]) t = true ↔
      ∃ middle, t = first :: (middle ++ [last]) := by
  have is : wildcards [first, '*', last] = [.lit first, .any, .lit last] := by
    rw [wildcards_plain plainFirst, wildcards_cons, if_pos rfl, wildcards_plain plainLast]
    rfl
  have one : ∀ s, Wild.runs id [.lit last] s = true ↔ s = [last] := by
    rintro (_ | ⟨d, _ | ⟨e, s⟩⟩)
    · simp [Wild.runs]
    · simp [Wild.runs, eq_comm]
    · simp [Wild.runs]
  rw [is]
  cases t with
  | nil => simp [Wild.runs]
  | cons d t =>
    have step : Wild.runs id [.lit first, .any, .lit last] (d :: t) = true ↔
        first = d ∧ Wild.runs id [.any, .lit last] t = true := by
      rw [Wild.runs, Bool.and_eq_true, decide_eq_true_eq]
      rfl
    rw [step, Wild.runs_any]
    constructor
    · rintro ⟨rfl, s, ⟨middle, rfl⟩, reached⟩
      exact ⟨middle, by rw [(one s).mp reached]⟩
    · rintro ⟨middle, same⟩
      obtain ⟨rfl, rfl⟩ := List.cons.inj same
      exact ⟨rfl, [last], List.suffix_append _ _, (one _).mpr rfl⟩

theorem exists_middle (head : t.head? = some first) (back : t.getLast? = some last)
    (long : 2 ≤ t.length) : ∃ middle, t = first :: (middle ++ [last]) := by
  obtain ⟨rest, rfl⟩ := List.head?_eq_some_iff.mp head
  obtain ⟨front, whole⟩ := List.getLast?_eq_some_iff.mp back
  cases front with
  | nil =>
    obtain ⟨-, rfl⟩ := List.cons.inj whole
    simp at long
  | cons c middle =>
    obtain ⟨rfl, rfl⟩ := List.cons.inj whole
    exact ⟨middle, rfl⟩

theorem Revowelled.head? (same : Revowelled w t) (own : w.head? = some c)
    (consonant : isVowel c = false) : t.head? = some c := by
  cases same with
  | nil => cases own
  | cons place rest =>
    obtain rfl := Option.some.inj own
    rw [SamePlace, consonant, if_neg (by decide)] at place
    rw [place, List.head?_cons]

theorem Revowelled.getLast? (same : Revowelled w t) (own : w.getLast? = some c)
    (consonant : isVowel c = false) : t.getLast? = some c := by
  rw [← List.head?_reverse] at own ⊢
  exact Revowelled.head? (List.forall₂_reverse_iff.mpr same) own consonant

/-- The two patterns of an element, the second where there are consonants enough. -/
theorem mem_skeletonPatterns : p ∈ skeletonPatterns T element ↔
    p.toList = openVowels (normalizeElement T element).toList ∧
        ('*' ∈ p.toList ∨ '?' ∈ p.toList) ∨
      ∃ first last, p.toList = [first, '*', last] ∧
        2 ≤ (squashRuns ((normalizeElement T element).toList.filter (!isVowel ·))).length ∧
        ((normalizeElement T element).toList.filter (!isVowel ·)).head? = some first ∧
        ((normalizeElement T element).toList.filter (!isVowel ·)).getLast? = some last := by
  have again : (consonantSkeleton T.toMarkText (String.ofList
      (normalizeElement T element).toList)).toList =
      squashRuns ((normalizeElement T element).toList.filter (!isVowel ·)) := by
    rw [String.ofList_toList, consonantSkeleton, String.toList_ofList]
    exact congrArg (fun s : String => squashRuns (s.toList.filter (!isVowel ·)))
      normalizeElement_normalizeElement
  rw [skeletonPatterns]
  simp only [again]
  generalize (normalizeElement T element).toList = w
  have named : ∀ P : List Char → Prop, (∃ q, P q ∧ String.ofList q = p) ↔ P p.toList := by
    intro P
    constructor
    · rintro ⟨q, own, rfl⟩
      rwa [String.toList_ofList]
    · exact fun own => ⟨p.toList, own, String.ofList_toList⟩
  by_cases empty : w = []
  · subst empty
    refine ⟨by simp, ?_⟩
    rintro (⟨same, wild⟩ | ⟨first, last, -, long, -⟩)
    · simp [same, openVowels] at wild
    · simp [squashRuns] at long
  rw [if_neg empty, head?_squashRuns, getLast?_squashRuns]
  simp only [List.mem_map, List.mem_filter, List.mem_dedup, List.mem_cons, decide_eq_true_eq]
  rw [named fun q => _]
  cases isFirst : (w.filter (!isVowel ·)).head? with
  | none => simp
  | some first =>
    cases isLast : (w.filter (!isVowel ·)).getLast? with
    | none => simp
    | some last =>
      dsimp only
      by_cases long : 2 ≤ (squashRuns (w.filter (!isVowel ·))).length
      · rw [if_pos long, List.mem_singleton]
        constructor
        · rintro ⟨same | same, wild⟩
          · exact .inl ⟨same, wild⟩
          · exact .inr ⟨first, last, same, long, rfl, rfl⟩
        · rintro (⟨same, wild⟩ | ⟨first', last', same, -, own, own'⟩)
          · exact ⟨.inl same, wild⟩
          · obtain rfl := Option.some.inj own
            obtain rfl := Option.some.inj own'
            exact ⟨.inr same, by simp [same]⟩
      · rw [if_neg long]
        simp [long]

theorem carries_of_mem (mem : p ∈ skeletonPatterns T element) :
    '*' ∈ p.toList ∨ '?' ∈ p.toList := by
  obtain ⟨-, wild⟩ | ⟨first, last, same, -⟩ := mem_skeletonPatterns.mp mem
  · exact wild
  · rw [same]
    exact .inl (by simp)

/-- A consonant at the start is the first of the consonants. -/
theorem head?_filter_iff : ((w.filter (!isVowel ·)).head? = some c ∧ w.head? = some c) ↔
    w.head? = some c ∧ isVowel c = false := by
  cases w with
  | nil => simp
  | cons d w =>
    rw [List.head?_cons]
    constructor
    · rintro ⟨own, same⟩
      obtain rfl := Option.some.inj same
      have mem := List.mem_filter.mp (List.mem_of_mem_head? own)
      exact ⟨same, by simpa using mem.2⟩
    · rintro ⟨same, consonant⟩
      obtain rfl := Option.some.inj same
      exact ⟨by rw [List.filter_cons_of_pos (by simp [consonant]), List.head?_cons], same⟩

theorem getLast?_filter_iff : ((w.filter (!isVowel ·)).getLast? = some c ∧ w.getLast? = some c) ↔
    w.getLast? = some c ∧ isVowel c = false := by
  rw [← List.head?_reverse, ← List.head?_reverse, ← List.filter_reverse]
  exact head?_filter_iff

theorem isBetweenConsonants_iff : isBetweenConsonants w = true ↔
    ∃ first last, (w.head? = some first ∧ isVowel first = false) ∧
      (w.getLast? = some last ∧ isVowel last = false) ∧
      2 ≤ (squashRuns (w.filter (!isVowel ·))).length := by
  rw [isBetweenConsonants, Bool.and_eq_true, Bool.and_eq_true, decide_eq_true_eq]
  cases w.head? <;> cases w.getLast? <;> simp [and_assoc]

/-- What the patterns of an element promise. -/
structure PatternsReach (T : FormText) (element : String) : Prop where
  /-- the element and its spellings with other vowels are found -/
  reached : ∀ t, Revowelled (normalizeElement T element).toList t →
    ∃ p ∈ skeletonPatterns T element, isReachedBy t p = true
  wild : ∀ p ∈ skeletonPatterns T element, '*' ∈ p.toList ∨ '?' ∈ p.toList

/-- The patterns reach the vowel family where no two vowels follow one another, or the element
stands between two consonants. -/
theorem patterns_reach_iff (T : FormText) (element : String)
    (vowel : ∃ c ∈ (normalizeElement T element).toList, isVowel c = true) :
    PatternsReach T element ↔ hasVowelRun (normalizeElement T element).toList = false ∨
      isBetweenConsonants (normalizeElement T element).toList = true := by
  have plain : ∀ c ∈ (normalizeElement T element).toList, Shape.isPlain c = true :=
    fun c mem => plain_normalizeElement mem
  constructor
  · intro reach
    obtain ⟨p, mem, found⟩ := reach.reached _ (Revowelled.refl _)
    rw [isReachedBy] at found
    obtain ⟨same, -⟩ | ⟨first, last, same, long, isFirst, isLast⟩ := mem_skeletonPatterns.mp mem
    · rw [same] at found
      exact .inl ((openVowels_self plain).mp found)
    · have own := List.mem_filter.mp (List.mem_of_mem_head? isFirst)
      have own' := List.mem_filter.mp (List.mem_of_getLast? isLast)
      rw [same, runs_anchored (plain _ own.1) (plain _ own'.1)] at found
      obtain ⟨middle, whole⟩ := found
      have head : (normalizeElement T element).toList.head? = some first := by
        rw [whole, List.head?_cons]
      have back : (normalizeElement T element).toList.getLast? = some last := by
        rw [whole, ← List.cons_append, List.getLast?_concat]
      exact .inr (isBetweenConsonants_iff.mpr ⟨first, last,
        head?_filter_iff.mp ⟨isFirst, head⟩, getLast?_filter_iff.mp ⟨isLast, back⟩, long⟩)
  · intro condition
    refine ⟨fun t same => ?_, fun p mem => carries_of_mem mem⟩
    obtain apart | between := condition
    · refine ⟨String.ofList (openVowels (normalizeElement T element).toList),
        mem_skeletonPatterns.mpr (.inl ?_), ?_⟩
      · rw [String.toList_ofList]
        exact ⟨rfl, .inr (one_mem_openVowels vowel)⟩
      · rw [isReachedBy, String.toList_ofList]
        exact openVowels_reaches plain apart same
    · obtain ⟨first, last, head, back, long⟩ := isBetweenConsonants_iff.mp between
      refine ⟨String.ofList [first, '*', last], mem_skeletonPatterns.mpr
        (.inr ⟨first, last, String.toList_ofList, long, (head?_filter_iff.mpr head).1,
          (getLast?_filter_iff.mpr back).1⟩), ?_⟩
      have isLong : 2 ≤ t.length := by
        have short := List.length_filter_le (!isVowel ·) (normalizeElement T element).toList
        have squashed :=
          length_squashRuns_le ((normalizeElement T element).toList.filter (!isVowel ·))
        have width : (normalizeElement T element).toList.length = t.length := same.length_eq
        omega
      rw [isReachedBy, String.toList_ofList, runs_anchored
        (plain _ (List.mem_of_mem_head? head.1)) (plain _ (List.mem_of_getLast? back.1))]
      exact exists_middle (same.head? head.1 head.2) (same.getLast? back.1 back.2) isLong

theorem normalizeElement_velena : normalizeElement plainFormText "velena" = "velena" :=
  normalizeElement_plain (List.all_eq_true.mp (by decide))

theorem patterns_reach_velena : PatternsReach plainFormText "velena" :=
  (patterns_reach_iff plainFormText "velena"
    (by rw [normalizeElement_velena]; exact ⟨'e', by decide, by decide⟩)).mpr
    (by rw [normalizeElement_velena]; exact .inl (by decide))

theorem normalizeElement_aurora : normalizeElement plainFormText "aurora" = "aurora" :=
  normalizeElement_plain (List.all_eq_true.mp (by decide))

/-- Neither pattern of the element finds the element itself. -/
theorem aurora_is_not_reached : ¬ ((∃ c ∈ (normalizeElement plainFormText "aurora").toList,
    isVowel c = true) →
    2 ≤ ((normalizeElement plainFormText "aurora").toList.filter (!isVowel ·)).length →
    PatternsReach plainFormText "aurora") := by
  rw [normalizeElement_aurora]
  intro reach
  obtain ⟨p, mem, found⟩ := (reach ⟨'a', by decide, by decide⟩ (by decide)).reached _
    (Revowelled.refl _)
  rw [normalizeElement_aurora, isReachedBy] at found
  obtain ⟨same, -⟩ | ⟨first, last, same, long, isFirst, isLast⟩ := mem_skeletonPatterns.mp mem
  · rw [same, normalizeElement_aurora] at found
    exact absurd found (by decide)
  · rw [normalizeElement_aurora] at long
    exact absurd long (by decide)

end Clearotron.Neighbourhood
