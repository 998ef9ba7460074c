import Clearotron.Neighbourhood.Families

/-!
# What the oracle calls searched

The machine's own near forms are held against what was dispatched, and against the absences that
were explained. The terms are compared by their letters and digits, and any wildcard that was
dispatched answers for the vowel family of every element.
-/

namespace Clearotron.Neighbourhood

/-- An absence that was explained: a form, or an entry that names one. -/
structure Explained where
  form : Option String
  text : String

def Explained.named (e : Explained) : String := e.form.getD e.text

/-- `/[?*]/` -/
def carriesWildcard (s : String) : Bool := s.toList.any fun c => c = '?' || c = '*'

structure Coverage where
  complete : Bool
  missingExact : List String
  phoneticFamilyDispatched : Bool
  phoneticFamilyExplained : Bool

structure Directive where
  layer : String
  item : String
  severity : String
  observation : String

section

variable (T : FormText) (dispatched : List String) (explained : List Explained)

def coverageGaps (band : FormBand) : Coverage :=
  let norm := normalizeElement T
  let have' := dispatched.map norm
  let excused := explained.map fun e => norm e.named
  let gaps := band.exactQueries.filter fun q => !(norm q ∈ have') && !(norm q ∈ excused)
  let familyDispatched := band.wildcardPatterns.any (fun p => norm p ∈ have') ||
    band.phoneticKeys.any (fun k => norm k ∈ have') || dispatched.any carriesWildcard
  let familyExplained := band.wildcardPatterns.any fun p => norm p ∈ excused
  { complete := gaps.length = 0 &&
      (if band.wildcardPatterns.length ≠ 0 then familyDispatched || familyExplained else true)
    missingExact := gaps
    phoneticFamilyDispatched := familyDispatched
    phoneticFamilyExplained := familyExplained }

/-- One for all the forms of an element that are missing. -/
def bandDirective (element : String) (miss : List String) : Directive where
  layer := "variant"
  item := element ++ " form-neighbourhood"
  severity := "material"
  observation := toString miss.length ++ " of the deterministic form near-forms of \"" ++ element ++
    "\" were never dispatched (the machine form band was not searched) — e.g. " ++
    ", ".intercalate (miss.take 6) ++
    ". Search the complete form-neighbourhood.json band (OR-stacked, count-first)."

def formDirective (element form : String) : Directive where
  layer := "variant"
  item := form
  severity := "material"
  observation := "mechanical form near-form of \"" ++ element ++
    "\" (deterministically generated) was not dispatched — search it."

def familyDirective (el : BandElement) : Directive where
  layer := "variant"
  item := el.element ++ " phonetic family"
  severity := "material"
  observation := "the consonant-skeleton wildcard (" ++
    " / ".intercalate el.band.wildcardPatterns ++
    ") / phonetic key was not dispatched — the vowel-family (VYLONA/VILINA-class) is unsearched."

/-- What an element's band is told to search. -/
def elementDirectives (maxIndividual : ℕ) (el : BandElement) : List Directive :=
  let g := coverageGaps T dispatched explained el.band
  if g.complete then []
  else
    (if maxIndividual < g.missingExact.length then [bandDirective el.element g.missingExact]
      else g.missingExact.map (formDirective el.element)) ++
    if !g.phoneticFamilyDispatched && !g.phoneticFamilyExplained &&
        el.band.wildcardPatterns.length ≠ 0 then [familyDirective el] else []

def formGapDirectives (elements : List BandElement) (maxIndividual : ℕ) : List Directive :=
  elements.flatMap (elementDirectives T dispatched explained maxIndividual)

/-- A term that was dispatched, or whose absence was explained. -/
def IsGiven (d : String) : Prop := d ∈ dispatched ∨ ∃ e ∈ explained, d = e.named

/-- Nothing but letters and digits is left of a term under the fold. -/
def IsPlainUnderFold (s : String) : Prop := ∀ c ∈ (fold T s).toList, Shape.isPlain c = true

/-- What the oracle answers for of a list of bands. -/
structure OracleAnswers (elements : List BandElement) : Prop where
  /-- a term that was given is not missing -/
  given : ∀ el ∈ elements, ∀ q ∈ el.band.exactQueries,
    (∃ d, IsGiven dispatched explained d ∧ fold T d = fold T q) →
      q ∉ (coverageGaps T dispatched explained el.band).missingExact
  /-- a term that is not missing was given, or one was that has its letters and digits, and one of
  the two holds something else beside -/
  searched : ∀ el ∈ elements, ∀ q ∈ el.band.exactQueries,
    q ∉ (coverageGaps T dispatched explained el.band).missingExact →
      ∃ d, IsGiven dispatched explained d ∧ (fold T d = fold T q ∨
        normalizeElement T d = normalizeElement T q ∧
          ¬ (IsPlainUnderFold T d ∧ IsPlainUnderFold T q))
  /-- the family of an element is reported on its own pattern or key, or on some wildcard -/
  family : ∀ el ∈ elements,
    (coverageGaps T dispatched explained el.band).phoneticFamilyDispatched = true →
      ∃ d ∈ dispatched, carriesWildcard d = true ∨
        ∃ p ∈ el.band.wildcardPatterns ++ el.band.phoneticKeys,
          normalizeElement T d = normalizeElement T p
  complete : ∀ el ∈ elements, (∀ q ∈ el.band.exactQueries, q ∈ dispatched) →
    (∀ p ∈ el.band.wildcardPatterns, p ∈ dispatched) →
      (coverageGaps T dispatched explained el.band).complete = true
  /-- a term that is missing is named, or counted -/
  told : ∀ maxIndividual, ∀ el ∈ elements,
    ∀ q ∈ (coverageGaps T dispatched explained el.band).missingExact,
      formDirective el.element q ∈ formGapDirectives T dispatched explained elements maxIndividual ∨
      bandDirective el.element (coverageGaps T dispatched explained el.band).missingExact ∈
        formGapDirectives T dispatched explained elements maxIndividual

end

variable {T : FormText} {dispatched : List String} {explained : List Explained} {band : FormBand}
  {elements : List BandElement} {el : BandElement} {q s t : String} {maxIndividual : ℕ}

theorem normalizeElement_of_fold (same : fold T s = fold T t) :
    normalizeElement T s = normalizeElement T t :=
  congrArg (fun u : String => String.ofList (u.toList.filter Shape.isPlain)) same

theorem normalizeElement_of_plain (plain : IsPlainUnderFold T s) :
    normalizeElement T s = fold T s := by
  have own : (fold T s).toList.filter Shape.isPlain = (fold T s).toList :=
    List.filter_eq_self.mpr plain
  calc normalizeElement T s = String.ofList ((fold T s).toList.filter Shape.isPlain) := rfl
    _ = fold T s := by rw [own, String.ofList_toList]

/-- A term is missing where no term with its letters and digits was given. -/
theorem mem_missingExact : q ∈ (coverageGaps T dispatched explained band).missingExact ↔
    q ∈ band.exactQueries ∧
      ∀ d, IsGiven dispatched explained d → normalizeElement T d ≠ normalizeElement T q := by
  simp only [coverageGaps, List.mem_filter, Bool.and_eq_true, Bool.not_eq_true',
    decide_eq_false_iff_not, List.mem_map, not_exists, not_and]
  refine and_congr_right fun _ => ⟨?_, fun none' => ⟨fun d mem => none' d (.inl mem),
    fun e mem => none' _ (.inr ⟨e, mem, rfl⟩)⟩⟩
  rintro ⟨free, unexcused⟩ d (mem | ⟨e, mem, rfl⟩)
  · exact free d mem
  · exact unexcused e mem

theorem given_of_not_missing (asked : q ∈ band.exactQueries)
    (found : q ∉ (coverageGaps T dispatched explained band).missingExact) :
    ∃ d, IsGiven dispatched explained d ∧ normalizeElement T d = normalizeElement T q := by
  by_contra none'
  push Not at none'
  exact found (mem_missingExact.mpr ⟨asked, none'⟩)

theorem family_of_dispatched
    (reported : (coverageGaps T dispatched explained band).phoneticFamilyDispatched = true) :
    ∃ d ∈ dispatched, carriesWildcard d = true ∨
      ∃ p ∈ band.wildcardPatterns ++ band.phoneticKeys,
        normalizeElement T d = normalizeElement T p := by
  simp only [coverageGaps, Bool.or_eq_true, List.any_eq_true, decide_eq_true_eq, List.mem_map]
    at reported
  obtain (⟨p, mem, d, asked, same⟩ | ⟨p, mem, d, asked, same⟩) | ⟨d, asked, wild⟩ := reported
  · exact ⟨d, asked, .inr ⟨p, List.mem_append_left _ mem, same⟩⟩
  · exact ⟨d, asked, .inr ⟨p, List.mem_append_right _ mem, same⟩⟩
  · exact ⟨d, asked, .inl wild⟩

theorem complete_of_dispatched (terms : ∀ q ∈ band.exactQueries, q ∈ dispatched)
    (patterns : ∀ p ∈ band.wildcardPatterns, p ∈ dispatched) :
    (coverageGaps T dispatched explained band).complete = true := by
  have none' : (coverageGaps T dispatched explained band).missingExact = [] := by
    refine List.eq_nil_iff_forall_not_mem.mpr fun q missing => ?_
    obtain ⟨asked, free⟩ := mem_missingExact.mp missing
    exact free q (.inl (terms q asked)) rfl
  have family : band.wildcardPatterns.length ≠ 0 →
      band.wildcardPatterns.any
        (fun p => decide (normalizeElement T p ∈ dispatched.map (normalizeElement T))) = true := by
    intro some'
    obtain ⟨p, mem⟩ := List.exists_mem_of_length_pos (Nat.pos_of_ne_zero some')
    exact List.any_eq_true.mpr ⟨p, mem, decide_eq_true (List.mem_map_of_mem (patterns p mem))⟩
  have gaps : (coverageGaps T dispatched explained band).missingExact.length = 0 := by
    rw [none']
    rfl
  simp only [coverageGaps] at gaps ⊢
  rw [Bool.and_eq_true]
  refine ⟨decide_eq_true gaps, ?_⟩
  split
  · rename_i some'
    rw [family some', Bool.true_or, Bool.true_or, Bool.true_or]
  · rfl

theorem complete_eq_false (missing : q ∈ (coverageGaps T dispatched explained band).missingExact) :
    (coverageGaps T dispatched explained band).complete = false := by
  have some' := List.ne_nil_of_mem missing
  simp only [coverageGaps] at some' ⊢
  rw [Bool.and_eq_false_iff]
  exact .inl (decide_eq_false fun none' => some' (List.length_eq_zero_iff.mp none'))

/-- Each missing term has its directive, or the band's directive counts it. -/
theorem told_of_missing (mem : el ∈ elements)
    (missing : q ∈ (coverageGaps T dispatched explained el.band).missingExact) :
    formDirective el.element q ∈ formGapDirectives T dispatched explained elements maxIndividual ∨
      bandDirective el.element (coverageGaps T dispatched explained el.band).missingExact ∈
        formGapDirectives T dispatched explained elements maxIndividual := by
  have own : elementDirectives T dispatched explained maxIndividual el ⊆
      formGapDirectives T dispatched explained elements maxIndividual :=
    fun d inside => List.mem_flatMap.mpr ⟨el, mem, inside⟩
  have open' := complete_eq_false missing
  by_cases many : maxIndividual < (coverageGaps T dispatched explained el.band).missingExact.length
  · refine .inr (own ?_)
    simp only [elementDirectives, open', if_pos many]
    exact List.mem_append_left _ (List.mem_singleton.mpr rfl)
  · refine .inl (own ?_)
    simp only [elementDirectives, open', if_neg many]
    exact List.mem_append_left _ (List.mem_map_of_mem missing)

/-- What was given is not missing, what is missing is told, and a band whose every term and pattern
was dispatched is complete. -/
theorem oracle_answers (T : FormText) (elements : List BandElement) (dispatched : List String)
    (explained : List Explained) : OracleAnswers T dispatched explained elements where
  given el _ q _ := by
    rintro ⟨d, given, same⟩ missing
    exact (mem_missingExact.mp missing).2 d given (normalizeElement_of_fold same)
  searched el _ q asked found := by
    obtain ⟨d, given, same⟩ := given_of_not_missing asked found
    refine ⟨d, given, ?_⟩
    by_cases plain : IsPlainUnderFold T d ∧ IsPlainUnderFold T q
    · left
      rwa [← normalizeElement_of_plain plain.1, ← normalizeElement_of_plain plain.2]
    · exact .inr ⟨same, plain⟩
  family el _ reported := family_of_dispatched reported
  complete el _ terms patterns := complete_of_dispatched terms patterns
  told maxIndividual el mem q missing := told_of_missing mem missing

theorem normalizeElement_lan : normalizeElement plainFormText "lan" = "lan" :=
  normalizeElement_plain (List.all_eq_true.mp (by decide))

def lanBand : FormBand :=
  formNeighbourhood plainFormText "lan" { droppedAxes := ["transliteration"] }

/-- A term that differs in a sign passes for a near form, and the pattern of some other element for
the patterns of this one. -/
theorem stand_ins_pass :
    ¬ (∀ q ∈ lanBand.exactQueries,
      q ∉ (coverageGaps plainFormText ["l-n", "x?"] [] lanBand).missingExact →
        ∃ d, IsGiven ["l-n", "x?"] [] d ∧ fold plainFormText d = fold plainFormText q) ∧
    ¬ ((coverageGaps plainFormText ["l-n", "x?"] [] lanBand).phoneticFamilyDispatched = true →
      ∃ d ∈ ["l-n", "x?"], ∃ p ∈ lanBand.wildcardPatterns ++ lanBand.phoneticKeys,
        fold plainFormText d = fold plainFormText p) := by
  have asked : "l@n" ∈ lanBand.exactQueries :=
    look_asked (List.all_eq_true.mp (by decide)) (by decide) (by decide) (by decide)
      (by decide +kernel) (by decide) (by decide)
  constructor
  · intro honest
    have found : "l@n" ∉ (coverageGaps plainFormText ["l-n", "x?"] [] lanBand).missingExact :=
      fun missing => (mem_missingExact.mp missing).2 "l-n" (.inl (by decide)) (by decide +kernel)
    obtain ⟨d, given, same⟩ := honest "l@n" asked found
    obtain mem | ⟨e, mem, -⟩ := given
    · obtain rfl | rfl : d = "l-n" ∨ d = "x?" := by simpa using mem
      · exact absurd same (by decide +kernel)
      · exact absurd same (by decide +kernel)
    · cases mem
  · intro honest
    have reported :
        (coverageGaps plainFormText ["l-n", "x?"] [] lanBand).phoneticFamilyDispatched = true := by
      simp only [coverageGaps, Bool.or_eq_true]
      exact .inr (by decide)
    have patterns : lanBand.wildcardPatterns ++ lanBand.phoneticKeys = ["l?n", "l*n", "LN"] := by
      simp only [lanBand, formNeighbourhood, normalizeElement_lan]
      decide +kernel
    obtain ⟨d, mem, p, own, same⟩ := honest reported
    rw [patterns] at own
    have apart : ∀ d ∈ ["l-n", "x?"], ∀ p ∈ ["l?n", "l*n", "LN"],
        fold plainFormText d ≠ fold plainFormText p := by decide +kernel
    exact apart d mem p own same

end Clearotron.Neighbourhood
