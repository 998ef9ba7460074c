import Clearotron.Neighbourhood.Letters

/-!
# The band is whole

Every near form of an element is asked for under its fold, folds onto the element, or is listed as
one that is not asked for. A listed word may be asked for all the same, as another generator's.
-/

namespace Clearotron.Neighbourhood

open Shape (letters isVowel oneEdit squashRuns)

variable {T : FormText} {element s t : String} {o : BandOptions} {seen terms : List String}

theorem mem_of_firstOfFold (mem : t ∈ firstOfFold T seen terms) : t ∈ terms := by
  induction terms generalizing seen with
  | nil => exact mem
  | cons u terms ih =>
    rw [firstOfFold] at mem
    split at mem
    · exact List.mem_cons_of_mem _ (ih mem)
    · exact (List.mem_cons.mp mem).elim (fun same => same ▸ List.mem_cons_self)
        fun later => List.mem_cons_of_mem _ (ih later)

theorem firstOfFold_fresh (mem : t ∈ firstOfFold T seen terms) : fold T t ∉ seen := by
  induction terms generalizing seen with
  | nil => cases mem
  | cons u terms ih =>
    rw [firstOfFold] at mem
    split at mem
    · exact ih mem
    · rename_i fresh
      obtain rfl | later := List.mem_cons.mp mem
      · exact (not_or.mp fresh).2
      · exact fun old => ih later (List.mem_cons_of_mem _ old)

theorem firstOfFold_pairwise :
    (firstOfFold T seen terms).Pairwise fun a b => fold T a ≠ fold T b := by
  induction terms generalizing seen with
  | nil => exact .nil
  | cons u terms ih =>
    rw [firstOfFold]
    split
    · exact ih
    · exact List.pairwise_cons.mpr ⟨fun b later same =>
        firstOfFold_fresh later (same ▸ List.mem_cons_self), ih⟩

/-- Every term is folded away, was seen, or has its fold in the list. -/
theorem firstOfFold_covers (seen : List String) (mem : t ∈ terms) :
    fold T t = "" ∨ fold T t ∈ seen ∨ ∃ q ∈ firstOfFold T seen terms, fold T q = fold T t := by
  induction terms generalizing seen with
  | nil => cases mem
  | cons u terms ih =>
    rw [firstOfFold]
    obtain rfl | later := List.mem_cons.mp mem
    · split
      · rename_i old
        exact old.imp_right .inl
      · exact .inr (.inr ⟨t, List.mem_cons_self, rfl⟩)
    · split
      · exact ih seen later
      · obtain empty | old | ⟨q, there, same⟩ := ih (fold T u :: seen) later
        · exact .inl empty
        · obtain same | old := List.mem_cons.mp old
          · exact .inr (.inr ⟨u, List.mem_cons_self, same.symm⟩)
          · exact .inr (.inl old)
        · exact .inr (.inr ⟨q, List.mem_cons_of_mem _ there, same⟩)

/-- What is kept is the first text of its fold. -/
theorem mem_firstOfFold : t ∈ firstOfFold T seen terms ↔
    fold T t ≠ "" ∧ fold T t ∉ seen ∧ terms.find? (fun u => fold T u = fold T t) = some t := by
  induction terms generalizing seen with
  | nil => simp [firstOfFold]
  | cons u terms ih =>
    rw [firstOfFold]
    by_cases same : fold T u = fold T t
    · rw [List.find?_cons_of_pos (by simpa using same)]
      split
      · rename_i old
        rw [ih]
        rw [same] at old
        exact iff_of_false (fun h => old.elim h.1 h.2.1) fun h => old.elim h.1 h.2.1
      · rename_i fresh
        rw [same] at fresh
        rw [List.mem_cons, ih, Option.some.injEq]
        constructor
        · rintro (rfl | ⟨-, other, -⟩)
          · exact ⟨(not_or.mp fresh).1, (not_or.mp fresh).2, rfl⟩
          · exact absurd (same ▸ List.mem_cons_self) other
        · exact fun h => .inl h.2.2.symm
    · rw [List.find?_cons_of_neg (by simpa using same)]
      split
      · exact ih
      · have other : t ≠ u := fun is => same (is ▸ rfl)
        have apart : fold T t ≠ fold T u := fun is => same is.symm
        rw [List.mem_cons, ih, List.mem_cons]
        simp only [other, apart, false_or]

theorem mem_dedupeOnFold {el : String} (mem : t ∈ dedupeOnFold T terms el) : t ∈ terms :=
  mem_sortedSet.mp (mem_of_firstOfFold mem)

theorem dedupeOnFold_covers (T : FormText) (el : String) (mem : t ∈ terms) : fold T t = "" ∨
    fold T t = fold T el ∨ ∃ q ∈ dedupeOnFold T terms el, fold T q = fold T t := by
  obtain empty | old | found := firstOfFold_covers [fold T el] (mem_sortedSet.mpr mem)
  · exact .inl empty
  · exact .inr (.inl (List.mem_singleton.mp old))
  · exact .inr (.inr found)

/-- What is generated of an element, in the families that are kept. -/
def Generated (T : FormText) (element : String) (o : BandOptions) (t : String) : Prop :=
  t ∈ editNeighbourhood T element ∨ t ∈ keptConfusables T (normalizeElement T element) o ∨
    t ∈ keptTransliterations T (normalizeElement T element) o

structure BandWhole (T : FormText) (element : String) (o : BandOptions) : Prop where
  /-- the edits are the words one step away -/
  edits : ∀ t, t ∈ editNeighbourhood T element ↔
    t.toList ≠ (normalizeElement T element).toList ∧
      OneStep (normalizeElement T element).toList t.toList
  /-- every form is asked for under its fold, is the element, or is listed as not asked for -/
  covered : ∀ t, Generated T element o t →
    (∃ q ∈ (formNeighbourhood T element o).exactQueries, fold T q = fold T t) ∨
    fold T t = fold T (normalizeElement T element) ∨
    t ∈ (formNeighbourhood T element o).ordinaryWordDifferentSound ∨
    t ∈ (formNeighbourhood T element o).mixedScriptNotSearched
  distinct : (formNeighbourhood T element o).exactQueries.Pairwise fun a b => fold T a ≠ fold T b
  /-- what is listed as not asked for is not asked for -/
  unasked : ∀ t, t ∈ (formNeighbourhood T element o).ordinaryWordDifferentSound ∨
    t ∈ (formNeighbourhood T element o).mixedScriptNotSearched →
      t ∉ (formNeighbourhood T element o).exactQueries

theorem form_generated (own : Generated T element o t) : ∀ c ∈ t.toList, isFormLetter c = true := by
  obtain edit | look | trans := own
  · exact fun c mem => form_of_look (look_of_plain (plain_edit edit c mem))
  · rw [keptConfusables] at look
    split at look
    · cases look
    · exact fun c mem => form_of_look (look_visualConfusable look c mem)
  · rw [keptTransliterations] at trans
    split at trans
    · cases trans
    · exact form_transliteration trans

/-- The spellings in two scripts that are not asked for. -/
def mixedOf (T : FormText) (el : String) (o : BandOptions) : List String :=
  if o.mixedScriptQuery = some false then
    (keptTransliterations T el o).filter (mixesLatinWithGreekOrCyrillic T) else []

/-- What the band is deduplicated from. -/
def askedFor (T : FormText) (el : String) (o : BandOptions) : List String :=
  (editNeighbourhood T el).filter (· ∉ ordinaryWordDifferentSound T el o.ordinaryWords) ++
    keptConfusables T el o ++ (keptTransliterations T el o).filter (· ∉ mixedOf T el o)

/-- The element has a letter or digit; has it one alone, the empty text is a listed word. -/
def HasNeighbours (T : FormText) (element : String) (o : BandOptions) : Prop :=
  normalizeElement T element ≠ "" ∧ ((normalizeElement T element).toList.length = 1 →
    "" ∈ ordinaryWordDifferentSound T (normalizeElement T element) o.ordinaryWords)

/-- No listed ordinary word is also the confusable or the transliteration that is asked for under
its fold. -/
def NoListedLookalike (T : FormText) (element : String) (o : BandOptions) : Prop :=
  ∀ t ∈ ordinaryWordDifferentSound T (normalizeElement T element) o.ordinaryWords,
    t ∈ keptConfusables T (normalizeElement T element) o ∨
        (t ∈ keptTransliterations T (normalizeElement T element) o ∧
          t ∉ mixedOf T (normalizeElement T element) o) →
      (sortedSet (askedFor T (normalizeElement T element) o)).find?
        (fun u => fold T u = fold T t) ≠ some t

theorem mem_askedFor : t ∈ askedFor T (normalizeElement T element) o ↔
    (t ∈ editNeighbourhood T element ∧
      t ∉ ordinaryWordDifferentSound T (normalizeElement T element) o.ordinaryWords) ∨
    t ∈ keptConfusables T (normalizeElement T element) o ∨
    (t ∈ keptTransliterations T (normalizeElement T element) o ∧
      t ∉ mixedOf T (normalizeElement T element) o) := by
  rw [askedFor, List.mem_append, List.mem_append, List.mem_filter, List.mem_filter,
    editNeighbourhood_normalizeElement, decide_eq_true_eq, decide_eq_true_eq, or_assoc]

section

variable (filled : normalizeElement T element ≠ "")

include filled

theorem exactQueries_eq : (formNeighbourhood T element o).exactQueries =
    dedupeOnFold T (askedFor T (normalizeElement T element) o) (normalizeElement T element) := by
  simp only [formNeighbourhood, if_neg filled]
  rfl

theorem ordinaryWordDifferentSound_eq :
    (formNeighbourhood T element o).ordinaryWordDifferentSound =
      ordinaryWordDifferentSound T (normalizeElement T element) o.ordinaryWords := by
  simp only [formNeighbourhood, if_neg filled]

theorem mixedScriptNotSearched_eq : (formNeighbourhood T element o).mixedScriptNotSearched =
    mixedOf T (normalizeElement T element) o := by
  simp only [formNeighbourhood, if_neg filled]
  rfl

theorem wildcardPatterns_eq : (formNeighbourhood T element o).wildcardPatterns =
    if decide ("phonetic-family" ∈ o.droppedAxes) then []
    else skeletonPatterns T (normalizeElement T element) := by
  simp only [formNeighbourhood, if_neg filled]

theorem covered_of_generated (own : Generated T element o t) (some' : t ≠ "") :
    (∃ q ∈ (formNeighbourhood T element o).exactQueries, fold T q = fold T t) ∨
    fold T t = fold T (normalizeElement T element) ∨
    t ∈ (formNeighbourhood T element o).ordinaryWordDifferentSound ∨
    t ∈ (formNeighbourhood T element o).mixedScriptNotSearched := by
  have kept := fold_ne_empty (T := T) (form_generated own) some'
  rw [exactQueries_eq filled, ordinaryWordDifferentSound_eq filled,
    mixedScriptNotSearched_eq filled]
  have asked : t ∈ askedFor T (normalizeElement T element) o ∨
      t ∈ ordinaryWordDifferentSound T (normalizeElement T element) o.ordinaryWords ∨
      t ∈ mixedOf T (normalizeElement T element) o := by
    rw [mem_askedFor]
    obtain edit | look | trans := own
    · by_cases listed :
        t ∈ ordinaryWordDifferentSound T (normalizeElement T element) o.ordinaryWords
      · exact .inr (.inl listed)
      · exact .inl (.inl ⟨edit, listed⟩)
    · exact .inl (.inr (.inl look))
    · by_cases listed : t ∈ mixedOf T (normalizeElement T element) o
      · exact .inr (.inr listed)
      · exact .inl (.inr (.inr ⟨trans, listed⟩))
  obtain asked | listed := asked
  · obtain empty | same | found :=
      dedupeOnFold_covers T (normalizeElement T element) asked
    · exact absurd empty kept
    · exact .inr (.inl same)
    · exact .inl found
  · exact .inr (.inr listed)

/-- The empty text is one step from a single letter, and from nothing else that is generated. -/
theorem empty_generated_iff :
    Generated T element o "" ↔ (normalizeElement T element).toList.length = 1 := by
  constructor
  · rintro (edit | look | trans)
    · obtain ⟨-, step⟩ := mem_editNeighbourhood.mp edit
      cases step with
      | delete a b c from' is =>
        obtain ⟨rfl, rfl⟩ := List.append_eq_nil_iff.mp is.symm
        rw [from']
        rfl
      | swap a b c d from' is => simp at is
      | replace a b c d letter from' is => simp at is
      | insert a b d letter from' is => simp at is
    · rw [keptConfusables] at look
      split at look
      · cases look
      · exact absurd rfl (ne_empty_of_look look)
    · rw [keptTransliterations] at trans
      split at trans
      · cases trans
      · exact absurd rfl (ne_empty_of_transliteration trans)
  · intro single
    obtain ⟨c, is⟩ := List.length_eq_one_iff.mp single
    refine .inl (mem_editNeighbourhood.mpr ⟨?_, .delete [] [] c is rfl⟩)
    simp [is]

/-- The empty text is asked for under no fold. -/
theorem empty_covered_iff :
    ((∃ q ∈ (formNeighbourhood T element o).exactQueries, fold T q = fold T "") ∨
      fold T "" = fold T (normalizeElement T element) ∨
      "" ∈ (formNeighbourhood T element o).ordinaryWordDifferentSound ∨
      "" ∈ (formNeighbourhood T element o).mixedScriptNotSearched) ↔
    "" ∈ ordinaryWordDifferentSound T (normalizeElement T element) o.ordinaryWords := by
  have nothing : fold T "" = "" := fold_plain (by simp)
  rw [exactQueries_eq filled, ordinaryWordDifferentSound_eq filled,
    mixedScriptNotSearched_eq filled, nothing]
  refine ⟨?_, fun listed => .inr (.inr (.inl listed))⟩
  rintro (⟨q, asked, empty⟩ | same | listed | mixed)
  · exact absurd empty (mem_firstOfFold.mp asked).1
  · rw [fold_plain fun c mem => plain_normalizeElement mem] at same
    exact absurd same.symm filled
  · exact listed
  · rw [mixedOf] at mixed
    split at mixed
    · exact absurd (List.mem_filter.mp mixed).2 (by simp [mixesLatinWithGreekOrCyrillic])
    · cases mixed

/-- A listed word is asked for where it is the first of its fold that another generator asks for. -/
theorem listed_asked_iff
    (listed : t ∈ ordinaryWordDifferentSound T (normalizeElement T element) o.ordinaryWords) :
    t ∈ (formNeighbourhood T element o).exactQueries ↔
      (t ∈ keptConfusables T (normalizeElement T element) o ∨
        (t ∈ keptTransliterations T (normalizeElement T element) o ∧
          t ∉ mixedOf T (normalizeElement T element) o)) ∧
      (sortedSet (askedFor T (normalizeElement T element) o)).find?
        (fun u => fold T u = fold T t) = some t := by
  have edit : t ∈ editNeighbourhood T element := by
    rw [ordinaryWordDifferentSound] at listed
    split at listed
    · cases listed
    · rw [← editNeighbourhood_normalizeElement, ← editNeighbourhood_normalizeElement]
      exact (List.mem_filter.mp listed).1
  have own : fold T t = t := fold_plain (plain_edit edit)
  have other : fold T t ≠ fold T (normalizeElement T element) := by
    rw [own, fold_plain fun c mem => plain_normalizeElement mem]
    rintro rfl
    exact (mem_editNeighbourhood.mp edit).1 rfl
  rw [exactQueries_eq filled]
  constructor
  · intro asked
    refine ⟨?_, (mem_firstOfFold.mp asked).2.2⟩
    obtain ⟨-, unlisted⟩ | also := mem_askedFor.mp (mem_dedupeOnFold asked)
    · exact absurd listed unlisted
    · exact also
  · rintro ⟨also, first⟩
    refine mem_firstOfFold.mpr ⟨?_, by simpa using other, first⟩
    rw [own]
    obtain look | ⟨trans, -⟩ := also
    · rw [keptConfusables] at look
      split at look
      · cases look
      · exact ne_empty_of_look look
    · rw [keptTransliterations] at trans
      split at trans
      · cases trans
      · exact ne_empty_of_transliteration trans

theorem mixed_of_asked (listed : t ∈ (formNeighbourhood T element o).mixedScriptNotSearched) :
    t ∉ (formNeighbourhood T element o).exactQueries := by
  rw [mixedScriptNotSearched_eq filled] at listed
  rw [exactQueries_eq filled]
  intro asked
  have foreign : mixesLatinWithGreekOrCyrillic T t = true := by
    rw [mixedOf] at listed
    split at listed
    · exact (List.mem_filter.mp listed).2
    · cases listed
  rw [mixesLatinWithGreekOrCyrillic, Bool.and_eq_true] at foreign
  obtain ⟨c, mem, other⟩ := List.any_eq_true.mp foreign.2
  have ascii : 128 ≤ c.toNat := by
    by_contra low
    rw [T.foreign c (not_le.mp low)] at other
    cases other
  obtain ⟨-, unlisted⟩ | other' := or_iff_not_imp_right.mpr
    (fun no => (or_assoc.mpr ((mem_askedFor).mp (mem_dedupeOnFold asked))).resolve_left no)
  · exact unlisted listed
  · have look : isLookLetter c = true := by
      obtain ⟨edit, -⟩ | look := other'
      · exact look_of_plain (plain_edit edit c mem)
      · rw [keptConfusables] at look
        split at look
        · cases look
        · exact look_visualConfusable look c mem
    simp only [isLookLetter, Bool.or_eq_true, decide_eq_true_eq] at look
    obtain plain | rfl := look
    · have := (ascii_of_plain plain).1
      omega
    · exact absurd ascii (by decide)

end

theorem formNeighbourhood_empty (empty : normalizeElement T element = "") :
    formNeighbourhood T element o = ⟨"", [], [], [], [], [], [], []⟩ := by
  rw [formNeighbourhood]
  exact if_pos empty

/-- An element without a letter or digit has the letters for its edits, and asks for none. -/
theorem normalizeElement_ne_empty (whole : BandWhole T element o) :
    normalizeElement T element ≠ "" := by
  intro empty
  have letter : Generated T element o "a" := by
    refine .inl (mem_editNeighbourhood.mpr ?_)
    rw [empty]
    exact ⟨by decide, .insert [] [] 'a' (by decide) rfl rfl⟩
  have own : fold T "a" = "a" := fold_plain (List.all_eq_true.mp (by decide))
  have nothing : fold T "" = "" := fold_plain (by simp)
  have covered := whole.covered "a" letter
  rw [formNeighbourhood_empty empty, empty, own, nothing] at covered
  simp at covered

/-- The band is whole exactly where the element has neighbours to ask for, and no listed word is
asked for as another generator's. -/
theorem band_whole_iff : BandWhole T element o ↔
    HasNeighbours T element o ∧ NoListedLookalike T element o := by
  constructor
  · intro whole
    have filled := normalizeElement_ne_empty whole
    refine ⟨⟨filled, fun single => ?_⟩, fun t listed also first => ?_⟩
    · exact (empty_covered_iff filled).mp (whole.covered "" ((empty_generated_iff filled).mpr single))
    · refine whole.unasked t (.inl ?_) ((listed_asked_iff filled listed).mpr ⟨also, first⟩)
      rwa [ordinaryWordDifferentSound_eq filled]
  · rintro ⟨⟨filled, single⟩, unlike⟩
    refine ⟨fun t => mem_editNeighbourhood, fun t own => ?_, ?_, ?_⟩
    · by_cases some' : t = ""
      · subst some'
        exact (empty_covered_iff filled).mpr (single ((empty_generated_iff filled).mp own))
      · exact covered_of_generated filled own some'
    · rw [exactQueries_eq filled, dedupeOnFold]
      exact firstOfFold_pairwise
    · rintro t (listed | mixed) asked
      · rw [ordinaryWordDifferentSound_eq filled] at listed
        obtain ⟨also, first⟩ := (listed_asked_iff filled listed).mp asked
        exact unlike t listed also first
      · exact mixed_of_asked filled mixed asked

end Clearotron.Neighbourhood
