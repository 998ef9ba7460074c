import Clearotron.Neighbourhood.Whole

/-!
# The families of the floor

A term that is asked for stands in the family that claims it first, for each element that asks for
it. Two elements may claim one term for two families; where they do not, one family has it.
-/

namespace Clearotron.Neighbourhood

variable {T : FormText} {element q : String} {o : BandOptions} {el : BandElement}
  {elements : List BandElement} {spacing droppedAxes : List String} {reason family : String}

/-- Elements with the bands that are worked out of them. -/
def HaveBands (T : FormText) (elements : List BandElement) : Prop :=
  ∀ el ∈ elements, ∃ o, el.band = formNeighbourhood T el.element o

structure FamiliesWhole (T : FormText) (elements : List BandElement)
    (spacing droppedAxes : List String) (reason : String) : Prop where
  /-- a term stands in the family that claims it, for each element -/
  claimed : ∀ el ∈ elements, ∀ q ∈ el.band.exactQueries,
    ∃ f ∈ variantFloorFamilies T elements spacing droppedAxes reason,
      f.isSearched = true ∧ f.family = claim T el q ∧ q ∈ f.terms
  /-- and in one alone -/
  one : ∀ el ∈ elements, ∀ q ∈ el.band.exactQueries,
    ∃! f, f ∈ variantFloorFamilies T elements spacing droppedAxes reason ∧
      f.isSearched = true ∧ q ∈ f.terms

/-- Elements that ask for one term claim it for one family. -/
def ClaimsAgree (T : FormText) (elements : List BandElement) : Prop :=
  ∀ el ∈ elements, ∀ el' ∈ elements, ∀ q, q ∈ el.band.exactQueries → q ∈ el'.band.exactQueries →
    claim T el q = claim T el' q

theorem mem_claimed : q ∈ claimed T elements family ↔
    ∃ el ∈ elements, q ∈ el.band.exactQueries ∧ claim T el q = family := by
  simp only [claimed, mem_sortedSet, List.mem_flatMap, List.mem_filter, decide_eq_true_eq]

theorem claim_cases (el : BandElement) (q : String) : claim T el q = "edit-1" ∨
    claim T el q = "visual-confusable" ∨ claim T el q = "transliteration" ∨
      claim T el q = "other" := by
  unfold claim
  split
  · exact .inl rfl
  split
  · exact .inr (.inl rfl)
  split
  · exact .inr (.inr (.inl rfl))
  · exact .inr (.inr (.inr rfl))

theorem claim_of_edit (edit : q ∈ editNeighbourhood T el.element) : claim T el q = "edit-1" :=
  if_pos edit

theorem claim_of_not_edit (other : q ∉ editNeighbourhood T el.element) :
    claim T el q ≠ "edit-1" := by
  unfold claim
  rw [if_neg other]
  split
  · decide
  · split <;> decide

/-- A term that is asked for holds no wildcard. -/
theorem no_wildcard (mem : q ∈ (formNeighbourhood T element o).exactQueries) :
    '*' ∉ q.toList ∧ '?' ∉ q.toList := by
  by_cases empty : normalizeElement T element = ""
  · rw [formNeighbourhood_empty empty] at mem
    cases mem
  · rw [exactQueries_eq empty] at mem
    have own : Generated T element o q := by
      obtain ⟨edit, -⟩ | look | ⟨trans, -⟩ := mem_askedFor.mp (mem_dedupeOnFold mem)
      · exact .inl edit
      · exact .inr (.inl look)
      · exact .inr (.inr trans)
    exact ⟨fun star => (bounds_of_form (form_generated own _ star)).2.1 rfl,
      fun one => (bounds_of_form (form_generated own _ one)).2.2 rfl⟩

theorem wildcard_of_pattern (mem : q ∈ (formNeighbourhood T element o).wildcardPatterns) :
    '*' ∈ q.toList ∨ '?' ∈ q.toList := by
  by_cases empty : normalizeElement T element = ""
  · rw [formNeighbourhood_empty empty] at mem
    cases mem
  · rw [wildcardPatterns_eq empty] at mem
    split at mem
    · cases mem
    · rw [skeletonPatterns] at mem
      split at mem
      · cases mem
      · obtain ⟨p, own, rfl⟩ := List.mem_map.mp mem
        rw [String.toList_ofList]
        exact of_decide_eq_true (List.mem_filter.mp own).2

/-- The family that an element claims a term for. -/
theorem claimed_family (T : FormText) (spacing droppedAxes : List String) (reason : String)
    (mem : el ∈ elements) (asked : q ∈ el.band.exactQueries) :
    ∃ f ∈ variantFloorFamilies T elements spacing droppedAxes reason,
      f.isSearched = true ∧ f.family = claim T el q ∧ q ∈ f.terms := by
  have own : q ∈ claimed T elements (claim T el q) := mem_claimed.mpr ⟨el, mem, asked, rfl⟩
  simp only [variantFloorFamilies]
  obtain is | is | is | is := claim_cases (T := T) el q
  · rw [is] at own ⊢
    exact ⟨_, List.mem_append_left _ (List.mem_append_left _ (List.mem_append_left _
      List.mem_cons_self)), rfl, rfl, own⟩
  · rw [is] at own ⊢
    exact ⟨_, List.mem_append_left _ (List.mem_append_left _ (List.mem_append_left _
      (List.mem_cons_of_mem _ (List.mem_cons_of_mem _ List.mem_cons_self)))), rfl, rfl, own⟩
  · rw [is] at own ⊢
    exact ⟨_, List.mem_append_left _ (List.mem_append_left _ (List.mem_append_left _
      (List.mem_cons_of_mem _ (List.mem_cons_of_mem _ (List.mem_cons_of_mem _
        List.mem_cons_self))))), rfl, rfl, own⟩
  · rw [is] at own ⊢
    refine ⟨⟨"other", none, false, claimed T elements "other"⟩, List.mem_append_left _
      (List.mem_append_left _ (List.mem_append_right _ ?_)), rfl, rfl, own⟩
    rw [if_neg (List.ne_nil_of_mem own)]
    exact List.mem_singleton_self _

/-- A searched family has a term that is asked for because an element claims it. -/
theorem claim_of_family (bands : HaveBands T elements) {f : Family}
    (mem : f ∈ variantFloorFamilies T elements spacing droppedAxes reason)
    (searched : f.isSearched = true) (inside : q ∈ f.terms) (asked : el ∈ elements)
    (own : q ∈ el.band.exactQueries) :
    ∃ el ∈ elements, q ∈ el.band.exactQueries ∧ claim T el q = f.family := by
  simp only [variantFloorFamilies, List.mem_append, List.mem_cons, List.not_mem_nil, or_false]
    at mem
  obtain (((rfl | rfl | rfl | rfl | rfl) | other) | ordinary) | mixed := mem
  · exact mem_claimed.mp inside
  · cases searched
  · exact mem_claimed.mp inside
  · exact mem_claimed.mp inside
  · obtain ⟨el', there, pattern⟩ := List.mem_flatMap.mp (mem_sortedSet.mp inside)
    obtain ⟨o, is⟩ := bands el asked
    obtain ⟨o', is'⟩ := bands el' there
    rw [is] at own
    rw [is'] at pattern
    obtain ⟨star, one⟩ := no_wildcard own
    exact ((wildcard_of_pattern pattern).elim star one).elim
  · split at other
    · cases other
    · obtain rfl := List.mem_singleton.mp other
      exact mem_claimed.mp inside
  · split at ordinary
    · cases ordinary
    · obtain rfl := List.mem_singleton.mp ordinary
      cases searched
  · split at mixed
    · cases mixed
    · obtain rfl := List.mem_singleton.mp mixed
      cases searched

theorem nodup_families :
    ((variantFloorFamilies T elements spacing droppedAxes reason).map Family.family).Nodup := by
  simp only [variantFloorFamilies, List.map_append]
  split <;> split <;> split <;> simp only [List.map_cons, List.map_nil] <;> decide

theorem families_whole_iff (bands : HaveBands T elements) :
    FamiliesWhole T elements spacing droppedAxes reason ↔ ClaimsAgree T elements := by
  constructor
  · intro whole el mem el' mem' q asked asked'
    obtain ⟨f, there, searched, named, inside⟩ := whole.claimed el mem q asked
    obtain ⟨f', there', searched', named', inside'⟩ := whole.claimed el' mem' q asked'
    have same := (whole.one el mem q asked).unique ⟨there, searched, inside⟩
      ⟨there', searched', inside'⟩
    rw [← named, ← named', same]
  · intro agree
    refine ⟨fun el mem q asked => claimed_family T spacing droppedAxes reason mem asked,
      fun el mem q asked => ?_⟩
    obtain ⟨f, there, searched, named, inside⟩ :=
      claimed_family T spacing droppedAxes reason mem asked
    refine ⟨f, ⟨there, searched, inside⟩, fun f' own => ?_⟩
    obtain ⟨el', mem', asked', claims⟩ := claim_of_family bands own.1 own.2.1 own.2.2 mem asked
    refine List.inj_on_of_nodup_map nodup_families own.1 there ?_
    rw [named, ← claims]
    exact agree el' mem' el mem q asked' asked

/-- The form band is the whole neighbourhood of its element, and each term that is asked for is in
one family, exactly where the element has neighbours to ask for, no listed word is asked for as
another generator's, and the elements claim a term for one family. -/
theorem neighbourhood_whole_iff (T : FormText) (element : String) (o : BandOptions)
    (elements : List BandElement) (bands : HaveBands T elements)
    (spacing droppedAxes : List String) (reason : String) :
    BandWhole T element o ∧ FamiliesWhole T elements spacing droppedAxes reason ↔
      (HasNeighbours T element o ∧ NoListedLookalike T element o) ∧ ClaimsAgree T elements :=
  and_congr band_whole_iff (families_whole_iff bands)

/-- A sound code: the consonants, and an `A` for a vowel at the start. -/
def plainSound (s : String) : List String :=
  match s.toList with
  | [] => ["", ""]
  | c :: rest =>
    [String.ofList ((if Shape.isVowel c then 'A' else c.toUpper) ::
      (rest.filter (!Shape.isVowel ·)).map Char.toUpper), ""]

/-- The letters of ASCII, and those that do not decompose. -/
def plainFormText : FormText where
  foldDiacritics s := String.ofList (foldLetters s.toList)
  lower s := String.ofList (s.toList.map Char.toLower)
  nfkc s := s
  isLetterOrNumber := Char.isAlphanum
  scripts := []
  doubleMetaphone := plainSound
  localeLe a b := Text.utf16 a ≤ Text.utf16 b
  nfd s := s
  isLatin := Char.isAlpha
  isGreekOrCyrillic c := 0x370 ≤ c.toNat && c.toNat ≤ 0x52F
  folds _ := rfl
  nfd_ascii _ _ := rfl
  lower_small s small := by
    have same : s.toList.map Char.toLower = s.toList := by
      conv_rhs => rw [← List.map_id s.toList]
      refine List.map_congr_left fun c mem => toLower_of_not_upper ?_
      simp [(small c mem).2]
    rw [same, String.ofList_toList]
  nfd_filled _ filled := filled
  lower_filled s filled none' := by
    refine filled ?_
    have empty : s.toList.map Char.toLower = [] := by simpa using none'
    simpa using empty
  foreign c low := by
    simp only [Bool.and_eq_false_iff, decide_eq_false_iff_not]
    omega

theorem normalizeElement_lon : normalizeElement plainFormText "lon" = "lon" :=
  normalizeElement_plain (List.all_eq_true.mp (by decide))

def withoutScripts (ordinaryWords : List String) : BandOptions where
  droppedAxes := ["transliteration"]
  ordinaryWords

def bandElement (element : String) (ordinaryWords : List String) : BandElement :=
  ⟨element, formNeighbourhood plainFormText element (withoutScripts ordinaryWords)⟩

/-- With no list of ordinary words the band of one element is whole. -/
theorem neighbourhood_whole_lon :
    BandWhole plainFormText "lon" (withoutScripts []) ∧
      FamiliesWhole plainFormText [bandElement "lon" []] [] ["transliteration"] "" := by
  refine (neighbourhood_whole_iff plainFormText "lon" (withoutScripts []) _ (fun el mem =>
    ⟨withoutScripts [], by rw [List.mem_singleton.mp mem]; rfl⟩) [] ["transliteration"] "").mpr
      ⟨⟨⟨?_, ?_⟩, ?_⟩, ?_⟩
  · rw [normalizeElement_lon]
    decide
  · rw [normalizeElement_lon]
    exact fun single => absurd single (by decide)
  · intro t listed
    simp [ordinaryWordDifferentSound, withoutScripts] at listed
  · intro el mem el' mem' q _ _
    rw [List.mem_singleton.mp mem, List.mem_singleton.mp mem']

/-- A generated term that is no spelling of the element itself is asked for. -/
theorem plain_asked {el t : String} {o : BandOptions}
    (plain : ∀ c ∈ el.toList, Shape.isPlain c = true) (filled : el ≠ "")
    (dropped : "transliteration" ∈ o.droppedAxes) (asked : t ∈ askedFor plainFormText el o)
    (other : t ≠ el) (some' : t ≠ "") :
    t ∈ (formNeighbourhood plainFormText el o).exactQueries := by
  have own : normalizeElement plainFormText el = el := normalizeElement_plain plain
  have filled' : normalizeElement plainFormText el ≠ "" := by rwa [own]
  rw [← own] at asked
  have small : ∀ q ∈ askedFor plainFormText (normalizeElement plainFormText el) o,
      fold plainFormText q = q := by
    intro q asked
    obtain ⟨edit, -⟩ | look | ⟨trans, -⟩ := mem_askedFor.mp asked
    · exact fold_plain (plain_edit edit)
    · rw [keptConfusables] at look
      split at look
      · cases look
      refine fold_small fun c mem => ?_
      have letter := look_visualConfusable look c mem
      simp only [isLookLetter, Bool.or_eq_true, decide_eq_true_eq] at letter
      obtain plain | rfl := letter
      · exact ascii_of_plain plain
      · decide
    · rw [keptTransliterations, if_pos dropped] at trans
      cases trans
  rw [exactQueries_eq filled']
  obtain empty | same | ⟨q, there, same⟩ :=
    dedupeOnFold_covers plainFormText (normalizeElement plainFormText el) asked
  · exact absurd ((small _ asked).symm.trans empty) some'
  · rw [small _ asked, own, fold_plain plain] at same
    exact absurd same other
  · rw [small _ asked, small _ (mem_dedupeOnFold there)] at same
    exact same ▸ there

theorem look_asked {el look : String} {o : BandOptions}
    (plain : ∀ c ∈ el.toList, Shape.isPlain c = true)
    (filled : el ≠ "") (kept : "visual-confusable" ∉ o.droppedAxes)
    (dropped : "transliteration" ∈ o.droppedAxes)
    (inside : look ∈ visualConfusables plainFormText el)
    (other : look ≠ el) (some' : look ≠ "") :
    look ∈ (formNeighbourhood plainFormText el o).exactQueries := by
  have own : normalizeElement plainFormText el = el := normalizeElement_plain plain
  refine plain_asked plain filled dropped ?_ other some'
  rw [← own, mem_askedFor, own, keptConfusables, if_neg kept]
  exact .inr (.inl inside)

theorem edit_asked {el edit : String} {o : BandOptions}
    (plain : ∀ c ∈ el.toList, Shape.isPlain c = true) (filled : el ≠ "")
    (dropped : "transliteration" ∈ o.droppedAxes) (none' : o.ordinaryWords = [])
    (inside : edit ∈ editNeighbourhood plainFormText el) (other : edit ≠ el) (some' : edit ≠ "") :
    edit ∈ (formNeighbourhood plainFormText el o).exactQueries := by
  have own : normalizeElement plainFormText el = el := normalizeElement_plain plain
  refine plain_asked plain filled dropped ?_ other some'
  rw [← own, mem_askedFor, own]
  refine .inl ⟨inside, ?_⟩
  simp [ordinaryWordDifferentSound, none']

/-- A shorter word that is one step away holds no new letter. -/
theorem not_oneStep_of_shorter {w t : List Char} {c : Char} (shorter : t.length < w.length)
    (new : c ∈ t) (none' : c ∉ w) : ¬ OneStep w t := by
  intro step
  cases step with
  | delete a b d from' is =>
    subst from' is
    simp only [List.mem_append, List.mem_cons] at new none'
    tauto
  | swap a b d e from' is =>
    subst from' is
    simp at shorter
  | replace a b d e letter from' is =>
    subst from' is
    simp at shorter
  | insert a b d letter from' is =>
    subst from' is
    simp only [List.length_append, List.length_cons] at shorter
    omega

theorem plain_of_all {s : String} (all : s.toList.all Shape.isPlain = true) :
    ∀ c ∈ s.toList, Shape.isPlain c = true := List.all_eq_true.mp all

/-- The ordinary word `ion` is listed as not searched for `lon`, and searched as its look-alike. And
`com` is one edit from `coma` and looks like `corn`, so that it stands in two families. -/
theorem neighbourhood_not_whole :
    ¬ BandWhole plainFormText "lon" (withoutScripts ["ion"]) ∧
      ¬ FamiliesWhole plainFormText [bandElement "coma" [], bandElement "corn" []] []
        ["transliteration"] "" := by
  constructor
  · have filled : normalizeElement plainFormText "lon" ≠ "" := by
      rw [normalizeElement_lon]
      decide
    have edit : "ion" ∈ editNeighbourhood plainFormText "lon" := by
      rw [mem_editNeighbourhood, normalizeElement_lon]
      exact ⟨by decide, .replace [] ['o', 'n'] 'l' 'i' (by decide) rfl rfl⟩
    have listed : "ion" ∈ ordinaryWordDifferentSound plainFormText "lon" ["ion"] := by
      rw [ordinaryWordDifferentSound, normalizeElement_lon, if_neg (by decide)]
      exact List.mem_filter.mpr ⟨edit, by decide +kernel⟩
    refine fun whole => whole.unasked "ion" (.inl ?_) ?_
    · rw [ordinaryWordDifferentSound_eq filled, normalizeElement_lon]
      exact listed
    · exact look_asked (plain_of_all (by decide)) (by decide) (by decide) (by decide)
        (by decide +kernel) (by decide) (by decide)
  · have coma : "com" ∈ editNeighbourhood plainFormText "coma" := by
      rw [mem_editNeighbourhood, normalizeElement_plain (plain_of_all (by decide))]
      exact ⟨by decide, .delete ['c', 'o', 'm'] [] 'a' rfl rfl⟩
    have corn : "com" ∉ editNeighbourhood plainFormText "corn" := by
      rw [mem_editNeighbourhood, normalizeElement_plain (plain_of_all (by decide))]
      exact fun edit => not_oneStep_of_shorter (c := 'm') (by decide) (by decide) (by decide) edit.2
    intro whole
    have comaAsks : "com" ∈ (formNeighbourhood plainFormText "coma"
        (withoutScripts [])).exactQueries :=
      edit_asked (plain_of_all (by decide)) (by decide) (by decide) rfl coma (by decide) (by decide)
    have cornAsks : "com" ∈ (formNeighbourhood plainFormText "corn"
        (withoutScripts [])).exactQueries :=
      look_asked (plain_of_all (by decide)) (by decide) (by decide) (by decide)
        (by decide +kernel) (by decide) (by decide)
    have bands : HaveBands plainFormText [bandElement "coma" [], bandElement "corn" []] := by
      intro el mem
      obtain rfl | mem := List.mem_cons.mp mem
      · exact ⟨withoutScripts [], rfl⟩
      · obtain rfl := List.mem_singleton.mp mem
        exact ⟨withoutScripts [], rfl⟩
    have same := (families_whole_iff bands).mp whole (bandElement "coma" []) List.mem_cons_self
      (bandElement "corn" []) (List.mem_cons_of_mem _ List.mem_cons_self) "com" comaAsks cornAsks
    have comaClaims : claim plainFormText (bandElement "coma" []) "com" = "edit-1" :=
      claim_of_edit coma
    have cornClaims : claim plainFormText (bandElement "corn" []) "com" ≠ "edit-1" :=
      claim_of_not_edit corn
    exact cornClaims (same.symm.trans comaClaims)

end Clearotron.Neighbourhood
