import Clearotron.Neighbourhood.Forms
import Clearotron.Recall.Cases
import Mathlib.Data.List.Dedup

/-!
# The letters of the near forms

An element is plain letters and digits, an edit of it too; a look-alike may hold an `@`, and a form
in another script the letters of the tables. No form holds a mark alone, or a wildcard.
-/

namespace Clearotron.Neighbourhood

open Shape (letters isVowel oneEdit squashRuns)

variable {T : FormText} {w t l : List Char} {s : String} {c d : Char}

/-- One letter dropped, two neighbours swapped, one replaced by a letter, or one put in. -/
inductive OneStep (w t : List Char) : Prop
  | delete (a b : List Char) (c : Char) (from' : w = a ++ c :: b) (is : t = a ++ b)
  | swap (a b : List Char) (c d : Char) (from' : w = a ++ c :: d :: b) (is : t = a ++ d :: c :: b)
  | replace (a b : List Char) (c d : Char) (letter : d ∈ letters) (from' : w = a ++ c :: b)
      (is : t = a ++ d :: b)
  | insert (a b : List Char) (d : Char) (letter : d ∈ letters) (from' : w = a ++ b)
      (is : t = a ++ d :: b)

theorem split_at {i : ℕ} (lt : i < w.length) : w = w.take i ++ w[i] :: w.drop (i + 1) := by
  rw [← List.drop_eq_getElem_cons lt, List.take_append_drop]

theorem oneStep_of_mem (mem : t ∈ oneEdit w) : OneStep w t := by
  simp only [oneEdit, List.mem_filter, List.mem_append, List.mem_map, List.mem_flatMap,
    List.mem_range] at mem
  obtain ⟨((⟨i, lt, rfl⟩ | ⟨i, lt, rfl⟩) | ⟨i, lt, c, ⟨letter, -⟩, rfl⟩) |
    ⟨i, -, c, letter, rfl⟩, -⟩ := mem
  · exact .delete _ _ _ (split_at lt) rfl
  · have lt' : i + 1 < w.length := by omega
    refine .swap (w.take i) (w.drop (i + 2)) w[i] w[i + 1] ?_ ?_
    · rw [← List.drop_eq_getElem_cons lt', ← List.drop_eq_getElem_cons (by omega),
        List.take_append_drop]
    · rw [List.drop_eq_getElem_cons lt', List.drop_eq_getElem_cons (by omega : i < w.length)]
      rfl
  · exact .replace _ _ _ c letter (split_at lt) rfl
  · exact .insert _ _ c letter (List.take_append_drop i w).symm rfl

theorem mem_of_oneStep (step : OneStep w t) (other : t ≠ w) : t ∈ oneEdit w := by
  simp only [oneEdit, List.mem_filter, List.mem_append, List.mem_map, List.mem_flatMap,
    List.mem_range, decide_eq_true_eq]
  refine ⟨?_, other⟩
  cases step with
  | delete a b c from' is =>
    subst from' is
    refine .inl (.inl (.inl ⟨a.length, by simp, ?_⟩))
    simp
  | swap a b c d from' is =>
    subst from' is
    refine .inl (.inl (.inr ⟨a.length, by simp, ?_⟩))
    simp
  | replace a b c d letter from' is =>
    subst from' is
    refine .inl (.inr ⟨a.length, by simp, d, ⟨letter, ?_⟩, by simp⟩)
    have apart : c ≠ d := by
      rintro rfl
      exact other rfl
    simpa using apart
  | insert a b d letter from' is =>
    subst from' is
    exact .inr ⟨a.length, by rw [List.length_append]; omega, d, letter, by simp⟩

theorem mem_oneEdit : t ∈ oneEdit w ↔ t ≠ w ∧ OneStep w t := by
  refine ⟨fun mem => ⟨?_, oneStep_of_mem mem⟩, fun both => mem_of_oneStep both.2 both.1⟩
  simp only [oneEdit, List.mem_filter, decide_eq_true_eq] at mem
  exact mem.2

theorem mem_sortedSet {l : List String} : s ∈ sortedSet l ↔ s ∈ l := by
  rw [sortedSet, (List.perm_insertionSort _ _).mem_iff, List.mem_dedup]

theorem mem_editNeighbourhood {element : String} : s ∈ editNeighbourhood T element ↔
    s.toList ≠ (normalizeElement T element).toList ∧
      OneStep (normalizeElement T element).toList s.toList := by
  rw [editNeighbourhood, mem_sortedSet, Shape.editNeighbourhood, List.mem_map, ← mem_oneEdit]
  constructor
  · rintro ⟨t, mem, rfl⟩
    rwa [String.toList_ofList]
  · exact fun mem => ⟨_, mem, String.ofList_toList⟩

theorem isPlain_iff : Shape.isPlain c = true ↔
    (97 ≤ c.toNat ∧ c.toNat ≤ 122) ∨ (48 ≤ c.toNat ∧ c.toNat ≤ 57) := by
  simp [Shape.isPlain]

theorem ascii_of_plain (plain : Shape.isPlain c = true) : c.toNat < 128 ∧ c.isUpper = false := by
  have range := isPlain_iff.mp plain
  refine ⟨by omega, Bool.eq_false_iff.mpr fun upper => ?_⟩
  have := isUpper_iff.mp upper
  omega

theorem plain_of_letter (letter : c ∈ letters) : Shape.isPlain c = true := by
  have all : letters.all Shape.isPlain = true := by decide
  exact List.all_eq_true.mp all c letter

theorem plain_normalizeElement (mem : c ∈ (normalizeElement T s).toList) :
    Shape.isPlain c = true := by
  rw [normalizeElement, Shape.normalizeElement, String.toList_ofList] at mem
  exact (List.mem_filter.mp mem).2

/-- A text of ASCII is folded as it is. -/
theorem foldLetters_ascii (ascii : ∀ c ∈ l, c.toNat < 128) : foldLetters l = l := by
  have kept : l.filter (!isCombining ·) = l := by
    rw [List.filter_eq_self]
    intro c mem
    have low := ascii c mem
    simp only [isCombining, Bool.not_eq_true', Bool.and_eq_false_iff, decide_eq_false_iff_not]
    omega
  rw [foldLetters, kept]
  induction l with
  | nil => rfl
  | cons c l ih =>
    have low := ascii c List.mem_cons_self
    have own : foldLetter c = [c] := by
      have high : specialLetters.all (fun x => 128 ≤ x.1.toNat) = true := by decide
      have none' : specialLetters.lookup c = none := by
        rw [List.lookup_eq_none_iff]
        intro x mem
        refine bne_iff_ne.mpr fun same => ?_
        have := of_decide_eq_true (List.all_eq_true.mp high x mem)
        rw [← same] at this
        omega
      rw [foldLetter, none']
      rfl
    have later : l.filter (!isCombining ·) = l := by
      rw [List.filter_eq_self] at kept ⊢
      exact fun d mem => kept d (List.mem_cons_of_mem _ mem)
    rw [List.flatMap_cons, own, ih (fun d mem => ascii d (List.mem_cons_of_mem _ mem)) later]
    rfl

theorem foldDiacritics_ascii (ascii : ∀ c ∈ s.toList, c.toNat < 128) : T.foldDiacritics s = s := by
  rw [T.folds, T.nfd_ascii s ascii, foldLetters_ascii ascii, String.ofList_toList]

/-- The fold of a text of small letters is the text. -/
theorem fold_small (small : ∀ c ∈ s.toList, c.toNat < 128 ∧ c.isUpper = false) : fold T s = s := by
  rw [fold, foldDiacritics_ascii fun c mem => (small c mem).1, T.lower_small s small]

theorem fold_plain (plain : ∀ c ∈ s.toList, Shape.isPlain c = true) : fold T s = s :=
  fold_small fun c mem => ascii_of_plain (plain c mem)

theorem normalizeElement_plain (plain : ∀ c ∈ s.toList, Shape.isPlain c = true) :
    normalizeElement T s = s := by
  have folded : T.lower (T.foldDiacritics s) = s := fold_plain plain
  rw [normalizeElement, Shape.normalizeElement, folded, List.filter_eq_self.mpr plain,
    String.ofList_toList]

theorem normalizeElement_normalizeElement :
    normalizeElement T (normalizeElement T s) = normalizeElement T s :=
  normalizeElement_plain fun _ mem => plain_normalizeElement mem

theorem editNeighbourhood_normalizeElement {element : String} :
    editNeighbourhood T (normalizeElement T element) = editNeighbourhood T element := by
  have same := normalizeElement_normalizeElement (T := T) (s := element)
  rw [editNeighbourhood, editNeighbourhood, Shape.editNeighbourhood, Shape.editNeighbourhood]
  exact congrArg (fun x => sortedSet ((oneEdit (String.toList x)).map String.ofList)) same

theorem plain_of_oneStep (step : OneStep w t) (plain : ∀ c ∈ w, Shape.isPlain c = true) :
    ∀ c ∈ t, Shape.isPlain c = true := by
  intro x mem
  cases step with
  | delete a b c from' is =>
    subst from' is
    exact plain x (by simp only [List.mem_append, List.mem_cons] at mem ⊢; tauto)
  | swap a b c d from' is =>
    subst from' is
    exact plain x (by simp only [List.mem_append, List.mem_cons] at mem ⊢; tauto)
  | replace a b c d letter from' is =>
    subst from' is
    by_cases own : x = d
    · exact own ▸ plain_of_letter letter
    · exact plain x (by simp only [List.mem_append, List.mem_cons] at mem ⊢; tauto)
  | insert a b d letter from' is =>
    subst from' is
    by_cases own : x = d
    · exact own ▸ plain_of_letter letter
    · exact plain x (by simp only [List.mem_append, List.mem_cons] at mem ⊢; tauto)

theorem plain_edit {element : String} (mem : s ∈ editNeighbourhood T element) :
    ∀ c ∈ s.toList, Shape.isPlain c = true :=
  plain_of_oneStep (mem_editNeighbourhood.mp mem).2 fun _ => plain_normalizeElement

theorem mem_replaceAll {word by' : List Char} {fuel : ℕ} (mem : c ∈ replaceAll word by' fuel l) :
    c ∈ l ∨ c ∈ by' := by
  induction fuel generalizing l with
  | zero => exact .inl mem
  | succ fuel ih =>
    cases l with
    | nil => cases mem
    | cons x rest =>
      rw [replaceAll] at mem
      split at mem
      · obtain own | later := List.mem_append.mp mem
        · exact .inr own
        · exact (ih later).imp_left List.mem_of_mem_drop
      · obtain rfl | later := List.mem_cons.mp mem
        · exact .inl List.mem_cons_self
        · exact (ih later).imp_left (List.mem_cons_of_mem _)

/-- A letter of a look-alike. -/
def isLookLetter (c : Char) : Bool := Shape.isPlain c || c = '@'

theorem look_of_plain (plain : Shape.isPlain c = true) : isLookLetter c = true := by
  simp [isLookLetter, plain]

theorem mem_of_lookup {β : Type} {table : List (Char × β)} {v : β}
    (is : table.lookup c = some v) : (c, v) ∈ table := by
  obtain ⟨front, back, rfl, -⟩ := List.lookup_eq_some_iff.mp is
  simp

theorem look_homoglyphSub {r : List Char} (mem : r ∈ homoglyphSub c) :
    ∀ d ∈ r, isLookLetter d = true := by
  have all : homoglyphTable.all (fun x => x.2.all fun s => s.toList.all isLookLetter) = true := by
    decide
  obtain ⟨s, own, rfl⟩ := List.mem_map.mp mem
  cases is : homoglyphTable.lookup c with
  | none =>
    rw [is] at own
    cases own
  | some v =>
    rw [is, Option.getD_some] at own
    have each := List.all_eq_true.mp (List.all_eq_true.mp all _ (mem_of_lookup is)) s own
    exact List.all_eq_true.mp each

theorem look_visualConfusable {element : String} (mem : s ∈ visualConfusables T element) :
    ∀ c ∈ s.toList, isLookLetter c = true := by
  have plain : ∀ c ∈ (normalizeElement T element).toList, isLookLetter c = true :=
    fun c mem => look_of_plain (plain_normalizeElement mem)
  have graphs : multigraph.all
      (fun x => x.1.toList.all isLookLetter && x.2.toList.all isLookLetter) = true := by decide
  obtain ⟨t, inside, rfl⟩ := List.mem_map.mp (mem_sortedSet.mp (List.mem_of_mem_take mem))
  intro c own
  rw [String.toList_ofList] at own
  obtain swap | graph := List.mem_append.mp (List.mem_filter.mp inside).1
  · obtain ⟨i, -, there⟩ := List.mem_flatMap.mp swap
    obtain ⟨r, sub, rfl⟩ := List.mem_map.mp there
    rw [List.mem_append, List.mem_append] at own
    obtain front | own | back := own
    · exact plain c (List.mem_of_mem_take front)
    · cases is : ((normalizeElement T element).toList.drop i).head? with
      | none =>
        rw [is] at sub
        cases sub
      | some x =>
        rw [is] at sub
        exact look_homoglyphSub sub c own
    · exact plain c (List.mem_of_mem_drop back)
  · obtain ⟨⟨a, b⟩, pair, there⟩ := List.mem_flatMap.mp graph
    have letters := List.all_eq_true.mp graphs _ pair
    rw [Bool.and_eq_true] at letters
    obtain there | there := List.mem_append.mp there
    · split at there
      · obtain rfl := List.mem_singleton.mp there
        exact (mem_replaceAll own).elim (plain c) (List.all_eq_true.mp letters.2 c)
      · cases there
    · split at there
      · obtain rfl := List.mem_singleton.mp there
        exact (mem_replaceAll own).elim (plain c) (List.all_eq_true.mp letters.1 c)
      · cases there

theorem replaced_ne_nil {word by' : String} {l : List Char} (some' : l ≠ []) (filled : by'.toList ≠ []) :
    replaced word by' l ≠ [] := by
  obtain ⟨c, rest, rfl⟩ := List.exists_cons_of_ne_nil some'
  rw [replaced, List.length_cons, replaceAll]
  split
  · exact List.append_ne_nil_of_left_ne_nil filled _
  · exact List.cons_ne_nil _ _

/-- No letter looks like nothing. -/
theorem homoglyphSub_ne_nil {r : List Char} (mem : r ∈ homoglyphSub c) : r ≠ [] := by
  have all : homoglyphTable.all (fun x => x.2.all fun s => !s.toList.isEmpty) = true := by decide
  obtain ⟨s, own, rfl⟩ := List.mem_map.mp mem
  cases is : homoglyphTable.lookup c with
  | none =>
    rw [is] at own
    cases own
  | some v =>
    rw [is, Option.getD_some] at own
    have each := List.all_eq_true.mp (List.all_eq_true.mp all _ (mem_of_lookup is)) s own
    simpa using each

theorem ne_empty_of_look {element : String} (mem : s ∈ visualConfusables T element) : s ≠ "" := by
  have graphs : multigraph.all
      (fun x => !x.1.toList.isEmpty && !x.2.toList.isEmpty) = true := by decide
  obtain ⟨t, inside, rfl⟩ := List.mem_map.mp (mem_sortedSet.mp (List.mem_of_mem_take mem))
  suffices some' : t ≠ [] by simpa using some'
  obtain swap | graph := List.mem_append.mp (List.mem_filter.mp inside).1
  · obtain ⟨i, -, there⟩ := List.mem_flatMap.mp swap
    obtain ⟨r, sub, rfl⟩ := List.mem_map.mp there
    refine List.append_ne_nil_of_right_ne_nil _ (List.append_ne_nil_of_left_ne_nil ?_ _)
    cases is : ((normalizeElement T element).toList.drop i).head? with
    | none =>
      rw [is] at sub
      cases sub
    | some x =>
      rw [is] at sub
      exact homoglyphSub_ne_nil sub
  · obtain ⟨⟨a, b⟩, pair, there⟩ := List.mem_flatMap.mp graph
    have filled := List.all_eq_true.mp graphs _ pair
    simp only [Bool.and_eq_true, Bool.not_eq_true', List.isEmpty_eq_false_iff] at filled
    -- what holds a group of letters is not empty
    have holds {word : String} (some' : word.toList ≠ [])
        (inside : word.toList <:+: (normalizeElement T element).toList) :
        (normalizeElement T element).toList ≠ [] := by
      intro empty
      rw [empty] at inside
      exact some' (List.infix_nil.mp inside)
    obtain there | there := List.mem_append.mp there
    · split at there
      · rename_i group
        obtain rfl := List.mem_singleton.mp there
        exact replaced_ne_nil (holds filled.1 group) filled.2
      · cases there
    · split at there
      · rename_i group
        obtain rfl := List.mem_singleton.mp there
        exact replaced_ne_nil (holds filled.2 group) filled.1
      · cases there

theorem ne_empty_of_transliteration {element : String} {scripts : List String}
    (mem : s ∈ transliterations T element scripts) : s ≠ "" := by
  obtain ⟨t, inside, rfl⟩ := List.mem_map.mp (mem_sortedSet.mp mem)
  have kept := (List.mem_filter.mp inside).2
  rw [decide_eq_true_eq] at kept
  simpa using kept.2

/-- The letters of the other scripts. -/
def foreignLetters : List Char :=
  diacriticMap.flatMap Prod.snd ++ (cyrillicLookalike.map Prod.snd ++ greekLookalike.map Prod.snd)

def isFormLetter (c : Char) : Bool := isLookLetter c || foreignLetters.contains c

theorem form_of_look (look : isLookLetter c = true) : isFormLetter c = true := by
  simp [isFormLetter, look]

theorem form_accent : ∀ x ∈ diacriticMap, ∀ c ∈ x.2, isFormLetter c = true := by
  have all : diacriticMap.all (fun x => x.2.all isFormLetter) = true := by decide +kernel
  exact fun x row => List.all_eq_true.mp (List.all_eq_true.mp all x row)

theorem form_cyrillic : ∀ x ∈ cyrillicLookalike, isFormLetter x.2 = true := by
  have all : cyrillicLookalike.all (fun x => isFormLetter x.2) = true := by decide +kernel
  exact List.all_eq_true.mp all

theorem form_greek : ∀ x ∈ greekLookalike, isFormLetter x.2 = true := by
  have all : greekLookalike.all (fun x => isFormLetter x.2) = true := by decide +kernel
  exact List.all_eq_true.mp all

theorem form_replaced {word by' : String} (form : ∀ c ∈ l, isFormLetter c = true)
    (own : by'.toList.all isFormLetter = true) :
    ∀ c ∈ replaced word by' l, isFormLetter c = true := fun c mem =>
  (mem_replaceAll mem).elim (form c) (List.all_eq_true.mp own c)

theorem form_lookalike {table : List (Char × Char)} (form : ∀ c ∈ l, isFormLetter c = true)
    (own : ∀ x ∈ table, isFormLetter x.2 = true) :
    ∀ c ∈ lookalike table l, isFormLetter c = true := by
  intro c mem
  obtain ⟨x, inside, rfl⟩ := List.mem_map.mp mem
  cases is : table.lookup x with
  | none => exact form x inside
  | some y => exact own _ (mem_of_lookup is)

theorem form_respelled (form : ∀ c ∈ l, isFormLetter c = true) (mem : t ∈ respelled l) :
    ∀ c ∈ t, isFormLetter c = true := by
  simp only [respelled, List.mem_cons, List.not_mem_nil, or_false] at mem
  obtain is | is | is := mem
  · rw [is]
    exact form_replaced (form_replaced (form_replaced form (by decide)) (by decide)) (by decide)
  · rw [is]
    exact form_replaced (form_replaced (form_replaced form (by decide)) (by decide)) (by decide)
  · rw [is]
    exact form_replaced form (by decide)

theorem form_accented (form : ∀ c ∈ l, isFormLetter c = true) {row : Char × List Char}
    (own : row ∈ diacriticMap) (mem : t ∈ accented l row) : ∀ c ∈ t, isFormLetter c = true := by
  rw [accented] at mem
  split at mem
  · obtain ⟨a, accent, is⟩ := List.mem_map.mp mem
    intro c inside
    rw [← is, List.mem_append, List.mem_cons] at inside
    obtain front | same | back := inside
    · exact form c ((List.takeWhile_sublist _).subset front)
    · exact same ▸ form_accent row own a accent
    · exact form c ((List.dropWhile_sublist _).subset (List.mem_of_mem_drop back))
  · cases mem

theorem form_transliteration {element : String} {scripts : List String}
    (mem : s ∈ transliterations T element scripts) : ∀ c ∈ s.toList, isFormLetter c = true := by
  have plain : ∀ c ∈ (normalizeElement T element).toList, isFormLetter c = true :=
    fun c mem => form_of_look (look_of_plain (plain_normalizeElement mem))
  obtain ⟨t, inside, rfl⟩ := List.mem_map.mp (mem_sortedSet.mp mem)
  rw [String.toList_ofList]
  have there := (List.mem_filter.mp inside).1
  rw [List.mem_append, List.mem_append, List.mem_append] at there
  obtain ((there | there) | there) | there := there
  · split at there
    · exact form_respelled plain there
    · cases there
  · split at there
    · obtain ⟨row, own, there⟩ := List.mem_flatMap.mp there
      exact form_accented plain own there
    · cases there
  · split at there
    · rw [List.mem_singleton.mp there]
      exact form_lookalike plain form_cyrillic
    · cases there
  · split at there
    · rw [List.mem_singleton.mp there]
      exact form_lookalike plain form_greek
    · cases there

theorem bounds_of_form (form : isFormLetter c = true) :
    isCombining c = false ∧ c ≠ '*' ∧ c ≠ '?' := by
  have foreign : foreignLetters.all (fun c => !isCombining c && c != '*' && c != '?') = true := by
    decide
  simp only [isFormLetter, isLookLetter, Bool.or_eq_true, decide_eq_true_eq,
    List.contains_iff_mem] at form
  obtain (plain | rfl) | mem := form
  · have range := isPlain_iff.mp plain
    refine ⟨?_, ?_, ?_⟩
    · simp only [isCombining, Bool.and_eq_false_iff, decide_eq_false_iff_not]
      omega
    · rintro rfl
      exact absurd plain (by decide)
    · rintro rfl
      exact absurd plain (by decide)
  · decide
  · have own := List.all_eq_true.mp foreign c mem
    simp only [Bool.and_eq_true, Bool.not_eq_true', bne_iff_ne] at own
    exact ⟨own.1.1, own.1.2, own.2⟩

theorem foldLetter_ne_nil (c : Char) : foldLetter c ≠ [] := by
  have filled : specialLetters.all (fun x => x.2 ≠ []) = true := by decide
  rw [foldLetter]
  cases is : specialLetters.lookup c with
  | none => exact List.cons_ne_nil _ _
  | some v => exact of_decide_eq_true (List.all_eq_true.mp filled _ (mem_of_lookup is))

/-- A form is not folded away. -/
theorem fold_ne_empty (form : ∀ c ∈ s.toList, isFormLetter c = true) (filled : s ≠ "") :
    fold T s ≠ "" := by
  have some' : s.toList ≠ [] := by simpa using filled
  obtain ⟨c, l, is⟩ := List.exists_cons_of_ne_nil some'
  have mem : c ∈ s.toList := is ▸ List.mem_cons_self
  obtain ⟨d, there, stays⟩ := T.nfd_filled s ⟨c, mem, (bounds_of_form (form c mem)).1⟩
  refine T.lower_filled _ fun none' => ?_
  rw [T.folds] at none'
  have empty : foldLetters (T.nfd s).toList = [] := by simpa using none'
  rw [foldLetters, List.flatMap_eq_nil_iff] at empty
  exact foldLetter_ne_nil d (empty d (List.mem_filter.mpr ⟨there, by simp [stays]⟩))

end Clearotron.Neighbourhood
