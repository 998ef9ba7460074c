import Clearotron.Library.Firsts
import Clearotron.Plan.Compiled
import Clearotron.Register.Answer

/-!
# The goods words of a plan

A goods item loses the words the register reads as operators, and the distances between the
words that stay travel beside them. The terms of a question are told apart once more where the
query is built; the distances are not.
-/

namespace Clearotron

namespace Text

theorem splitOnP_plain {p : Char → Bool} {l piece : List Char} (mem : piece ∈ l.splitOnP p) :
    ∀ c ∈ piece, p c = false := by
  induction l generalizing piece with
  | nil =>
    obtain rfl : piece = [] := by simpa using mem
    simp
  | cons c rest ih =>
    rw [List.splitOnP_cons_eq_if_modifyHead] at mem
    split at mem
    · obtain rfl | mem := List.mem_cons.mp mem
      · simp
      · exact ih mem
    · rename_i plain
      cases pieces : List.splitOnP p rest with
      | nil => simp [pieces] at mem
      | cons first others =>
        rw [pieces] at mem
        obtain rfl | mem := List.mem_cons.mp mem
        · exact List.forall_mem_cons.mpr
            ⟨by simpa using plain, ih (pieces ▸ List.mem_cons_self)⟩
        · exact ih (pieces ▸ List.mem_cons_of_mem _ mem)

/-- The words of a text hold no blank, and are not empty. -/
theorem word_plain {s w : String} (mem : w ∈ words s) :
    w ≠ "" ∧ ∀ c ∈ w.toList, isSpace c = false := by
  obtain ⟨piece, there, rfl⟩ := List.mem_map.mp mem
  obtain ⟨there, some'⟩ := List.mem_filter.mp there
  refine ⟨fun none' => ?_, ?_⟩
  · have empty := congrArg String.toList none'
    rw [String.toList_ofList] at empty
    simp [empty] at some'
  · rw [String.toList_ofList]
    exact splitOnP_plain there

/-- Words set apart by one blank are read back. -/
theorem words_intercalate {ws : List String}
    (plain : ∀ w ∈ ws, w ≠ "" ∧ ∀ c ∈ w.toList, isSpace c = false) :
    words (" ".intercalate ws) = ws := by
  induction ws with
  | nil => rfl
  | cons w ws ih =>
    obtain ⟨⟨some', none'⟩, plain⟩ := List.forall_mem_cons.mp plain
    have kept : w.toList ≠ [] := fun empty => some' (String.toList_inj.mp (by rw [empty]; rfl))
    cases ws with
    | nil => simp [words, List.splitOnP_eq_singleton none', kept]
    | cons w' ws =>
      have ih := ih plain
      rw [words] at ih ⊢
      rw [String.intercalate_cons_cons, String.toList_append, String.toList_append,
        List.append_assoc, show " ".toList = [' '] from rfl, List.singleton_append,
        List.splitOnP_append_cons_of_forall_mem none' ' ' rfl]
      rw [List.filter_cons_of_pos (by simpa using kept), List.map_cons, ih, String.ofList_toList]

end Text

/-- The steps from each number of a list to the next. -/
def steps (l : List Nat) : List Nat := List.zipWith (fun a b => b - a) l l.tail

theorem steps_concat (l : List Nat) (a b : Nat) :
    steps (l ++ [a] ++ [b]) = steps (l ++ [a]) ++ [b - a] := by
  induction l with
  | nil => rfl
  | cons c l ih =>
    cases l with
    | nil => rfl
    | cons d l => simpa [steps] using ih

section

variable {T : PlanText} {item term : String} {gaps : List Nat}

/-- The words of an item that are kept, each with where it stands. -/
def keptAt (T : PlanText) (item : String) : List (String × Nat) :=
  (Text.words item).zipIdx.filter fun p => !isReserved T p.1

/-- The gaps beside a term are the distances its words had in an item. -/
structure Distances (T : PlanText) (item term : String) (gaps : List Nat) : Prop where
  reads : term = " ".intercalate ((keptAt T item).map Prod.fst)
  one_fewer : (Text.words term).length = gaps.length + 1
  gap : ∀ (j : Nat) (a b : String × Nat), (keptAt T item)[j]? = some a →
    (keptAt T item)[j + 1]? = some b → gaps[j]? = some (b.2 - a.2)

/-- What the strip has kept, and what it owes the next word. -/
structure Stripped (kept : List (String × Nat)) (seen : Nat) (s : Stripping) : Prop where
  words : s.words = kept.map Prod.fst
  gaps : s.gaps = steps (kept.map Prod.snd)
  owed : s.owed = match kept.getLast? with
    | none => 1
    | some last => seen - last.2
  before : ∀ p ∈ kept, p.2 < seen

theorem stripped_words (T : PlanText) (tokens : List String) :
    Stripped (tokens.zipIdx.filter fun p => !isReserved T p.1) tokens.length
      (tokens.foldl (Stripping.step T) {}) := by
  induction tokens using List.reverseRecOn with
  | nil => exact ⟨rfl, rfl, rfl, by simp⟩
  | append_singleton tokens tok ih =>
    rw [List.zipIdx_append, List.filter_append, List.foldl_append, List.foldl_cons, List.foldl_nil,
      List.length_append]
    simp only [List.zipIdx_singleton, Nat.zero_add, List.length_singleton]
    generalize tokens.zipIdx.filter (fun p => !isReserved T p.1) = kept at ih ⊢
    generalize tokens.foldl (Stripping.step T) {} = s at ih ⊢
    have empty : s.words = [] ↔ kept = [] := by rw [ih.words, List.map_eq_nil_iff]
    rw [Stripping.step]
    cases reserved : isReserved T tok with
    | true =>
      rw [if_pos rfl, List.filter_cons_of_neg (by simp [reserved]), List.filter_nil,
        List.append_nil]
      refine ⟨ih.words, ih.gaps, ?_, fun p mem => Nat.lt_succ_of_lt (ih.before p mem)⟩
      dsimp only
      rw [ih.owed]
      cases last : kept.getLast? with
      | none => simp [empty.mpr (List.getLast?_eq_none_iff.mp last)]
      | some p =>
        have some' : s.words ≠ [] := fun none' => by simp [empty.mp none'] at last
        have earlier := ih.before p (List.mem_of_getLast? last)
        rw [if_neg some']
        dsimp only
        omega
    | false =>
      rw [if_neg (by simp), List.filter_cons_of_pos (by simp [reserved]), List.filter_nil]
      refine ⟨by simp [ih.words], ?_, by simp, ?_⟩
      · dsimp only
        rw [List.map_append, List.map_singleton]
        rcases List.eq_nil_or_concat' kept with none' | ⟨front, last, rfl⟩
        · simp [empty.mpr none', none', ih.gaps, steps]
        · have owed := ih.owed
          rw [List.getLast?_concat] at owed
          rw [if_neg (by simp [empty]), ih.gaps, owed, List.map_append, List.map_singleton,
            steps_concat]
      · intro p mem
        obtain mem | own := List.mem_append.mp mem
        · exact Nat.lt_succ_of_lt (ih.before p mem)
        · obtain rfl := List.mem_singleton.mp own
          exact Nat.lt_succ_self _

/-- The strip keeps the words an item keeps, and their distances. -/
theorem strip_words (T : PlanText) (item : String) :
    (stripGoodsReservedWords T item).words = (keptAt T item).map Prod.fst ∧
      (stripGoodsReservedWords T item).gaps = steps ((keptAt T item).map Prod.snd) :=
  have stripped := stripped_words T (Text.words item)
  ⟨stripped.words, stripped.gaps⟩

theorem keptAt_plain {p : String × Nat} (mem : p ∈ keptAt T item) :
    p.1 ≠ "" ∧ ∀ c ∈ p.1.toList, Text.isSpace c = false := by
  obtain ⟨there, -⟩ := List.mem_filter.mp mem
  exact Text.word_plain (List.fst_mem_of_mem_zipIdx there)

theorem words_cleaned (T : PlanText) (item : String) :
    Text.words (stripGoodsReservedWords T item).cleaned = (keptAt T item).map Prod.fst := by
  rw [Stripping.cleaned, (strip_words T item).1]
  refine Text.words_intercalate fun w mem => ?_
  obtain ⟨p, there, rfl⟩ := List.mem_map.mp mem
  exact keptAt_plain there

/-- The distances beside a term are those the strip found in an item that reads as it. -/
theorem distances_iff (some' : term ≠ "") : Distances T item term gaps ↔
    (stripGoodsReservedWords T item).cleaned = term ∧
      (stripGoodsReservedWords T item).gaps = gaps := by
  obtain ⟨words, gapsAre⟩ := strip_words T item
  have cleaned : (stripGoodsReservedWords T item).cleaned =
      " ".intercalate ((keptAt T item).map Prod.fst) := by rw [Stripping.cleaned, words]
  have count (h : (stripGoodsReservedWords T item).cleaned = term) :
      (Text.words term).length = (keptAt T item).length := by
    rw [← h, words_cleaned, List.length_map]
  constructor
  · rintro ⟨reads, one, gap⟩
    have same := cleaned.trans reads.symm
    refine ⟨same, ?_⟩
    rw [gapsAre]
    have total := count same
    refine List.ext_getElem? fun j => ?_
    by_cases bound : j + 1 < (keptAt T item).length
    · rw [gap j _ _ (List.getElem?_eq_getElem (Nat.lt_of_succ_lt bound))
        (List.getElem?_eq_getElem bound)]
      simp [steps, List.getElem?_zipWith, List.getElem?_eq_getElem bound,
        List.getElem?_eq_getElem (Nat.lt_of_succ_lt bound)]
    · rw [List.getElem?_eq_none (by simp [steps]; omega), List.getElem?_eq_none (by omega)]
  · rintro ⟨same, rfl⟩
    have total := count same
    have kept : keptAt T item ≠ [] := by
      intro none'
      rw [cleaned, none'] at same
      exact some' same.symm
    have long : 0 < (keptAt T item).length := List.length_pos_iff.mpr kept
    refine ⟨same.symm.trans cleaned, ?_, fun j a b here there => ?_⟩
    · rw [total, gapsAre]
      simp [steps]
      omega
    · rw [gapsAre]
      simp [steps, List.getElem?_zipWith, here, there]

end

/-- What an entry's predicate is put as: the field it asks, the mode, and the term without its
anchors. -/
structure PredicateParams where
  owner : Bool := false
  term : Option String := none
  matchMode : Option String := none

/-- The query of an entry; `number` reads a class as a number, where it is one. -/
def defaultBuildEntryQuery (number : String → Option Nat) (e : Entry) (pp : PredicateParams) :
    Params where
  names := if pp.owner then none else e.terms
  name := if pp.owner ∨ e.terms.isSome then none else pp.term <|> e.term
  owner := if ¬ pp.owner then e.ownerScope else if e.terms.isSome then none else e.term
  owners := if pp.owner then e.terms.getD [] else []
  romanizedNames := if pp.owner then [] else e.romanizedTerms
  goodsText := e.goodsTermsList
  goodsTextGaps := e.goodsTextGaps
  matchMode := pp.matchMode
  niceClasses := e.niceClasses.filterMap number
  regions := some e.regions |>.filter (· ≠ [])

/-- Each goods term of a query has beside it the distances its words had in an item. -/
def DistancesTravel (T : PlanText) (items : List String) (q : Params) : Prop :=
  ∀ (k : Nat) (term : String), q.goodsText[k]? = some term →
    ∃ gaps, q.goodsTextGaps[k]? = some gaps ∧ ∃ item ∈ items, Distances T item term gaps

namespace Text

theorem trim_of_plain_ends {s : String} (front : ∀ c ∈ s.toList.head?, isSpace c = false)
    (back : ∀ c ∈ s.toList.getLast?, isSpace c = false) : trim s = s := by
  have keeps (l : List Char) (head : ∀ c ∈ l.head?, isSpace c = false) :
      l.dropWhile isSpace = l := by
    cases l with
    | nil => rfl
    | cons c l => rw [List.dropWhile_cons_of_neg (by simp [head c rfl])]
  rw [trim, keeps _ front, keeps _ (by simpa using back), List.reverse_reverse,
    String.ofList_toList]

theorem ends_intercalate {ws : List String} (some' : ws ≠ [])
    (plain : ∀ w ∈ ws, w ≠ "" ∧ ∀ c ∈ w.toList, isSpace c = false) :
    (" ".intercalate ws).toList ≠ [] ∧
      (∀ c ∈ (" ".intercalate ws).toList.head?, isSpace c = false) ∧
      ∀ c ∈ (" ".intercalate ws).toList.getLast?, isSpace c = false := by
  induction ws with
  | nil => exact absurd rfl some'
  | cons w ws ih =>
    obtain ⟨⟨own, none'⟩, plain⟩ := List.forall_mem_cons.mp plain
    have kept : w.toList ≠ [] := fun empty => own (String.toList_inj.mp (by rw [empty]; rfl))
    cases ws with
    | nil =>
      rw [String.intercalate_singleton]
      exact ⟨kept, fun c mem => none' c (List.mem_of_mem_head? mem),
        fun c mem => none' c (List.mem_of_getLast? mem)⟩
    | cons w' ws =>
      obtain ⟨some'', -, back⟩ := ih (by simp) plain
      rw [String.intercalate_cons_cons, String.toList_append, String.toList_append]
      generalize (" ".intercalate (w' :: ws)).toList = rest at some'' back
      refine ⟨by simp [kept], fun c mem => none' c ?_, fun c mem => back c ?_⟩
      · rw [List.append_assoc, List.head?_append_of_ne_nil _ kept] at mem
        exact List.mem_of_mem_head? mem
      · rwa [List.getLast?_append_of_ne_nil _ some''] at mem

end Text

section

variable {T : PlanText} {i : CompileInput} {e : Entry}

theorem mem_goodsStripped {x : Stripping} : x ∈ goodsStripped T i ↔
    ∃ item ∈ i.manifest.goodsWords.getD [], stripGoodsReservedWords T item = x ∧ x.cleaned ≠ "" := by
  simp only [goodsStripped, List.mem_filter, List.mem_map, decide_eq_true_eq]
  constructor
  · rintro ⟨⟨item, mem, rfl⟩, some'⟩
    exact ⟨item, mem, rfl, some'⟩
  · rintro ⟨item, mem, rfl, some'⟩
    exact ⟨⟨item, mem, rfl⟩, some'⟩

/-- A term that is sent is the reading of an item. -/
theorem exists_of_sendable {term : String} (mem : term ∈ goodsSendable T i) :
    ∃ x ∈ goodsStripped T i, x.cleaned = term := by
  have mem : term ∈ goodsCleaned T i := by
    rw [goodsSendable] at mem
    split at mem
    · exact mem
    · exact (List.mem_filter.mp mem).1
  obtain ⟨x, there, is⟩ := List.mem_map.mp mem
  exact ⟨x, there, is⟩

theorem trim_sendable {term : String} (mem : term ∈ goodsSendable T i) :
    Text.trim term = term ∧ term ≠ "" := by
  obtain ⟨x, there, rfl⟩ := exists_of_sendable mem
  obtain ⟨item, -, rfl, some'⟩ := mem_goodsStripped.mp there
  refine ⟨?_, some'⟩
  have words := (strip_words T item).1
  have kept : (keptAt T item).map Prod.fst ≠ [] := by
    intro none'
    rw [Stripping.cleaned, words, none'] at some'
    exact some' rfl
  have plain : ∀ w ∈ (keptAt T item).map Prod.fst, w ≠ "" ∧
      ∀ c ∈ w.toList, Text.isSpace c = false := by
    intro w mem
    obtain ⟨p, there, rfl⟩ := List.mem_map.mp mem
    exact keptAt_plain there
  rw [Stripping.cleaned, words]
  obtain ⟨-, front, back⟩ := Text.ends_intercalate kept plain
  exact Text.trim_of_plain_ends front back

/-- The goods words of an entry are told apart once more: each stands where it is first read. -/
theorem goodsTermsList_eq {l : List String} (goods : e.goodsText = l)
    (plain : ∀ t ∈ l, Text.trim t = t ∧ t ≠ "") : e.goodsTermsList = firsts some l := by
  rw [Entry.goodsTermsList, goods]
  clear goods
  induction l using List.reverseRecOn with
  | nil => rfl
  | append_singleton l t ih =>
    rw [List.forall_mem_append] at plain
    obtain ⟨trimmed, some'⟩ := plain.2 t (List.mem_singleton_self t)
    have fresh : isFresh some l t = decide (t ∉ l) := by
      rw [Bool.eq_iff_iff]
      simp only [isFresh, decide_eq_true_eq, reduceCtorEq, false_or, ne_eq, Option.some.injEq]
      exact ⟨fun none' mem => none' t mem rfl, fun no x mem same => no (same ▸ mem)⟩
    have known : t ∈ firsts some l ↔ t ∈ l := by
      refine ⟨fun mem => (firsts_sublist l).subset mem, fun mem => ?_⟩
      obtain ⟨x, there, is⟩ := (exists_mem_firsts some l t).mpr ⟨t, mem, rfl⟩
      obtain rfl := Option.some.inj is
      exact there
    rw [List.foldl_append, List.foldl_cons, List.foldl_nil, ih plain.1, firsts_concat, fresh]
    dsimp only
    rw [trimmed]
    simp [some', known]

/-- What the goods question carries. -/
theorem goods_carried (mem : (goodsAsk T i (goodsSendable T i) "+goods", e) ∈ compiled T i) :
    e.goodsText = goodsSendable T i ∧ e.goodsTextGaps = gapsFor T i (goodsSendable T i) := by
  obtain ⟨part, e', -, isPart, ⟨n, rfl⟩, same⟩ := exists_of_mem_compiled mem
  have rest := (split_of_mem isPart).1
  obtain ⟨guard, is⟩ := exists_withWait (T := T) i.manifest.mark
    (entryOf T i (ordinalQid (qidStem T part) n) part)
  dsimp only at same
  rw [same, is]
  exact ⟨congrArg Ask.goodsText rest, congrArg Ask.goodsTextGaps rest⟩

/-- The distances travel with the goods words exactly where an item that is not the next
different one, as it is when one before it reads as another, stands at the same distances. -/
theorem distances_travel (number : String → Option Nat) (pp : PredicateParams)
    (mem : (goodsAsk T i (goodsSendable T i) "+goods", e) ∈ compiled T i) :
    DistancesTravel T (i.manifest.goodsWords.getD []) (defaultBuildEntryQuery number e pp) ↔
      ∀ (k : Nat) (asked different : String), (goodsSendable T i)[k]? = some asked →
        (firsts some (goodsSendable T i))[k]? = some different → asked ≠ different →
          ∃ x ∈ goodsStripped T i, x.cleaned = different ∧ gapsFor T i [asked] = [x.gaps] := by
  obtain ⟨goods, gaps⟩ := goods_carried mem
  have terms : (defaultBuildEntryQuery number e pp).goodsText = firsts some (goodsSendable T i) :=
    goodsTermsList_eq goods fun t mem => trim_sendable mem
  have beside : (defaultBuildEntryQuery number e pp).goodsTextGaps =
      gapsFor T i (goodsSendable T i) := gaps
  rw [DistancesTravel, terms, beside]
  have at' (k : Nat) (asked : String) (here : (goodsSendable T i)[k]? = some asked)
      (g : List Nat) : (gapsFor T i (goodsSendable T i))[k]? = some g ↔
        gapsFor T i [asked] = [g] := by
    simp [gapsFor, here]
  constructor
  · intro travel k asked different here there apart
    obtain ⟨g, is, item, inItems, distances⟩ := travel k different there
    have some' : different ≠ "" :=
      (trim_sendable ((firsts_sublist _).subset (List.mem_of_getElem? there))).2
    obtain ⟨cleaned, rfl⟩ := (distances_iff some').mp distances
    exact ⟨_, mem_goodsStripped.mpr ⟨item, inItems, rfl, cleaned ▸ some'⟩, cleaned,
      (at' k asked here _).mp is⟩
  · intro same k different there
    have long : k < (goodsSendable T i).length :=
      lt_of_lt_of_le (List.getElem?_eq_some_iff.mp there).1 (firsts_sublist _).length_le
    have mem' := (firsts_sublist _).subset (List.mem_of_getElem? there)
    have some' : different ≠ "" := (trim_sendable mem').2
    obtain ⟨x, inStripped, reads, is⟩ : ∃ x ∈ goodsStripped T i, x.cleaned = different ∧
        gapsFor T i [(goodsSendable T i)[k]] = [x.gaps] := by
      by_cases own : (goodsSendable T i)[k] = different
      · obtain ⟨x, inStripped, reads⟩ := exists_of_sendable mem'
        cases found : (goodsStripped T i).find? (·.cleaned = different) with
        | none =>
          have no := List.find?_eq_none.mp found x inStripped
          simp [reads] at no
        | some y =>
          refine ⟨y, List.mem_of_find?_eq_some found, by simpa using List.find?_some found, ?_⟩
          simp [gapsFor, own, found]
      · exact same k _ different (List.getElem?_eq_getElem long) there own
    obtain ⟨item, inItems, rfl, -⟩ := mem_goodsStripped.mp inStripped
    exact ⟨_, (at' k _ (List.getElem?_eq_getElem long) _).mpr is, item, inItems,
      (distances_iff some').mpr ⟨reads, rfl⟩⟩

/-- A matter whose register takes a list of goods words, phrases among them. -/
def goodsMatter (words : List String) : CompileInput where
  manifest := { mark := "WAVO", dominantElement := "WAVO", goodsWords := some words }
  classes := ["9"]
  capabilities := some { goodsTextSearch := true, goodsTextListOr := true, goodsTextMultiWord := true }

theorem goods_compiled (words : List String)
    (sent : goodsSendable plainPlanText (goodsMatter words) ≠ []) :
    ∃ e, (goodsAsk plainPlanText (goodsMatter words)
      (goodsSendable plainPlanText (goodsMatter words)) "+goods", e) ∈
        compiled plainPlanText (goodsMatter words) := by
  generalize is : goodsAsk plainPlanText (goodsMatter words)
    (goodsSendable plainPlanText (goodsMatter words)) "+goods" = a
  have asked : a ∈ (goodsMatter words).asks plainPlanText := by
    have own : a ∈ goodsAsks plainPlanText (goodsMatter words) := by
      have search : (goodsMatter words).capabilities.any (·.goodsTextSearch) = true := rfl
      have list : (goodsMatter words).capabilities.any (·.goodsTextListOr) = true := rfl
      rw [goodsAsks, if_neg (by simp [sent, search]), if_pos list, is]
      exact List.mem_singleton_self a
    simp [CompileInput.asks, own]
  have other : a.predicate ≠ .exact := by
    rw [← is]
    simp [goodsAsk, goodsMatter, containsFormSubstitution]
  obtain ⟨e, -, mem⟩ := exists_compiled_of_mem asked
    (split_of_ne_exact other ▸ List.mem_singleton_self a)
  exact ⟨_, mem⟩

theorem distances_travel_twoItems : ∃ e,
    (goodsAsk plainPlanText (goodsMatter ["controllers and peripherals", "cases"])
      (goodsSendable plainPlanText (goodsMatter ["controllers and peripherals", "cases"]))
      "+goods", e) ∈ compiled plainPlanText (goodsMatter ["controllers and peripherals", "cases"]) ∧
    DistancesTravel plainPlanText ["controllers and peripherals", "cases"]
      (defaultBuildEntryQuery String.toNat? e {}) := by
  have sent : goodsSendable plainPlanText (goodsMatter ["controllers and peripherals", "cases"]) =
      ["controllers peripherals", "cases"] := by decide +kernel
  obtain ⟨e, mem⟩ := goods_compiled ["controllers and peripherals", "cases"]
    (by simp [sent])
  refine ⟨e, mem, (distances_travel String.toNat? {} mem).mpr ?_⟩
  intro k asked different here there apart
  have same : firsts some ["controllers peripherals", "cases"] =
      ["controllers peripherals", "cases"] := by decide +kernel
  rw [sent] at here there
  rw [same, here] at there
  exact absurd (Option.some.inj there) apart

/-- An item written twice moves the distances of the items after it. -/
theorem repeated_item_moves_the_distances : ¬ ∀ (T : PlanText) (i : CompileInput) (e : Entry)
    (number : String → Option Nat) (pp : PredicateParams),
    (goodsAsk T i (goodsSendable T i) "+goods", e) ∈ compiled T i →
      DistancesTravel T (i.manifest.goodsWords.getD []) (defaultBuildEntryQuery number e pp) := by
  intro all
  have sent : goodsSendable plainPlanText
      (goodsMatter ["phone cases", "phone cases", "bags and belts"]) =
      ["phone cases", "phone cases", "bags belts"] := by decide +kernel
  obtain ⟨e, mem⟩ := goods_compiled ["phone cases", "phone cases", "bags and belts"]
    (by simp [sent])
  have travel := all _ _ e String.toNat? {} mem
  obtain ⟨goods, gaps⟩ := goods_carried mem
  have terms : (defaultBuildEntryQuery String.toNat? e {}).goodsText =
      ["phone cases", "bags belts"] := by
    dsimp only [defaultBuildEntryQuery, Entry.goodsTermsList]
    rw [goods, sent]
    decide +kernel
  obtain ⟨g, is, item, inItems, distances⟩ := travel 1 "bags belts" (by rw [terms]; rfl)
  have beside : (defaultBuildEntryQuery String.toNat? e {}).goodsTextGaps = [[1], [1], [2]] := by
    dsimp only [defaultBuildEntryQuery]
    rw [gaps, sent]
    decide +kernel
  obtain rfl : [1] = g := by simpa [beside] using is
  obtain ⟨reads, are⟩ := (distances_iff (by decide)).mp distances
  have only : ∀ item ∈ ["phone cases", "phone cases", "bags and belts"],
      ¬ ((stripGoodsReservedWords plainPlanText item).cleaned = "bags belts" ∧
        (stripGoodsReservedWords plainPlanText item).gaps = [1]) := by decide +kernel
  exact only item inItems ⟨reads, are⟩

end

end Clearotron
