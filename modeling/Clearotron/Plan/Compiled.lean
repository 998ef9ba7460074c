import Clearotron.Library.Sorted
import Clearotron.Plan.Compile

/-!
# What a compile leaves of each push

The funnel keeps the pushes in their order and gives each a qid that no other has. A qid spells
out its push, so what suffix it was pushed with can be read back.
-/

namespace Clearotron

section

variable (T : PlanText)

theorem dashed_plain (begun owed : Bool) (l : List Char) :
    ∀ c ∈ dashed begun owed l, isPlain c = true ∨ c = '-' := by
  induction l generalizing begun owed with
  | nil => simp [dashed]
  | cons c rest ih =>
    intro d mem
    rw [dashed] at mem
    split at mem
    · rename_i plain
      obtain mem | mem := List.mem_append.mp mem
      · split at mem
        · simp only [List.mem_cons, List.not_mem_nil, or_false] at mem
          exact mem.elim .inr fun is => .inl (is ▸ plain)
        · exact .inl (List.mem_singleton.mp mem ▸ plain)
      · exact ih true false d mem
    · exact ih begun true d mem

theorem hexDigit_plain : ∀ n < 16, isPlain (hexDigit n) = true := by decide

/-- An identity is small letters, figures and dashes. -/
theorem termIdentity_plain (s : String) :
    ∀ c ∈ (termIdentity T s).toList, isPlain c = true ∨ c = '-' := by
  intro c mem
  rw [termIdentity] at mem
  split at mem
  · rw [latinFold, Text.slice, String.toList_ofList, String.toList_ofList] at mem
    exact dashed_plain _ _ _ c (List.mem_of_mem_take mem)
  · rw [String.toList_append] at mem
    obtain mem | mem := List.mem_append.mp mem
    · obtain rfl | rfl : c = 'q' ∨ c = '-' := by simpa using mem
      · exact .inl rfl
      · exact .inr rfl
    · rw [fingerprint8, String.toList_ofList] at mem
      obtain ⟨k, -, rfl⟩ := List.mem_map.mp mem
      exact .inl (hexDigit_plain _ (Nat.mod_lt _ (by decide)))

/-- A suffix: none, or one that is set off by a plus and holds neither a plus nor an ordinal. -/
def SuffixOk (suffix : String) : Prop :=
  suffix = "" ∨ ∃ body : List Char, suffix.toList = '+' :: body ∧ '+' ∉ body ∧ '#' ∉ body

theorem ordinalQid_injective (stem : String) : Function.Injective (ordinalQid stem) := by
  intro m n same
  cases m with
  | zero =>
    cases n with
    | zero => rfl
    | succ n =>
      have lengths := congrArg (fun s => s.toList.length) same
      simp [ordinalQid] at lengths
  | succ m =>
    cases n with
    | zero =>
      have lengths := congrArg (fun s => s.toList.length) same
      simp [ordinalQid] at lengths
    | succ n =>
      have tails := congrArg String.toList same
      simp only [ordinalQid, String.toList_append, List.append_assoc, List.append_cancel_left_eq,
        Nat.toString_eq_repr, Nat.toList_repr] at tails
      have numbers := congrArg (fun l => Nat.ofDigitChars 10 l 0) tails
      simp only [Nat.ofDigitChars_ten_toDigits] at numbers
      omega

theorem qidStem_toList (a : Ask) : (qidStem T a).toList =
    (a.axis.text ++ ":" ++ a.predicate.text ++ ":" ++ termIdentity T a.firstTerm).toList ++
      a.qidSuffix.toList := by
  simp [qidStem]

/-- What the compiler pushes with: an axis and a predicate of the plan, and a suffix as above. -/
structure Ask.Named (a : Ask) : Prop where
  axis : a.axis ∈ registerAxes
  predicate : a.predicate ∈ planPredicates
  suffix : SuffixOk a.qidSuffix

variable {T} {a : Ask}

/-- Before its suffix a qid holds neither mark. -/
theorem Ask.Named.front (named : a.Named) : ∀ c ∈
    (a.axis.text ++ ":" ++ a.predicate.text ++ ":" ++ termIdentity T a.firstTerm).toList,
      c ≠ '+' ∧ c ≠ '#' := by
  have axis : registerAxes.all (·.text.toList.all fun c => c ≠ '+' && c ≠ '#') = true := by
    decide
  have predicate : planPredicates.all (·.text.toList.all fun c => c ≠ '+' && c ≠ '#') = true := by
    decide
  intro c mem
  simp only [String.toList_append, List.mem_append] at mem
  obtain (((mem | mem) | mem) | mem) | mem := mem
  · simpa using List.all_eq_true.mp (List.all_eq_true.mp axis _ named.axis) c mem
  · obtain rfl : c = ':' := by simpa using mem
    decide
  · simpa using List.all_eq_true.mp (List.all_eq_true.mp predicate _ named.predicate) c mem
  · obtain rfl : c = ':' := by simpa using mem
    decide
  · obtain plain | rfl := termIdentity_plain T _ c mem
    · exact ⟨fun is => by simp [is, isPlain] at plain, fun is => by simp [is, isPlain] at plain⟩
    · decide

/-- The stem of a spelling ends with the suffix of the band. -/
theorem stem_isBand (named : a.Named) :
    "mrof+".toList <+: (qidStem T a).toList.reverse ↔ a.qidSuffix = "+form" := by
  have front := named.front (T := T)
  rw [qidStem_toList, List.reverse_append]
  obtain none' | ⟨body, is, noPlus, -⟩ := named.suffix
  · simp only [none', String.toList_empty, List.reverse_nil, List.nil_append]
    refine ⟨fun pre => absurd rfl (front '+' ?_).1, fun is => by simp at is⟩
    exact List.mem_reverse.mp (pre.subset (by decide))
  · have read : a.qidSuffix = "+form" ↔ body.reverse = "mrof".toList := by
      rw [← String.toList_inj, is]
      constructor
      · intro same
        obtain rfl : body = "form".toList := (List.cons.inj same).2
        rfl
      · intro same
        rw [← List.reverse_reverse body, same]
        rfl
    have upTo (l : List Char) (rest : List Char) (no : '+' ∉ l) :
        (l ++ '+' :: rest).takeWhile (· ≠ '+') = l := by
      have others : ∀ c ∈ l, decide (c ≠ '+') = true := fun c mem =>
        decide_eq_true fun plus : c = '+' => no (plus ▸ mem)
      rw [List.takeWhile_append_of_pos others]
      simp
    rw [read, is, List.reverse_cons, List.append_assoc, List.singleton_append]
    constructor
    · rintro ⟨rest, same⟩
      have both := congrArg (List.takeWhile (· ≠ '+')) same
      rw [upTo body.reverse _ (by simpa using noPlus)] at both
      rw [← both]
      exact (upTo "mrof".toList rest (by decide)).symm
    · intro same
      rw [same]
      exact ⟨_, rfl⟩

/-- A stem holds no ordinal of its own. -/
theorem stem_no_ordinal (named : a.Named) : '#' ∉ (qidStem T a).toList := by
  rw [qidStem_toList]
  intro mem
  obtain mem | mem := List.mem_append.mp mem
  · exact (named.front '#' mem).2 rfl
  · obtain none' | ⟨body, is, -, noOrdinal⟩ := named.suffix
    · simp [none'] at mem
    · rw [is] at mem
      exact noOrdinal (by simpa using mem)

/-- Under every name it may be given, an entry is of the band exactly where it was pushed as one. -/
theorem isSpellingBandQid_iff (named : a.Named) (n : Nat) :
    isSpellingBandQid (ordinalQid (qidStem T a) n) = true ↔ a.qidSuffix = "+form" := by
  rw [← stem_isBand (T := T) named]
  simp only [isSpellingBandQid, Bool.or_eq_true, Bool.and_eq_true, List.isPrefixOf_iff_prefix,
    decide_eq_true_eq]
  cases n with
  | zero =>
    refine ⟨fun or => or.elim id fun ordinal => ?_, .inl⟩
    have there : '#' ∈ (qidStem T a).toList.reverse :=
      (List.dropWhile_sublist _).subset (ordinal.2.subset (by decide))
    exact absurd (List.mem_reverse.mp there) (stem_no_ordinal named)
  | succ n =>
    let digits := (toString (n + 2)).toList.reverse
    have back : (ordinalQid (qidStem T a) (n + 1)).toList.reverse =
        digits ++ '#' :: (qidStem T a).toList.reverse := by
      simp [ordinalQid, digits]
    have isDigit : ∀ c ∈ digits, c.isDigit = true := by
      intro c mem
      rw [List.mem_reverse, Nat.toString_eq_repr, Nat.toList_repr] at mem
      exact Nat.isDigit_of_mem_toDigits (by decide) (by decide) mem
    obtain ⟨first, rest, are⟩ : ∃ first rest, digits = first :: rest := by
      refine List.exists_cons_of_ne_nil ?_
      simp [digits, Nat.toDigits_ne_nil]
    have ordinal : (digits ++ '#' :: (qidStem T a).toList.reverse).takeWhile Char.isDigit ≠ [] := by
      rw [List.takeWhile_append_of_pos isDigit, are]
      simp
    have stem : (digits ++ '#' :: (qidStem T a).toList.reverse).dropWhile Char.isDigit =
        '#' :: (qidStem T a).toList.reverse := by
      rw [List.dropWhile_append_of_pos isDigit]
      rfl
    have front : ¬ "mrof+".toList <+: digits ++ '#' :: (qidStem T a).toList.reverse := by
      rw [are]
      intro pre
      have same : 'm' = first := (List.cons_prefix_cons.mp pre).1
      have digit := isDigit first (by simp [are])
      rw [← same] at digit
      exact absurd digit (by decide)
    rw [back, stem]
    refine ⟨fun or => or.elim (absurd · front) fun both => (List.cons_prefix_cons.mp both.2).2,
      fun pre => .inr ⟨ordinal, List.cons_prefix_cons.mpr ⟨rfl, pre⟩⟩⟩

end

section

variable {T : PlanText} {i : CompileInput} {a part : Ask}

theorem suffixOk_goods (word : String) : SuffixOk ("+goods-" ++ termIdentity T word) := by
  refine .inr ⟨"goods-".toList ++ (termIdentity T word).toList, by simp, ?_, ?_⟩ <;>
  · intro mem
    obtain mem | mem := List.mem_append.mp mem
    · exact absurd mem (by decide)
    · exact (termIdentity_plain T word _ mem).elim (by decide) (by decide)

theorem isNiceClass_plain {s : String} (nice : isNiceClass s = true) :
    '+' ∉ s.toList ∧ '#' ∉ s.toList := by
  unfold isNiceClass at nice
  split at nice
  · rename_i d is
    rw [is]
    constructor <;>
    · intro mem
      obtain rfl := List.mem_singleton.mp mem
      exact absurd nice (by decide)
  · rename_i t d is
    rw [is]
    constructor <;>
    · intro mem
      simp only [List.mem_cons, List.not_mem_nil, or_false] at mem
      obtain rfl | rfl := mem <;> simp at nice
  · cases nice

theorem addedClassRows_nice (row : AddedClass) (mem : row ∈ i.addedClassRows) :
    isNiceClass row.cls = true := by
  rw [CompileInput.addedClassRows] at mem
  generalize i.addedClasses = raws at mem
  induction raws using List.reverseRecOn with
  | nil => cases mem
  | append_singleton raws raw ih =>
    rw [List.foldl_append, List.foldl_cons, List.foldl_nil] at mem
    dsimp only at mem
    split at mem
    · rename_i ok
      obtain mem | own := List.mem_append.mp mem
      · exact ih mem
      · obtain rfl := List.mem_singleton.mp own
        exact ok.1
    · exact ih mem

theorem suffixOk_class (row : AddedClass) (mem : row ∈ i.addedClassRows) :
    SuffixOk ("+class" ++ row.cls) := by
  obtain ⟨noPlus, noOrdinal⟩ := isNiceClass_plain (addedClassRows_nice row mem)
  refine .inr ⟨"class".toList ++ row.cls.toList, by simp, ?_, ?_⟩
  · simpa using noPlus
  · simpa using noOrdinal

theorem markPredicate_mem (t : String) : markPredicate t ∈ planPredicates := by
  unfold markPredicate
  split <;> decide

theorem variantPredicate_mem (v : Variant) : variantPredicate v ∈ planPredicates := by
  unfold variantPredicate
  split
  · decide
  · split
    · decide
    · exact markPredicate_mem _

theorem formAsk_of_mem {queries : List String} (mem : a ∈ bandAsks T i queries) :
    a.axis = .primarySweep ∧ a.predicate = .exact ∧ a.qidSuffix = "+form" := by
  obtain mem | mem := List.mem_append.mp mem <;>
  · obtain ⟨_, -, rfl⟩ := List.mem_map.mp mem
    exact ⟨rfl, rfl, rfl⟩

theorem scriptAsk_of_mem (mem : a ∈ scriptAsks T i) :
    ∃ v offices, a = (scriptAsk v).atOffices offices := by
  obtain ⟨v, -, is⟩ := List.mem_filterMap.mp mem
  split at is
  · exact ⟨v, [], (Option.some.inj is).symm⟩
  · split at is
    · obtain ⟨markets, -, rfl⟩ := Option.map_eq_some_iff.mp is
      exact ⟨v, _, rfl⟩
    · exact ⟨v, [], (Option.some.inj is).symm⟩

theorem atOffices_fields (a : Ask) (offices : List String) :
    { a.atOffices offices with regions := a.regions } = a := by
  unfold Ask.atOffices
  split <;> rfl

theorem Ask.Named.atOffices (named : a.Named) (offices : List String) :
    (a.atOffices offices).Named := by
  unfold Ask.atOffices
  split
  · exact named
  · exact ⟨named.axis, named.predicate, named.suffix⟩

/-- Every push is on an axis of the plan, with a predicate of it and a suffix that reads back. -/
theorem asks_named (mem : a ∈ i.asks T) : a.Named := by
  have byDefault : Predicate.default ∈ planPredicates := by decide
  have wildcard : Predicate.wildcard ∈ planPredicates := by decide
  have merch : SuffixOk "+merch" := .inr ⟨"merch".toList, rfl, by decide, by decide⟩
  have primary : Axis.primarySweep ∈ registerAxes := by decide
  have plain : SuffixOk "" := .inl rfl
  simp only [CompileInput.asks, List.mem_append, List.mem_cons] at mem
  obtain (((((mem | rfl | mem) | rfl | mem) | mem) | mem) | rfl | mem) | mem := mem
  · obtain ⟨el, -, rfl⟩ := List.mem_map.mp mem
    have probe : Axis.saturationProbe ∈ registerAxes := by decide
    refine ⟨probe, ?_, plain⟩
    dsimp only [probeAsk]
    split <;> decide
  · refine ⟨primary, ?_, plain⟩
    dsimp only [identicalAsk]
    exact markPredicate_mem i.manifest.mark
  · obtain ⟨v, -, rfl⟩ := List.mem_map.mp mem
    refine ⟨primary, ?_, plain⟩
    dsimp only [variantAsk]
    exact variantPredicate_mem v
  · exact ⟨primary, byDefault, plain⟩
  · have own (words : List String) (suffix : String) (ok : SuffixOk suffix) :
        (goodsAsk T i words suffix).Named := by
      refine ⟨primary, ?_, ok⟩
      dsimp only [goodsAsk]
      split <;> decide
    rw [goodsAsks] at mem
    split at mem
    · cases mem
    · split at mem
      · obtain rfl := List.mem_singleton.mp mem
        exact own _ _ (.inr ⟨"goods".toList, rfl, by decide, by decide⟩)
      · obtain ⟨word, -, rfl⟩ := List.mem_map.mp mem
        exact own _ _ (suffixOk_goods word)
  · obtain ⟨e, -, mem⟩ := List.mem_flatMap.mp mem
    obtain ⟨axis, predicate, suffix⟩ := formAsk_of_mem mem
    refine ⟨axis ▸ primary, predicate ▸ by decide, suffix ▸ ?_⟩
    exact .inr ⟨"form".toList, rfl, by decide, by decide⟩
  · obtain ⟨w, -, rfl⟩ := List.mem_map.mp mem
    exact ⟨primary, wildcard, plain⟩
  · refine ⟨primary, ?_, merch⟩
    dsimp only [merchAsk, identicalAsk]
    exact markPredicate_mem i.manifest.mark
  · obtain ⟨row, there, rfl⟩ := List.mem_map.mp mem
    refine ⟨primary, ?_, suffixOk_class row there⟩
    dsimp only [identicalAsk]
    exact markPredicate_mem i.manifest.mark
  · obtain ⟨v, offices, rfl⟩ := scriptAsk_of_mem mem
    have script : Axis.transliterationNumeric ∈ registerAxes := by decide
    refine Ask.Named.atOffices ⟨script, ?_, plain⟩ offices
    dsimp only [scriptAsk]
    exact markPredicate_mem v.value

/-- What a part has of its push: all but the predicate, the names and the stamp of a move. -/
def Ask.rest (a : Ask) : Ask :=
  { a with predicate := .exact, term := none, terms := none, exactSubstituted := false }

/-- A push is handed on as it is, or is exact and its phrases are moved. -/
theorem split_cases (caps : Option PlanCapabilities) (a : Ask) :
    (a.predicate ≠ .exact ∨ a.names.filter (isMoved T caps) = []) ∧ a.split T caps = [a] ∨
      a.predicate = .exact ∧ a.names.filter (isMoved T caps) ≠ [] ∧
        a.split T caps = a.kept (a.names.filter (· ∉ a.names.filter (isMoved T caps))) ++
          (a.names.filter (isMoved T caps)).map a.moved := by
  rw [Ask.split, exactOperatorEntries]
  by_cases none' : a.predicate ≠ .exact ∨ a.names.filter (isMoved T caps) = []
  · exact .inl ⟨none', by rw [if_pos none']; rfl⟩
  · rw [not_or, not_not] at none'
    exact .inr ⟨none'.1, none'.2, by rw [if_neg (by simp [none'])]; rfl⟩

theorem split_of_ne_exact {caps : Option PlanCapabilities} (other : a.predicate ≠ .exact) :
    a.split T caps = [a] := by
  obtain ⟨-, is⟩ | ⟨exact', -⟩ := split_cases (T := T) caps a
  · exact is
  · exact absurd exact' other

theorem kept_of_mem {names : List String} (mem : part ∈ a.kept names) :
    part.rest = a.rest ∧ part.predicate = a.predicate := by
  match names with
  | [] => cases mem
  | [t] =>
    obtain rfl := List.mem_singleton.mp mem
    exact ⟨rfl, rfl⟩
  | t :: t' :: names =>
    obtain rfl := List.mem_singleton.mp mem
    exact ⟨rfl, rfl⟩

theorem split_of_mem {caps : Option PlanCapabilities} (mem : part ∈ a.split T caps) :
    part.rest = a.rest ∧ (part.predicate = a.predicate ∨ part.predicate = .default) := by
  obtain ⟨-, is⟩ | ⟨-, -, is⟩ := split_cases (T := T) caps a
  · rw [is] at mem
    obtain rfl := List.mem_singleton.mp mem
    exact ⟨rfl, .inl rfl⟩
  · rw [is] at mem
    obtain mem | mem := List.mem_append.mp mem
    · obtain ⟨rest, predicate⟩ := kept_of_mem mem
      exact ⟨rest, .inl predicate⟩
    · obtain ⟨t, -, rfl⟩ := List.mem_map.mp mem
      exact ⟨rfl, .inr rfl⟩

theorem Ask.Named.of_split {caps : Option PlanCapabilities} (named : a.Named)
    (mem : part ∈ a.split T caps) : part.Named := by
  obtain ⟨rest, predicate⟩ := split_of_mem mem
  have axis : part.rest.axis = a.rest.axis := congrArg Ask.axis rest
  have suffix : part.rest.qidSuffix = a.rest.qidSuffix := congrArg Ask.qidSuffix rest
  change part.axis = a.axis at axis
  change part.qidSuffix = a.qidSuffix at suffix
  refine ⟨axis ▸ named.axis, ?_, suffix ▸ named.suffix⟩
  obtain same | moved := predicate
  · exact same ▸ named.predicate
  · exact moved ▸ by decide

/-- An entry is what the funnel made of a part, under some try of its name. -/
def IsEntryOf (T : PlanText) (i : CompileInput) (part : Ask) (e : Entry) : Prop :=
  ∃ n, e = entryOf T i (ordinalQid (qidStem T part) n) part

/-- The funnel keeps the pushes in their order. -/
theorem pushAll_forall₂ (taken : List String) (parts : List (Ask × Ask)) :
    List.Forall₂ (fun x p => p.1 = x.1 ∧ IsEntryOf T i x.2 p.2) parts (pushAll T i taken parts) := by
  induction parts generalizing taken with
  | nil => exact .nil
  | cons x parts ih =>
    obtain ⟨n, is⟩ := exists_firstFree taken (ordinalQid (qidStem T x.2))
    exact .cons ⟨rfl, n, by rw [is]⟩ (ih _)

/-- No two entries have one name. -/
theorem pushAll_nodup (taken : List String) (parts : List (Ask × Ask)) :
    ((pushAll T i taken parts).map fun p => p.2.qid).Nodup ∧
      ∀ p ∈ pushAll T i taken parts, p.2.qid ∉ taken := by
  induction parts generalizing taken with
  | nil => simp [pushAll]
  | cons x parts ih =>
    obtain ⟨nodup, apart⟩ := ih (firstFree taken (ordinalQid (qidStem T x.2)) :: taken)
    rw [pushAll, List.map_cons, List.nodup_cons]
    refine ⟨⟨?_, nodup⟩, List.forall_mem_cons.mpr ⟨?_, fun p mem own => ?_⟩⟩
    · intro mem
      obtain ⟨p, there, is⟩ := List.mem_map.mp mem
      exact apart p there (is ▸ List.mem_cons_self)
    · exact firstFree_not_mem taken (ordinalQid_injective _)
    · exact apart p mem (List.mem_cons_of_mem _ own)

/-- Whether an entry waits changes nothing else of it. -/
theorem exists_withWait (mark : String) (e : Entry) :
    ∃ guard, withWait T mark e = { e with guard } := by
  unfold withWait
  split
  · exact ⟨_, rfl⟩
  · exact ⟨e.guard, rfl⟩

@[simp] theorem withWait_qid (mark : String) (e : Entry) : (withWait T mark e).qid = e.qid := by
  obtain ⟨guard, is⟩ := exists_withWait (T := T) mark e
  rw [is]

@[simp] theorem withWait_axis (mark : String) (e : Entry) : (withWait T mark e).axis = e.axis := by
  obtain ⟨guard, is⟩ := exists_withWait (T := T) mark e
  rw [is]

@[simp] theorem withWait_term (mark : String) (e : Entry) : (withWait T mark e).term = e.term := by
  obtain ⟨guard, is⟩ := exists_withWait (T := T) mark e
  rw [is]

@[simp] theorem withWait_names (mark : String) (e : Entry) :
    (withWait T mark e).names = e.names := by
  obtain ⟨guard, is⟩ := exists_withWait (T := T) mark e
  rw [is]
  rfl

@[simp] theorem withWait_niceClasses (mark : String) (e : Entry) :
    (withWait T mark e).niceClasses = e.niceClasses := by
  obtain ⟨guard, is⟩ := exists_withWait (T := T) mark e
  rw [is]

theorem mem_compiled {p : Ask × Entry} : p ∈ compiled T i ↔
    ∃ q ∈ pushAll T i [] (i.parts T), p = (q.1, withWait T i.manifest.mark q.2) := by
  simp [compiled, eq_comm]

/-- Every entry of a plan is one of a part of a push, and waits or not. -/
theorem exists_of_mem_compiled {p : Ask × Entry} (mem : p ∈ compiled T i) :
    ∃ part e, p.1 ∈ i.asks T ∧ part ∈ p.1.split T i.capabilities ∧ IsEntryOf T i part e ∧
      p.2 = withWait T i.manifest.mark e := by
  obtain ⟨q, there, rfl⟩ := mem_compiled.mp mem
  obtain ⟨k, bound, rfl⟩ := List.getElem_of_mem there
  have each := List.forall₂_iff_get.mp (pushAll_forall₂ (T := T) (i := i) [] (i.parts T))
  have bound' : k < (i.parts T).length := each.1 ▸ bound
  obtain ⟨source, isEntry⟩ := each.2 k bound' bound
  have here : (i.parts T)[k] ∈ i.parts T := List.getElem_mem bound'
  obtain ⟨a, asked, mem⟩ := List.mem_flatMap.mp here
  obtain ⟨part, isPart, is⟩ := List.mem_map.mp mem
  have same : a = (pushAll T i [] (i.parts T))[k].1 := (congrArg Prod.fst is).trans source.symm
  refine ⟨part, _, same ▸ asked, same ▸ isPart, ?_, rfl⟩
  have second : part = ((i.parts T).get ⟨k, bound'⟩).2 := congrArg Prod.snd is
  exact second ▸ isEntry

/-- Every part of every push has its entry. -/
theorem exists_compiled_of_mem (asked : a ∈ i.asks T) (isPart : part ∈ a.split T i.capabilities) :
    ∃ e, IsEntryOf T i part e ∧ (a, withWait T i.manifest.mark e) ∈ compiled T i := by
  have here : (a, part) ∈ i.parts T :=
    List.mem_flatMap.mpr ⟨a, asked, List.mem_map.mpr ⟨part, isPart, rfl⟩⟩
  obtain ⟨k, bound, is⟩ := List.getElem_of_mem here
  have each := List.forall₂_iff_get.mp (pushAll_forall₂ (T := T) (i := i) [] (i.parts T))
  have bound' : k < (pushAll T i [] (i.parts T)).length := each.1 ▸ bound
  obtain ⟨source, isEntry⟩ := each.2 k bound bound'
  simp only [List.get_eq_getElem, is] at source isEntry
  exact ⟨_, isEntry, mem_compiled.mpr
    ⟨_, List.getElem_mem bound', Prod.ext source.symm rfl⟩⟩

/-- An entry of a spelling band is one that was pushed as such. -/
theorem isSpellingBandEntry_iff {e : Entry} (named : part.Named) (is : IsEntryOf T i part e) :
    isSpellingBandEntry e = true ↔ part.qidSuffix = "+form" := by
  obtain ⟨n, rfl⟩ := is
  exact isSpellingBandQid_iff named n

end

end Clearotron
