import Mathlib.Data.List.Basic
import Clearotron.Index.Store

/-!
# What the local index answers

A question put to the plain texts, and the question as the table answers it. The two agree
on every row a token index does not take away, and a token index takes away no row that a
term with a letter or a digit starts or ends.
-/

namespace Clearotron

namespace IndexQuery

variable (T : IndexText) (q : IndexQuery)

/-- The plain question about a record's text, or about its owner. -/
def accepts (r : MarkRecord) : Bool :=
  match q.predicate with
  | .exact => T.fold r.text ∈ q.terms T
  | .wildcardPrefix => (q.terms T).any fun t => t.toList.isPrefixOf (T.fold r.text).toList
  | .wildcardSuffix => (q.terms T).any fun t => t.toList.isSuffixOf (T.fold r.text).toList
  | .default | .wildcardInfix => (q.terms T).any fun t => t.toList <:+: (T.fold r.text).toList
  | .owner => (q.terms T).any fun t => t.toList <:+: (T.fold r.owner).toList
  | .other _ => false

/-- The filters, of the record's own fields. -/
def meets (r : MarkRecord) : Bool :=
  let wanted := normalizeClasses q.classes
  (wanted.isEmpty || wanted.any fun c => c ∈ normalizeClasses r.classes) &&
  (match q.status with
    | some s =>
      if s ∈ ["live", "dead", "unknown"] then r.statusClass.getD (statusClassOf r.status) = s
      else true
    | none => true) &&
  match q.owner with
    | some o => if o = "" then true else decide ((T.fold o).toList <:+: (T.fold r.owner).toList)
    | none => true

/-- The column whose token index a predicate reads, and how a term is read against it. -/
def narrowing : Option (String → String) :=
  match q.predicate with
  | .wildcardPrefix => some id
  | .wildcardSuffix => some reverseText
  | _ => none

/-- Every record kept by the filters that a term without a letter or digit starts, or ends, is
found in the token index by some term of the question. -/
def Indexed (records : List MarkRecord) : Prop :=
  ∀ direction ∈ q.narrowing, ∀ r ∈ keptRecords records, q.meets T r = true →
    ∀ t ∈ q.terms T, (∀ c ∈ t.toList, T.letterOrDigit c = false) →
      (direction t).toList <+: (direction (T.fold r.text)).toList →
        narrows T ((q.terms T).map direction) (direction (T.fold r.text)) = true

end IndexQuery

variable {T : IndexText}

theorem toUpper_fixed {c : Char} (plain : c.isLower = false) : c.toUpper = c := by
  unfold Char.toUpper
  split
  · rename_i range
    have lower : c.isLower = true := by
      apply Bool.and_eq_true_iff.mpr
      exact ⟨decide_eq_true range.1, decide_eq_true range.2⟩
    rw [plain] at lower
    cases lower
  · rfl

theorem IndexText.fold_fixed (T : IndexText) (s : String) :
    ∀ c ∈ (T.fold s).toList, c.toUpper = c :=
  fun c mem => toUpper_fixed (T.noLower s c mem)

theorem IndexQuery.terms_fixed {q : IndexQuery} {t : String} (mem : t ∈ q.terms T) :
    ∀ c ∈ t.toList, c.toUpper = c := by
  obtain ⟨mem, -⟩ := List.mem_filter.mp mem
  obtain ⟨s, -, rfl⟩ := List.mem_map.mp mem
  exact fun c mem => T.fold_fixed s c ((Text.trim_part _).subset mem)

theorem IndexQuery.terms_ne_empty {q : IndexQuery} {t : String} (mem : t ∈ q.terms T) :
    t.toList ≠ [] := by
  obtain ⟨-, named⟩ := List.mem_filter.mp mem
  intro empty
  have blank : t = "" := String.toList_inj.mp empty
  simp [blank] at named

section

variable {t column : String} (term : ∀ c ∈ t.toList, c.toUpper = c)
  (text : ∀ c ∈ column.toList, c.toUpper = c)

include term text

theorem like_starts :
    like (some '\\') (escapeLike t ++ ['%']) column = true ↔ t.toList <+: column.toList := by
  have parsed : Wild.parse (some '\\') (escapeLike t ++ ['%']) = some (Wild.lits t.toList ++ [.any]) := by
    rw [escapeLike, Wild.parse_escape_append]
    rfl
  rw [like, parsed]
  exact Wild.runs_starts term text

theorem like_ends :
    like (some '\\') ('%' :: escapeLike t) column = true ↔ t.toList <:+ column.toList := by
  rw [like, Wild.parse_percent (by decide), escapeLike, Wild.parse_escape]
  exact Wild.runs_ends term text

theorem likeContains_iff : likeContains t column = true ↔ t.toList <:+: column.toList := by
  have parsed : Wild.parse (some '\\') (escapeLike t ++ ['%']) = some (Wild.lits t.toList ++ [.any]) := by
    rw [escapeLike, Wild.parse_escape_append]
    rfl
  rw [likeContains, like, Wild.parse_percent (by decide), parsed]
  exact Wild.runs_holds term text

end

theorem mem_parseInt10 {s : List Char} {n : String} (isNumber : parseInt10 s = some n) :
    ∀ c ∈ n.toList, c.isDigit = true ∨ c = '-' := by
  have digits (l : List Char) : ∀ c ∈ (l.takeWhile Char.isDigit).dropWhile (· = '0'),
      c.isDigit = true := by
    intro c mem
    exact List.mem_takeWhile_imp ((List.dropWhile_suffix _).subset mem)
  unfold parseInt10 at isNumber
  dsimp only at isNumber
  generalize (if s.head? = some '-' ∨ s.head? = some '+' then s.tail else s) = l at isNumber
  have number := digits l
  split at isNumber
  · cases isNumber
  · split at isNumber
    · obtain rfl := Option.some.inj isNumber
      intro c mem
      obtain rfl : c = '0' := by simpa using mem
      exact .inl rfl
    · obtain rfl := Option.some.inj isNumber
      intro c mem
      rw [String.toList_ofList] at mem
      split at mem
      · obtain rfl | mem := List.mem_cons.mp mem
        · exact .inr rfl
        · exact .inl (number c mem)
      · exact .inl (number c mem)

/-- A class is written without a comma and without a wildcard. -/
theorem class_plain {classes : ClassList} {n : String} (mem : n ∈ normalizeClasses classes) :
    ∀ c ∈ n.toList, c ≠ ',' ∧ c ≠ '%' ∧ c ≠ '_' ∧ c.toUpper = c := by
  unfold normalizeClasses at mem
  rw [List.mem_eraseDups] at mem
  obtain ⟨s, -, isNumber⟩ := List.mem_filterMap.mp mem
  intro c inside
  obtain digit | rfl := mem_parseInt10 isNumber c inside
  · refine ⟨?_, ?_, ?_, toUpper_fixed ?_⟩
    · rintro rfl
      exact absurd digit (by decide)
    · rintro rfl
      exact absurd digit (by decide)
    · rintro rfl
      exact absurd digit (by decide)
    · have range := Bool.and_eq_true_iff.mp digit
      have high := of_decide_eq_true range.2
      rw [Bool.eq_false_iff]
      intro lower
      have low := of_decide_eq_true (Bool.and_eq_true_iff.mp lower).1
      have high' : c.toNat ≤ 57 := UInt32.le_iff_toNat_le.mp high
      have low' : 97 ≤ c.toNat := UInt32.le_iff_toNat_le.mp low
      omega
  · exact ⟨by decide, by decide, by decide, by decide⟩

/-- Between its commas a class is found where it is one of the list. -/
theorem infix_classColumn {n : String} {classes : List String} (plain : ',' ∉ n.toList)
    (plains : ∀ m ∈ classes, ',' ∉ m.toList) :
    (',' :: n.toList ++ [',']) <:+: classColumn classes ↔ n ∈ classes := by
  induction classes with
  | nil =>
      simp only [classColumn, List.flatMap_nil, List.not_mem_nil, iff_false]
      intro part
      have short := part.length_le
      simp at short
  | cons m classes ih =>
      have column : classColumn (m :: classes) = ',' :: (m.toList ++ classColumn classes) := by
        simp [classColumn]
      have mPlain := plains m (List.mem_cons_self ..)
      rw [column, List.mem_cons, ← ih fun k mem => plains k (List.mem_cons_of_mem m mem)]
      constructor
      · intro part
        rw [List.cons_append, List.infix_cons_iff] at part
        obtain start | later := part
        · left
          obtain ⟨rest, split⟩ := start
          have split' : n.toList ++ ',' :: rest = m.toList ++ classColumn classes := by
            simpa using split
          have cut := congrArg (List.takeWhile (· ≠ ',')) split'
          have alone {l tail : List Char} (noComma : ',' ∉ l) :
              (l ++ ',' :: tail).takeWhile (· ≠ ',') = l := by
            rw [List.takeWhile_append_of_pos, List.takeWhile_cons_of_neg (by simp), List.append_nil]
            intro c mem
            have other : c ≠ ',' := fun same => noComma (same ▸ mem)
            simpa using other
          rw [alone plain, classColumn, alone mPlain] at cut
          exact String.toList_inj.mp cut
        · right
          obtain ⟨before, after, split⟩ := later
          -- the comma the class starts with is none of this element's letters
          have inside : m.toList <+: before := by
            have whole : before ++ ',' :: (n.toList ++ ',' :: after) = m.toList ++ classColumn classes := by
              simpa using split
            obtain ⟨k, same⟩ | ⟨k, same⟩ := List.append_eq_append_iff.mp whole
            · obtain ⟨grown, rest⟩ := same
              cases k with
              | nil => exact ⟨[], by simpa using grown⟩
              | cons c k =>
                  have first : c = ',' := (List.cons.inj rest).1.symm
                  apply absurd _ mPlain
                  rw [grown, first]
                  simp
            · exact ⟨k, same.1.symm⟩
          obtain ⟨k, rfl⟩ := inside
          refine ⟨k, after, ?_⟩
          have whole : m.toList ++ (k ++ (',' :: n.toList ++ [',']) ++ after) =
              m.toList ++ classColumn classes := by simpa using split
          exact List.append_cancel_left whole
      · rintro (rfl | part)
        · have start : (',' :: n.toList ++ [',']) <+: ',' :: (n.toList ++ classColumn classes) := by
            refine ⟨(classes.flatMap fun c => c.toList ++ [',']), ?_⟩
            simp [classColumn]
          exact start.isInfix
        · exact part.trans ⟨',' :: m.toList, [], by simp⟩

theorem tokens_ne_nil_of {t : String} (letter : ¬ ∀ c ∈ t.toList, T.letterOrDigit c = false) :
    tokens T.letterOrDigit t.toList ≠ [] := fun none => letter (tokens_eq_nil.mp none)

/-- A term with a letter or a digit is found in the index of the texts it starts. -/
theorem narrows_of_prefix {terms : List String} {t column : String} (mem : t ∈ terms)
    (letter : ¬ ∀ c ∈ t.toList, T.letterOrDigit c = false) (starts : t.toList <+: column.toList) :
    narrows T terms column = true := by
  apply List.any_eq_true.mpr
  exact ⟨t, mem, holdsPhrase_of_prefix starts (tokens_ne_nil_of letter)⟩

/-- A class is found in the column of a record that has it. -/
theorem like_class {wanted classes : ClassList} {c : String} (mem : c ∈ normalizeClasses wanted) :
    like none ('%' :: (',' :: c.toList ++ [',']) ++ ['%'])
        (String.ofList (classColumn (normalizeClasses classes))) =
      decide (c ∈ normalizeClasses classes) := by
  have plain := class_plain mem
  have plains : ∀ m ∈ normalizeClasses classes, ',' ∉ m.toList :=
    fun m inside comma => (class_plain inside ',' comma).1 rfl
  have between {d : Char} (mem : d ∈ ',' :: c.toList ++ [',']) : d = ',' ∨ d ∈ c.toList := by
    simp only [List.cons_append, List.mem_cons, List.mem_append, List.not_mem_nil, or_false] at mem
    obtain comma | inside | comma := mem
    · exact .inl comma
    · exact .inr inside
    · exact .inl comma
  have parsed : Wild.parse none ('%' :: (',' :: c.toList ++ [',']) ++ ['%']) =
      some (.any :: (Wild.lits (',' :: c.toList ++ [',']) ++ [.any])) := by
    have unescaped : (none : Option Char) ≠ some '%' := nofun
    have unwild : ∀ d ∈ ',' :: c.toList ++ [','], d ≠ '%' ∧ d ≠ '_' := by
      intro d mem
      obtain rfl | inside := between mem
      · exact ⟨by decide, by decide⟩
      · exact ⟨(plain d inside).2.1, (plain d inside).2.2.1⟩
    rw [List.cons_append, Wild.parse_percent unescaped, Wild.parse_plain_append unwild]
    rfl
  have term : ∀ d ∈ ',' :: c.toList ++ [','], d.toUpper = d := by
    intro d mem
    obtain rfl | inside := between mem
    · rfl
    · exact (plain d inside).2.2.2
  have column : ∀ d ∈ classColumn (normalizeClasses classes), d.toUpper = d := by
    intro d mem
    obtain rfl | mem := List.mem_cons.mp mem
    · rfl
    · obtain ⟨m, inside, mem⟩ := List.mem_flatMap.mp mem
      obtain mem | mem := List.mem_append.mp mem
      · exact (class_plain inside d mem).2.2.2
      · obtain rfl := List.mem_singleton.mp mem
        rfl
  rw [Bool.eq_iff_iff, decide_eq_true_iff,
    ← infix_classColumn (fun comma => (plain ',' comma).1 rfl) plains, like, parsed]
  rw [Option.map_some, Option.getD_some, String.toList_ofList]
  exact Wild.runs_holds term column

theorem like_owner {o : String} (named : o ≠ "") (r : MarkRecord) :
    (putRecord T r).owner.any (likeContains (T.fold o)) =
      decide ((T.fold o).toList <:+: (T.fold r.owner).toList) := by
  have whole := T.fold_ne_empty o named
  by_cases unowned : T.fold r.owner = ""
  · have outside : ¬ (T.fold o).toList <:+: (T.fold r.owner).toList := by
      rw [unowned]
      intro part
      exact whole (String.toList_inj.mp (List.infix_nil.mp part))
    rw [decide_eq_false outside]
    simp [putRecord, unowned]
  · rw [Bool.eq_iff_iff, decide_eq_true_iff]
    simp only [putRecord, unowned, if_false, Option.any_some]
    exact likeContains_iff (T.fold_fixed o) (T.fold_fixed r.owner)

theorem filterClauses_putRecord (q : IndexQuery) (r : MarkRecord) :
    filterClauses T q (putRecord T r) = q.meets T r := by
  have classes : ((normalizeClasses q.classes).any fun c => (putRecord T r).classes.any
        (like none ('%' :: (',' :: c.toList ++ [',']) ++ ['%']))) =
      (normalizeClasses q.classes).any fun c => decide (c ∈ normalizeClasses r.classes) := by
    rw [Bool.eq_iff_iff, List.any_eq_true, List.any_eq_true]
    refine exists_congr fun c => and_congr_right fun mem => ?_
    by_cases unclassed : normalizeClasses r.classes = []
    · simp [putRecord, unclassed]
    · simp only [putRecord, unclassed, if_false, Option.any_some]
      rw [like_class mem]
  unfold filterClauses IndexQuery.meets
  dsimp only
  rw [classes]
  congr 1
  cases q.owner with
  | none => rfl
  | some o =>
      by_cases named : o = ""
      · simp [named]
      · simp only [named, if_false]
        exact like_owner named r

variable {q : IndexQuery}

/-- What a predicate's clause says of a record's row. -/
theorem predicateClause_iff (named : q.terms T ≠ []) (known : ∀ name, q.predicate ≠ .other name) :
    ∃ holds, predicateClause T q.predicate (q.terms T) = .ok holds ∧ ∀ r,
      holds (putRecord T r) = true ↔ q.accepts T r = true ∧ ∀ direction ∈ q.narrowing,
        narrows T ((q.terms T).map direction) (direction (T.fold r.text)) = true := by
  have text (r : MarkRecord) : ∀ c ∈ (putRecord T r).text.toList, c.toUpper = c :=
    T.fold_fixed r.text
  have any (f g : String → Bool) (same : ∀ t ∈ q.terms T, f t = true ↔ g t = true) :
      (q.terms T).any f = true ↔ (q.terms T).any g = true := by
    rw [List.any_eq_true, List.any_eq_true]
    exact exists_congr fun t => and_congr_right (same t)
  unfold predicateClause
  rw [if_neg named]
  cases is : q.predicate with
  | exact =>
      refine ⟨_, rfl, fun r => ?_⟩
      simp only [IndexQuery.accepts, IndexQuery.narrowing, is, Option.not_mem_none, false_implies,
        implies_true, and_true]
      exact Iff.rfl
  | wildcardPrefix =>
      refine ⟨_, rfl, fun r => ?_⟩
      simp only [IndexQuery.accepts, IndexQuery.narrowing, is, Bool.and_eq_true, Option.mem_some_iff,
        forall_eq', List.map_id_fun, id]
      rw [and_comm]
      refine and_congr_left fun _ => any _ _ fun t mem => ?_
      rw [like_starts (IndexQuery.terms_fixed mem) (text r), List.isPrefixOf_iff_prefix]
      rfl
  | wildcardSuffix =>
      refine ⟨_, rfl, fun r => ?_⟩
      simp only [IndexQuery.accepts, IndexQuery.narrowing, is, Bool.and_eq_true, Option.mem_some_iff,
        forall_eq']
      rw [and_comm]
      refine and_congr_left fun _ => any _ _ fun t mem => ?_
      rw [like_ends (IndexQuery.terms_fixed mem) (text r), List.isSuffixOf_iff_suffix]
      rfl
  | default =>
      refine ⟨_, rfl, fun r => ?_⟩
      simp only [IndexQuery.accepts, IndexQuery.narrowing, is, Option.not_mem_none, false_implies,
        implies_true, and_true]
      refine any _ _ fun t mem => ?_
      rw [likeContains_iff (IndexQuery.terms_fixed mem) (text r), decide_eq_true_iff]
      rfl
  | wildcardInfix =>
      refine ⟨_, rfl, fun r => ?_⟩
      simp only [IndexQuery.accepts, IndexQuery.narrowing, is, Option.not_mem_none, false_implies,
        implies_true, and_true]
      refine any _ _ fun t mem => ?_
      rw [likeContains_iff (IndexQuery.terms_fixed mem) (text r), decide_eq_true_iff]
      rfl
  | owner =>
      refine ⟨_, rfl, fun r => ?_⟩
      simp only [IndexQuery.accepts, IndexQuery.narrowing, is, Option.not_mem_none, false_implies,
        implies_true, and_true]
      by_cases unowned : T.fold r.owner = ""
      · simp only [putRecord, unowned, if_true, Option.any_none, Bool.false_eq_true, false_iff]
        rw [List.any_eq_true]
        rintro ⟨t, mem, part⟩
        exact IndexQuery.terms_ne_empty mem (List.infix_nil.mp (of_decide_eq_true part))
      · simp only [putRecord, unowned, if_false, Option.any_some]
        refine any _ _ fun t mem => ?_
        rw [likeContains_iff (IndexQuery.terms_fixed mem) (T.fold_fixed r.owner), decide_eq_true_iff]
  | other name => exact absurd is (known name)

/-- A predicate that reads a token index asks for the texts a term starts, in its direction. -/
theorem accepts_iff_of_narrowing {direction : String → String} (reads : direction ∈ q.narrowing)
    (r : MarkRecord) : q.accepts T r = true ↔
      ∃ t ∈ q.terms T, (direction t).toList <+: (direction (T.fold r.text)).toList := by
  unfold IndexQuery.narrowing at reads
  unfold IndexQuery.accepts
  cases is : q.predicate with
  | wildcardPrefix =>
      simp only [is, Option.mem_some_iff] at reads ⊢
      subst reads
      rw [List.any_eq_true]
      exact exists_congr fun t => and_congr_right fun _ => List.isPrefixOf_iff_prefix
  | wildcardSuffix =>
      simp only [is, Option.mem_some_iff] at reads ⊢
      subst reads
      rw [List.any_eq_true]
      refine exists_congr fun t => and_congr_right fun _ => ?_
      simp only [reverseText, String.toList_ofList, List.reverse_prefix]
      exact List.isSuffixOf_iff_suffix
  | _ => simp [is] at reads

theorem mem_direction {direction : String → String} (reads : direction ∈ q.narrowing) (t : String)
    (c : Char) : c ∈ (direction t).toList ↔ c ∈ t.toList := by
  unfold IndexQuery.narrowing at reads
  cases is : q.predicate with
  | wildcardPrefix =>
      simp only [is, Option.mem_some_iff] at reads
      subst reads
      exact Iff.rfl
  | wildcardSuffix =>
      simp only [is, Option.mem_some_iff] at reads
      subst reads
      simp [reverseText]
  | _ => simp [is] at reads

/-- Every page and the count are those of the plain question, if and only if each record that a
term without a letter or a digit starts or ends is found in the token index. -/
theorem index_answers_plain_iff (records : List MarkRecord) (named : q.terms T ≠ [])
    (known : ∀ name, q.predicate ≠ .other name) :
    ((∀ limit offset, indexSearch T (builtRows T records) q limit offset =
        .ok (((((keptRecords records).filter fun r => q.accepts T r && q.meets T r).map
          (putRecord T)).drop offset).take limit)) ∧
      indexCountHits T (builtRows T records) q =
        .ok ((keptRecords records).countP fun r => q.accepts T r && q.meets T r)) ↔
    q.Indexed T records := by
  obtain ⟨holds, clause, spec⟩ := predicateClause_iff named known
  have row (r : MarkRecord) : (holds (putRecord T r) && filterClauses T q (putRecord T r)) = true ↔
      (q.accepts T r && q.meets T r) = true ∧ ∀ direction ∈ q.narrowing,
        narrows T ((q.terms T).map direction) (direction (T.fold r.text)) = true := by
    rw [Bool.and_eq_true, spec, filterClauses_putRecord, Bool.and_eq_true]
    exact and_right_comm
  constructor
  · rintro ⟨-, counted⟩ direction reads r mem meets t isTerm blank starts
    rw [indexCountHits, clause, builtRows, Except.map, Except.ok.injEq, List.countP_map] at counted
    -- the table never answers more than the plain question, and it counts as many
    have same : (keptRecords records).filter
          ((fun row => holds row && filterClauses T q row) ∘ putRecord T) =
        (keptRecords records).filter fun r => q.accepts T r && q.meets T r := by
      apply List.Sublist.eq_of_length
      · exact List.monotone_filter_right _ fun r found => ((row r).mp found).1
      · rwa [← List.countP_eq_length_filter, ← List.countP_eq_length_filter]
    have accepts := (accepts_iff_of_narrowing reads r).mpr ⟨t, isTerm, starts⟩
    have found : r ∈ (keptRecords records).filter fun r => q.accepts T r && q.meets T r :=
      List.mem_filter.mpr ⟨mem, by rw [accepts, meets]; rfl⟩
    rw [← same] at found
    exact ((row r).mp (List.mem_filter.mp found).2).2 direction reads
  · intro indexed
    have same : ∀ r ∈ keptRecords records,
        (holds (putRecord T r) && filterClauses T q (putRecord T r)) =
          (q.accepts T r && q.meets T r) := by
      intro r mem
      rw [Bool.eq_iff_iff, row]
      refine ⟨fun h => h.1, fun asked => ⟨asked, fun direction reads => ?_⟩⟩
      obtain ⟨accepts, meets⟩ := Bool.and_eq_true_iff.mp asked
      obtain ⟨t, isTerm, starts⟩ := (accepts_iff_of_narrowing reads r).mp accepts
      by_cases blank : ∀ c ∈ t.toList, T.letterOrDigit c = false
      · exact indexed direction reads r mem meets t isTerm blank starts
      · apply narrows_of_prefix (List.mem_map_of_mem isTerm) _ starts
        intro none
        exact blank fun c inside => none c ((mem_direction reads t c).mpr inside)
    have filtered : (keptRecords records).filter
          ((fun row => holds row && filterClauses T q row) ∘ putRecord T) =
        (keptRecords records).filter fun r => q.accepts T r && q.meets T r := List.filter_congr same
    constructor
    · intro limit offset
      rw [indexSearch, clause, builtRows, Except.map, List.filter_map, filtered]
    · rw [indexCountHits, clause, builtRows, Except.map, List.countP_map]
      rw [List.countP_congr fun r mem => by rw [Function.comp_apply, same r mem]]

/-- ASCII letters, for a run on fixed texts. -/
def asciiText : IndexText where
  fold s := if s.toList.all (!·.isLower) then s else "?"
  fold_ne_empty s named := by
    split
    · exact named
    · decide
  noLower s := by
    split
    · rename_i upper
      simpa using upper
    · intro c mem
      obtain rfl := List.mem_singleton.mp mem
      rfl
  letterOrDigit := Char.isAlphanum

/-- A starts-with question about a word is answered in full. -/
theorem index_answers_plain_word :
    indexCountHits asciiText (builtRows asciiText [{ serial := "1", text := "NOVA LABS" }])
      { predicate := .wildcardPrefix, term := ["NOVA"] } = .ok 1 := by
  let q : IndexQuery := { predicate := .wildcardPrefix, term := ["NOVA"] }
  have terms : q.terms asciiText = ["NOVA"] := by decide
  have named : q.terms asciiText ≠ [] := by rw [terms]; nofun
  apply ((index_answers_plain_iff [{ serial := "1", text := "NOVA LABS" }] named nofun).mpr ?_).2
  intro direction _ r _ _ t isTerm blank
  rw [terms] at isTerm
  obtain rfl := List.mem_singleton.mp isTerm
  exact absurd (blank 'N' (by decide)) (by decide)

/-- A mark that starts with punctuation is not found by that punctuation. -/
theorem punctuation_is_not_found :
    indexSearch asciiText (builtRows asciiText [{ serial := "1", text := "!!! BAND" }])
        { predicate := .wildcardPrefix, term := ["!!!"] } 100 0 = .ok [] ∧
      ({ predicate := .wildcardPrefix, term := ["!!!"] } : IndexQuery).accepts asciiText
        { serial := "1", text := "!!! BAND" } = true := by
  constructor
  · rfl
  · rfl

end Clearotron
