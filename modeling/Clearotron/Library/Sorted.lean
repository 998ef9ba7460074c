import Mathlib.Data.List.Sort
import Mathlib.Data.List.Dedup

/-!
# Stable sorts and last occurrences

A comparison that asks one question after the other, and what an insertion sort by it keeps:
the items that satisfy a test stand in the sorted list as a sort of them alone leaves them.
A list without its repeats, each kept where it stands last.
-/

namespace Clearotron

section ThenBy

variable {α : Type*} {le₁ le₂ : α → α → Bool}

/-- The first comparison, and the second where the first finds the two alike. -/
def thenBy (le₁ le₂ : α → α → Bool) (a b : α) : Bool := le₁ a b && (!le₁ b a || le₂ a b)

theorem thenBy_total (total₁ : ∀ a b, le₁ a b || le₁ b a) (total₂ : ∀ a b, le₂ a b || le₂ b a)
    (a b : α) : thenBy le₁ le₂ a b || thenBy le₁ le₂ b a := by
  have first := total₁ a b
  have second := total₂ a b
  unfold thenBy
  cases ab : le₁ a b <;> cases ba : le₁ b a <;> simp_all

theorem thenBy_trans (trans₁ : ∀ a b c, le₁ a b → le₁ b c → le₁ a c)
    (trans₂ : ∀ a b c, le₂ a b → le₂ b c → le₂ a c) (a b c : α) (ab : thenBy le₁ le₂ a b)
    (bc : thenBy le₁ le₂ b c) : thenBy le₁ le₂ a c := by
  simp only [thenBy, Bool.and_eq_true, Bool.or_eq_true, Bool.not_eq_true'] at ab bc ⊢
  refine ⟨trans₁ a b c ab.1 bc.1, ?_⟩
  cases back : le₁ c a with
  | false => exact .inl rfl
  | true =>
    have ba : le₁ b a = true := trans₁ b c a bc.1 back
    have cb : le₁ c b = true := trans₁ c a b back ab.1
    rw [ba] at ab
    rw [cb] at bc
    exact .inr (trans₂ a b c (by simpa using ab.2) (by simpa using bc.2))

end ThenBy

section Stable

variable {α : Type*} {r : α → α → Prop} [DecidableRel r]

theorem filter_orderedInsert_of_neg {p : α → Bool} {a : α} (no : p a = false) (l : List α) :
    (l.orderedInsert r a).filter p = l.filter p := by
  induction l with
  | nil => simp [no]
  | cons b l ih =>
    rw [List.orderedInsert_cons]
    split
    · simp [no]
    · rw [List.filter_cons, List.filter_cons, ih]

theorem orderedInsert_of_le_all {a : α} {l : List α} (least : ∀ b ∈ l, r a b) :
    l.orderedInsert r a = a :: l := by
  cases l with
  | nil => rfl
  | cons b l => rw [List.orderedInsert_cons, if_pos (least b List.mem_cons_self)]

variable [IsTrans α r]

theorem filter_orderedInsert {p : α → Bool} {a : α} (yes : p a = true) {l : List α}
    (sorted : l.Pairwise r) : (l.orderedInsert r a).filter p = (l.filter p).orderedInsert r a := by
  induction l with
  | nil => simp [yes]
  | cons b l ih =>
    obtain ⟨least, sorted⟩ := List.pairwise_cons.mp sorted
    rw [List.orderedInsert_cons]
    split
    · rename_i le
      rw [List.filter_cons_of_pos yes, orderedInsert_of_le_all]
      intro c mem
      obtain rfl | mem := List.mem_cons.mp (List.mem_filter.mp mem).1
      · exact le
      · exact IsTrans.trans a b c le (least c mem)
    · rename_i gt
      cases test : p b with
      | true =>
        rw [List.filter_cons_of_pos test, List.filter_cons_of_pos test, ih sorted,
          List.orderedInsert_cons, if_neg gt]
      | false =>
        rw [List.filter_cons_of_neg (by simp [test]), List.filter_cons_of_neg (by simp [test]),
          ih sorted]

variable [Std.Total r]

/-- The sort is stable: what passes a test stands as a sort of it alone would leave it. -/
theorem filter_insertionSort (p : α → Bool) (l : List α) :
    (l.insertionSort r).filter p = (l.filter p).insertionSort r := by
  induction l with
  | nil => rfl
  | cons a l ih =>
    rw [List.insertionSort_cons]
    cases test : p a with
    | true =>
      rw [filter_orderedInsert test (List.pairwise_insertionSort r l), ih,
        List.filter_cons_of_pos test, List.insertionSort_cons]
    | false => rw [filter_orderedInsert_of_neg test, ih, List.filter_cons_of_neg (by simp [test])]

/-- Items that never stand behind the others stand in front of all of them. -/
theorem filter_append_filter {p : α → Bool} {l : List α}
    (apart : l.Pairwise fun a b => p a = false → p b = false) :
    l.filter p ++ l.filter (fun a => !p a) = l := by
  induction l with
  | nil => rfl
  | cons a l ih =>
    obtain ⟨front, apart⟩ := List.pairwise_cons.mp apart
    cases test : p a with
    | true =>
      rw [List.filter_cons_of_pos test, List.filter_cons_of_neg (by simp [test]),
        List.cons_append, ih apart]
    | false =>
      have none' : (a :: l).filter p = [] := by
        refine List.filter_eq_nil_iff.mpr fun b mem => ?_
        obtain rfl | mem := List.mem_cons.mp mem
        · simp [test]
        · simp [front b mem test]
      have all : (a :: l).filter (fun b => !p b) = a :: l := by
        refine List.filter_eq_self.mpr fun b mem => ?_
        obtain rfl | mem := List.mem_cons.mp mem
        · simp [test]
        · simp [front b mem test]
      rw [none', all, List.nil_append]

end Stable

section Dedup

variable {α : Type*} [DecidableEq α]

/-- Of the first list stands what does not come again, and then the second. -/
theorem dedup_append_eq (l₁ l₂ : List α) :
    (l₁ ++ l₂).dedup = (l₁.filter (· ∉ l₂)).dedup ++ l₂.dedup := by
  induction l₁ with
  | nil => rfl
  | cons a l₁ ih =>
    rw [List.cons_append]
    by_cases again : a ∈ l₂
    · rw [List.dedup_cons_of_mem (List.mem_append_right _ again), ih,
        List.filter_cons_of_neg (by simpa using again)]
    · rw [List.filter_cons_of_pos (by simpa using again)]
      by_cases here : a ∈ l₁
      · rw [List.dedup_cons_of_mem (List.mem_append_left _ here), ih,
          List.dedup_cons_of_mem (List.mem_filter.mpr ⟨here, by simpa using again⟩)]
      · rw [List.dedup_cons_of_notMem (by simp [here, again]), ih,
          List.dedup_cons_of_notMem (fun mem => here (List.mem_filter.mp mem).1), List.cons_append]

theorem filter_dedup (p : α → Bool) (l : List α) : l.dedup.filter p = (l.filter p).dedup := by
  induction l with
  | nil => rfl
  | cons a l ih =>
    by_cases here : a ∈ l
    · rw [List.dedup_cons_of_mem here, ih]
      cases test : p a with
      | true =>
        rw [List.filter_cons_of_pos test,
          List.dedup_cons_of_mem (List.mem_filter.mpr ⟨here, test⟩)]
      | false => rw [List.filter_cons_of_neg (by simp [test])]
    · rw [List.dedup_cons_of_notMem here]
      cases test : p a with
      | true =>
        rw [List.filter_cons_of_pos test, List.filter_cons_of_pos test, ih,
          List.dedup_cons_of_notMem fun mem => here (List.mem_filter.mp mem).1]
      | false =>
        rw [List.filter_cons_of_neg (by simp [test]), List.filter_cons_of_neg (by simp [test]), ih]

theorem length_dedup_eq_iff {l : List α} : l.dedup.length = l.length ↔ l.Nodup := by
  constructor
  · intro same
    rw [← List.dedup_eq_self]
    exact (List.dedup_sublist l).eq_of_length same
  · intro nodup
    rw [nodup.dedup]

/-- Nothing of the first list is lost where each of its items stands once in both. -/
theorem length_dedup_filter_eq_iff {l₁ l₂ : List α} :
    (l₁.filter (· ∉ l₂)).dedup.length = l₁.length ↔ ∀ a ∈ l₁, (l₁ ++ l₂).count a = 1 := by
  have short : (l₁.filter (· ∉ l₂)).dedup.length ≤ (l₁.filter (· ∉ l₂)).length :=
    (List.dedup_sublist _).length_le
  have shorter : (l₁.filter (· ∉ l₂)).length ≤ l₁.length := List.length_filter_le ..
  constructor
  · intro same a mem
    have kept : l₁.filter (· ∉ l₂) = l₁ := List.filter_sublist.eq_of_length (by omega)
    have nodup : l₁.Nodup := by
      rw [kept] at same
      exact length_dedup_eq_iff.mp same
    have absent : a ∉ l₂ := by
      rw [← kept] at mem
      simpa using (List.mem_filter.mp mem).2
    rw [List.count_append, List.count_eq_one_of_mem nodup mem, List.count_eq_zero_of_not_mem absent]
  · intro once
    have kept : l₁.filter (· ∉ l₂) = l₁ := by
      refine List.filter_eq_self.mpr fun a mem => ?_
      have one := once a mem
      rw [List.count_append] at one
      have here := List.count_pos_iff.mpr mem
      have absent : l₂.count a = 0 := by omega
      simpa using List.count_eq_zero.mp absent
    have nodup : l₁.Nodup := by
      refine List.nodup_iff_count_le_one.mpr fun a => ?_
      by_cases mem : a ∈ l₁
      · have one := once a mem
        rw [List.count_append] at one
        omega
      · simp [List.count_eq_zero_of_not_mem mem]
    rw [kept, nodup.dedup]

end Dedup

end Clearotron
