import Mathlib.Data.List.Dedup
import Mathlib.Data.List.Perm.Subperm

/-!
# Counting by key

A log is counted by a key its lines may carry: lines with the same key count once
together, and a line with no key counts on its own.
-/

namespace Clearotron

variable {α β κ : Type*}

/-- The keys of a log, in its order. -/
def keysOf (key : α → Option κ) (log : List α) : List κ := log.filterMap key

@[simp] theorem keysOf_append {key : α → Option κ} {log log' : List α} :
    keysOf key (log ++ log') = keysOf key log ++ keysOf key log' :=
  List.filterMap_append

theorem mem_keysOf {key : α → Option κ} {log : List α} {k : κ} :
    k ∈ keysOf key log ↔ ∃ a ∈ log, key a = some k :=
  List.mem_filterMap

variable [DecidableEq κ]

/-- How much a log counts. -/
def tally (key : α → Option κ) (log : List α) : Nat :=
  (keysOf key log).dedup.length + log.countP (fun a => (key a).isNone)

namespace Tally

variable {key : α → Option κ} {log log' : List α} {a : α}

@[simp] theorem nil : tally key [] = 0 := rfl

theorem perm (same : log.Perm log') : tally key log = tally key log' := by
  have keys : (keysOf key log).dedup.Perm (keysOf key log').dedup :=
    (same.filterMap key).dedup
  rw [tally, tally, keys.length_eq, same.countP_eq]

theorem map (f : β → α) (log : List β) :
    tally key (log.map f) = tally (fun b => key (f b)) log := by
  simp [tally, keysOf, List.filterMap_map, List.countP_map, Function.comp_def]

theorem cons_of_none (h : key a = none) : tally key (a :: log) = tally key log + 1 := by
  simp [tally, keysOf, h, Nat.add_assoc]

theorem cons_of_mem {k : κ} (h : key a = some k) (mem : k ∈ keysOf key log) :
    tally key (a :: log) = tally key log := by
  have keys : keysOf key (a :: log) = k :: keysOf key log := List.filterMap_cons_some h
  rw [tally, keys, List.dedup_cons_of_mem mem, tally]
  simp [h]

theorem cons_of_not_mem {k : κ} (h : key a = some k) (fresh : k ∉ keysOf key log) :
    tally key (a :: log) = tally key log + 1 := by
  have keys : keysOf key (a :: log) = k :: keysOf key log := List.filterMap_cons_some h
  rw [tally, keys, List.dedup_cons_of_notMem fresh, tally]
  simp [h]
  omega

/-- A line counts one at most. -/
theorem cons_le : tally key (a :: log) ≤ tally key log + 1 := by
  cases h : key a with
  | none => exact Nat.le_of_eq (cons_of_none h)
  | some k =>
      by_cases mem : k ∈ keysOf key log
      · rw [cons_of_mem h mem]
        omega
      · exact Nat.le_of_eq (cons_of_not_mem h mem)

theorem le_cons : tally key log ≤ tally key (a :: log) := by
  cases h : key a with
  | none => rw [cons_of_none h]; omega
  | some k =>
      by_cases mem : k ∈ keysOf key log
      · exact Nat.le_of_eq (cons_of_mem h mem).symm
      · rw [cons_of_not_mem h mem]; omega

theorem append_singleton : tally key (log ++ [a]) = tally key (a :: log) :=
  perm List.perm_append_comm

theorem append_singleton_le : tally key (log ++ [a]) ≤ tally key log + 1 := by
  rw [append_singleton]
  exact cons_le

theorem le_append_singleton : tally key log ≤ tally key (log ++ [a]) := by
  rw [append_singleton]
  exact le_cons

/-- Fewer lines count no more. -/
theorem le_of_subperm (sub : log.Subperm log') : tally key log ≤ tally key log' := by
  have keys : keysOf key log ⊆ keysOf key log' := by
    intro k mem
    obtain ⟨a, mem, h⟩ := mem_keysOf.mp mem
    exact mem_keysOf.mpr ⟨a, sub.subset mem, h⟩
  have dedup : (keysOf key log).dedup.Subperm (keysOf key log').dedup := by
    apply (List.nodup_dedup _).subperm
    intro k mem
    exact List.mem_dedup.mpr (keys (List.mem_dedup.mp mem))
  exact Nat.add_le_add dedup.length_le (sub.countP_le _)

theorem le_of_nodup {log log' : List α} (nodup : log.Nodup) (sub : log ⊆ log') :
    tally key log ≤ tally key log' :=
  le_of_subperm (nodup.subperm sub)

/-- A log some of whose lines lost their key counts no less. -/
theorem le_of_lost {key : α → Option κ} {key' : β → Option κ} {log : List α} {log' : List β}
    (lost : List.Forall₂ (fun a b => key' b = key a ∨ key' b = none) log log') :
    tally key log ≤ tally key' log' := by
  -- the keys that were lost, each of them at a line that counts on its own
  have parts : ∃ gone : List κ, keysOf key log ⊆ keysOf key' log' ++ gone ∧
      gone.length + log.countP (fun a => (key a).isNone) ≤
        log'.countP (fun b => (key' b).isNone) := by
    induction lost with
    | nil => exact ⟨[], by simp [keysOf], by simp⟩
    | @cons a b log log' h _ ih =>
        obtain ⟨gone, keys, bound⟩ := ih
        cases ha : key a with
        | none =>
            have hb : key' b = none := by simpa [ha] using h
            refine ⟨gone, ?_, ?_⟩
            · simpa [keysOf, ha, hb] using keys
            · simp only [List.countP_cons, ha, hb, Option.isNone_none, ↓reduceIte]
              omega
        | some k =>
            obtain hb | hb := h
            · refine ⟨gone, ?_, ?_⟩
              · rw [ha] at hb
                simp only [keysOf, List.filterMap_cons_some ha, List.filterMap_cons_some hb,
                  List.cons_append]
                exact List.cons_subset_cons k keys
              · simpa [List.countP_cons, ha, hb] using bound
            · refine ⟨k :: gone, ?_, ?_⟩
              · simp only [keysOf, List.filterMap_cons_some ha, List.filterMap_cons_none hb]
                intro x mem
                obtain rfl | mem := List.mem_cons.mp mem
                · simp
                · have := keys mem
                  simp only [keysOf, List.mem_append, List.mem_cons] at this ⊢
                  tauto
              · simp only [List.countP_cons, ha, hb, List.length_cons, Option.isNone_some,
                  Option.isNone_none, ↓reduceIte, Bool.false_eq_true]
                omega
  obtain ⟨gone, keys, bound⟩ := parts
  have distinct : (keysOf key log).dedup.length ≤ (keysOf key' log').dedup.length + gone.length := by
    rw [← List.length_append]
    apply List.Subperm.length_le
    apply (List.nodup_dedup _).subperm
    intro k mem
    simpa using keys (List.mem_dedup.mp mem)
  unfold tally
  omega

end Tally

end Clearotron
