import Clearotron.Library.Keyed
import Mathlib.Data.List.Basic
import Mathlib.Data.List.Induction

/-!
# Groups by key

The items that share a key are one group, and the groups stand in the order of their first
items. A group is its first item and the later ones, so no group is empty. The first least
item of a group is the one a stable sort would put first.

Some keys are owned: the values under them are replaced by the fresh ones. Every other
value, keyed or not, stays as it is and where it is. Both facts are equations between
filtered lists, so order and multiplicity are part of them.
-/

namespace Clearotron

structure Group (α : Type) where
  first : α
  later : List α
  deriving DecidableEq, Repr

namespace Group

variable {α κ : Type}

def members (g : Group α) : List α := g.first :: g.later

/-- The item at the end of its group. -/
def push (g : Option (Group α)) (x : α) : Group α :=
  match g with
  | none => ⟨x, []⟩
  | some g => ⟨g.first, g.later ++ [x]⟩

theorem members_push (g : Option (Group α)) (x : α) :
    (push g x).members = ((g.map members).getD []) ++ [x] := by
  cases g <;> rfl

end Group

section Groups

variable {α κ : Type} [DecidableEq κ] {keyOf : α → κ} {xs : List α} {x y : α} {k : κ}
  {g : Group α}

def addToGroup (keyOf : α → κ) (gs : Keyed κ (Group α)) (x : α) : Keyed κ (Group α) :=
  gs.set (keyOf x) (.push (gs.get (keyOf x)) x)

def groupsBy (keyOf : α → κ) (xs : List α) : Keyed κ (Group α) :=
  xs.foldl (addToGroup keyOf) .empty

/-- A group holds the items with its key, in their order. -/
theorem get_groupsBy (keyOf : α → κ) (xs : List α) (k : κ) :
    ((groupsBy keyOf xs).get k).map Group.members =
      if k ∈ xs.map keyOf then some (xs.filter fun x => keyOf x = k) else none := by
  induction xs using List.reverseRecOn with
  | nil => rfl
  | append_singleton xs x ih =>
    rw [groupsBy, List.foldl_append, List.foldl_cons, List.foldl_nil, ← groupsBy, addToGroup,
      Keyed.get_set]
    by_cases same : k = keyOf x
    · subst same
      have here : keyOf x ∈ (xs ++ [x]).map keyOf := by simp
      rw [if_pos rfl, Option.map_some, Group.members_push, ih, if_pos here]
      by_cases before : keyOf x ∈ xs.map keyOf
      · rw [if_pos before]
        simp
      · have none' : xs.filter (fun y => keyOf y = keyOf x) = [] := by
          refine List.filter_eq_nil_iff.mpr fun y mem => ?_
          have apart : keyOf y ≠ keyOf x := fun e => before (e ▸ List.mem_map_of_mem mem)
          simpa using apart
        rw [if_neg before]
        simp [none']
    · have apart : ¬ keyOf x = k := fun e => same e.symm
      rw [if_neg same, ih]
      simp [same, apart]

theorem members_of_mem (mem : (k, g) ∈ (groupsBy keyOf xs).entries) :
    k ∈ xs.map keyOf ∧ g.members = xs.filter fun x => keyOf x = k := by
  have found := get_groupsBy keyOf xs k
  rw [Keyed.get_eq_some.mpr mem] at found
  split at found
  · rename_i there
    exact ⟨there, Option.some.inj found⟩
  · cases found

theorem mem_members_iff (mem : (k, g) ∈ (groupsBy keyOf xs).entries) :
    x ∈ g.members ↔ x ∈ xs ∧ keyOf x = k := by
  rw [(members_of_mem mem).2, List.mem_filter, decide_eq_true_eq]

theorem exists_group (keyOf : α → κ) (mem : x ∈ xs) :
    ∃ g, (keyOf x, g) ∈ (groupsBy keyOf xs).entries ∧ x ∈ g.members := by
  have found := get_groupsBy keyOf xs (keyOf x)
  rw [if_pos (List.mem_map_of_mem mem), Option.map_eq_some_iff] at found
  obtain ⟨g, there, members⟩ := found
  exact ⟨g, Keyed.get_eq_some.mp there, by rw [members, List.mem_filter]; simp [mem]⟩

/-- Every group has one item exactly where no two items share a key. -/
theorem later_eq_nil_iff :
    (∀ kv ∈ (groupsBy keyOf xs).entries, kv.2.later = []) ↔ (xs.map keyOf).Nodup := by
  have lengths (k : κ) (g : Group α) (mem : (k, g) ∈ (groupsBy keyOf xs).entries) :
      g.later.length + 1 = (xs.map keyOf).count k := by
    have members := congrArg List.length (members_of_mem mem).2
    rw [Group.members, List.length_cons] at members
    rw [members, List.count_eq_countP, List.countP_map, List.countP_eq_length_filter]
    congr 2
  constructor
  · intro single
    refine List.nodup_iff_count_le_one.mpr fun k => ?_
    by_cases there : k ∈ xs.map keyOf
    · obtain ⟨x, mem, rfl⟩ := List.mem_map.mp there
      obtain ⟨g, group, -⟩ := exists_group keyOf mem
      have := lengths _ g group
      rw [single _ group] at this
      exact Nat.le_of_eq this.symm
    · rw [List.count_eq_zero_of_not_mem there]
      exact Nat.zero_le 1
  · rintro nodup ⟨k, g⟩ mem
    have counted := lengths k g mem
    have once := List.nodup_iff_count_le_one.mp nodup k
    have none' : g.later.length = 0 := by omega
    exact List.eq_nil_of_length_eq_zero none'

end Groups

section FirstLeast

variable {α : Type} {r : α → α → Bool}

/-- The first item, of a list that begins with `x`, that no other is before. -/
def firstLeast (r : α → α → Bool) : α → List α → α
  | x, [] => x
  | x, y :: rest => if r x (firstLeast r y rest) then x else firstLeast r y rest

theorem firstLeast_mem (x : α) (xs : List α) : firstLeast r x xs ∈ x :: xs := by
  induction xs generalizing x with
  | nil => exact List.mem_singleton.mpr rfl
  | cons y rest ih =>
    rw [firstLeast]
    split
    · exact List.mem_cons_self
    · exact List.mem_cons_of_mem x (ih y)

theorem firstLeast_le (trans : ∀ a b c, r a b = true → r b c = true → r a c = true)
    (total : ∀ a b, (r a b || r b a) = true) (x : α) (xs : List α) :
    ∀ y ∈ x :: xs, r (firstLeast r x xs) y = true := by
  have refl (a : α) : r a a = true := by simpa using total a a
  induction xs generalizing x with
  | nil =>
    intro y mem
    rw [List.mem_singleton.mp mem]
    exact refl x
  | cons z rest ih =>
    intro y mem
    rw [firstLeast]
    split
    · rename_i before
      obtain rfl | mem := List.mem_cons.mp mem
      · exact refl y
      · exact trans _ _ _ before (ih z y mem)
    · rename_i after
      obtain rfl | mem := List.mem_cons.mp mem
      · have := total y (firstLeast r z rest)
        rw [Bool.or_eq_true] at this
        exact this.resolve_left after
      · exact ih z y mem

end FirstLeast

end Clearotron

namespace Clearotron

variable {α κ : Type} [DecidableEq κ]

/-- The fresh values, then what no owned key claims. -/
def overlay (keyOf : α → Option κ) (fresh : List α) (owned : List κ) (old : List α) : List α :=
  fresh ++ old.filter fun x => !(keyOf x).any (· ∈ owned)

variable {keyOf : α → Option κ} {fresh old : List α} {owned : List κ}

/-- What is neither fresh nor owned is exactly what it was. -/
theorem filter_overlay_of_untouched {p : α → Bool} (stale : ∀ x ∈ fresh, p x = false)
    (unowned : ∀ x, p x = true → ∀ k ∈ owned, keyOf x ≠ some k) :
    (overlay keyOf fresh owned old).filter p = old.filter p := by
  have none : fresh.filter p = [] := List.filter_eq_nil_iff.mpr fun x mem => by simp [stale x mem]
  rw [overlay, List.filter_append, none, List.nil_append, List.filter_filter]
  refine List.filter_congr fun x _ => ?_
  cases holds : p x with
  | false => rfl
  | true =>
      have free := unowned x holds
      cases key : keyOf x with
      | none => rfl
      | some k => simpa [key] using fun mem => free k mem key

/-- Under an owned key stand the fresh values and no others. -/
theorem filter_overlay_of_owned {k : κ} (mem : k ∈ owned) :
    (overlay keyOf fresh owned old).filter (fun x => decide (keyOf x = some k)) =
      fresh.filter fun x => decide (keyOf x = some k) := by
  have none : (old.filter fun x => !(keyOf x).any (· ∈ owned)).filter
      (fun x => decide (keyOf x = some k)) = [] := by
    refine List.filter_eq_nil_iff.mpr fun x kept => ?_
    have free := (List.mem_filter.mp kept).2
    rw [decide_eq_true_eq]
    intro key
    simp [key, mem] at free
  rw [overlay, List.filter_append, none, List.append_nil]

end Clearotron
