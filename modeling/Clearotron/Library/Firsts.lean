import Mathlib.Data.Finset.Card
import Mathlib.Data.List.Basic
import Mathlib.Data.List.Nodup

/-!
# The first of a key

A list in which some values have a key, read in order. A value is the first of its key when no
value before it has that key. A later list never takes a first away.

A name that is taken is tried again under its next spelling. With as many spellings as there are
names, one is free.
-/

namespace Clearotron

/-- `x` has a key, and nothing in front of it in `xs` has the same one. -/
def IsFirst {α κ : Type*} (key : α → Option κ) (xs : List α) (x : α) : Prop :=
  ∃ before after, xs = before ++ x :: after ∧ (key x).isSome ∧ ∀ y ∈ before, key y ≠ key x

namespace IsFirst

variable {α κ : Type*} {key : α → Option κ} {xs ys : List α} {x y : α} {k : κ}

theorem mem (first : IsFirst key xs x) : x ∈ xs := by
  obtain ⟨before, after, rfl, -⟩ := first
  simp

theorem not_nil : ¬ IsFirst key [] x := fun first => List.not_mem_nil first.mem

theorem append (first : IsFirst key xs x) (ys : List α) : IsFirst key (xs ++ ys) x := by
  obtain ⟨before, after, rfl, keyed, fresh⟩ := first
  exact ⟨before, after ++ ys, by simp, keyed, fresh⟩

theorem cons_iff : IsFirst key (x :: xs) y ↔
    (y = x ∧ (key x).isSome) ∨ (IsFirst key xs y ∧ key x ≠ key y) := by
  constructor
  · rintro ⟨before, after, split, keyed, fresh⟩
    cases before with
    | nil =>
      obtain ⟨rfl, -⟩ := List.cons.inj split
      exact .inl ⟨rfl, keyed⟩
    | cons z before =>
      obtain ⟨rfl, rest⟩ := List.cons.inj split
      exact .inr ⟨⟨before, after, rest, keyed, fun w mem => fresh w (List.mem_cons_of_mem _ mem)⟩,
        fresh x List.mem_cons_self⟩
  · rintro (⟨rfl, keyed⟩ | ⟨⟨before, after, rfl, keyed, fresh⟩, ne⟩)
    · exact ⟨[], xs, rfl, keyed, by simp⟩
    · exact ⟨x :: before, after, rfl, keyed, by simpa using ⟨ne, fresh⟩⟩

theorem concat_iff : IsFirst key (xs ++ [x]) y ↔
    IsFirst key xs y ∨ (y = x ∧ (key x).isSome ∧ ∀ z ∈ xs, key z ≠ key x) := by
  induction xs with
  | nil => simp [cons_iff, not_nil]
  | cons z xs ih =>
    rw [List.cons_append, cons_iff, ih, cons_iff]
    constructor
    · rintro (own | ⟨first | ⟨rfl, keyed, fresh⟩, ne⟩)
      · exact .inl (.inl own)
      · exact .inl (.inr ⟨first, ne⟩)
      · exact .inr ⟨rfl, keyed, by simpa using ⟨ne, fresh⟩⟩
    · rintro ((own | ⟨first, ne⟩) | ⟨rfl, keyed, fresh⟩)
      · exact .inl own
      · exact .inr ⟨.inl first, ne⟩
      · obtain ⟨ne, fresh⟩ := List.forall_mem_cons.mp fresh
        exact .inr ⟨.inr ⟨rfl, keyed, fresh⟩, ne⟩

/-- Every key that is there has its first. -/
theorem exists_of_mem (mem : x ∈ xs) (keyed : key x = some k) :
    ∃ y, IsFirst key xs y ∧ key y = some k := by
  induction xs with
  | nil => cases mem
  | cons z xs ih =>
    by_cases own : key z = some k
    · exact ⟨z, cons_iff.mpr (.inl ⟨rfl, by simp [own]⟩), own⟩
    · obtain rfl | mem := List.mem_cons.mp mem
      · exact absurd keyed own
      · obtain ⟨y, first, is⟩ := ih mem
        exact ⟨y, cons_iff.mpr (.inr ⟨first, fun same => own (same.trans is)⟩), is⟩

theorem unique (first : IsFirst key xs x) (first' : IsFirst key xs y) (same : key x = key y) :
    x = y := by
  induction xs with
  | nil => exact absurd first not_nil
  | cons z xs ih =>
    obtain ⟨rfl, -⟩ | ⟨later, ne⟩ := cons_iff.mp first
    · obtain ⟨rfl, -⟩ | ⟨-, ne'⟩ := cons_iff.mp first'
      · rfl
      · exact absurd same ne'
    · obtain ⟨rfl, -⟩ | ⟨later', -⟩ := cons_iff.mp first'
      · exact absurd same.symm ne
      · exact ih later later'

/-- Where keys do not repeat, whatever has one is first. -/
theorem of_nodup (keyed : (key x).isSome) (mem : x ∈ xs)
    (apart : xs.Pairwise fun y z => key y ≠ none → key y ≠ key z) : IsFirst key xs x := by
  obtain ⟨before, after, rfl⟩ := List.append_of_mem mem
  refine ⟨before, after, rfl, keyed, fun y there same => ?_⟩
  have ne := (List.pairwise_append.mp apart).2.2 y there x List.mem_cons_self
  refine ne (fun none => ?_) same
  rw [← same, none] at keyed
  cases keyed

end IsFirst

section Firsts

variable {α κ : Type*} [DecidableEq κ] (key : α → Option κ)

/-- The list with the later values of a key passed over; what has no key is kept. -/
def firsts : List α → List α
  | [] => []
  | x :: xs => x :: (firsts xs).filter fun y => key y = none ∨ key y ≠ key x

/-- Nothing of `xs` has the key of `y`. -/
def isFresh (xs : List α) (y : α) : Bool := key y = none ∨ ∀ x ∈ xs, key x ≠ key y

example : firsts some [1, 2, 1] = [1, 2] := by simp [firsts]

example : isFresh some [1, 2] 3 = true := by simp [isFresh]

variable {key}

theorem firsts_append (xs ys : List α) :
    firsts key (xs ++ ys) = firsts key xs ++ (firsts key ys).filter (isFresh key xs) := by
  induction xs with
  | nil =>
    have all (y : α) : isFresh key [] y = true := by simp [isFresh]
    rw [List.nil_append, firsts, List.nil_append, List.filter_eq_self.mpr fun y _ => all y]
  | cons x xs ih =>
    rw [List.cons_append, firsts, firsts, ih, List.filter_append, List.cons_append,
      List.filter_filter]
    congr 2
    refine List.filter_congr fun y _ => ?_
    rw [Bool.eq_iff_iff]
    simp only [isFresh, Bool.and_eq_true, decide_eq_true_eq, List.forall_mem_cons]
    tauto

theorem firsts_concat (xs : List α) (x : α) :
    firsts key (xs ++ [x]) = if isFresh key xs x then firsts key xs ++ [x] else firsts key xs := by
  rw [firsts_append]
  cases fresh : isFresh key xs x <;> simp [firsts, fresh]

theorem firsts_sublist (xs : List α) : (firsts key xs).Sublist xs := by
  induction xs with
  | nil => exact .slnil
  | cons x xs ih => exact (List.filter_sublist.trans ih).cons_cons x

/-- A key is in the firsts where it is in the list. -/
theorem exists_mem_firsts (key : α → Option κ) (xs : List α) (k : κ) :
    (∃ x ∈ firsts key xs, key x = some k) ↔ ∃ x ∈ xs, key x = some k := by
  induction xs with
  | nil => simp [firsts]
  | cons x xs ih =>
    rw [firsts, List.exists_mem_cons_iff, List.exists_mem_cons_iff, ← ih]
    by_cases own : key x = some k
    · simp [own]
    · simp only [own, false_or, List.mem_filter, decide_eq_true_eq]
      constructor
      · rintro ⟨y, ⟨mem, -⟩, is⟩
        exact ⟨y, mem, is⟩
      · rintro ⟨y, mem, is⟩
        exact ⟨y, ⟨mem, .inr fun same => own (same ▸ is)⟩, is⟩

theorem mem_firsts_of_unkeyed {xs : List α} {x : α} (mem : x ∈ xs) (unkeyed : key x = none) :
    x ∈ firsts key xs := by
  induction xs with
  | nil => cases mem
  | cons y xs ih =>
    obtain rfl | mem := List.mem_cons.mp mem
    · exact List.mem_cons_self
    · exact List.mem_cons_of_mem _ (List.mem_filter.mpr ⟨ih mem, by simp [unkeyed]⟩)

theorem isFresh_firsts (xs : List α) (y : α) :
    isFresh key (firsts key xs) y = isFresh key xs y := by
  rw [Bool.eq_iff_iff]
  simp only [isFresh, decide_eq_true_eq]
  cases keyed : key y with
  | none => simp
  | some k =>
    have same := exists_mem_firsts key xs k
    simp only [reduceCtorEq, false_or]
    rw [← not_iff_not]
    push Not
    exact same

/-- No two of the firsts share a key. -/
theorem pairwise_firsts (xs : List α) :
    (firsts key xs).Pairwise fun x y => key y = none ∨ key y ≠ key x := by
  induction xs with
  | nil => exact .nil
  | cons x xs ih =>
    exact .cons (fun y mem => of_decide_eq_true (List.mem_filter.mp mem).2) (ih.filter _)

theorem firsts_eq_self {xs : List α}
    (apart : xs.Pairwise fun x y => key y = none ∨ key y ≠ key x) : firsts key xs = xs := by
  induction xs with
  | nil => rfl
  | cons x xs ih =>
    obtain ⟨here, apart⟩ := List.pairwise_cons.mp apart
    rw [firsts, ih apart, List.filter_eq_self.mpr fun y mem => decide_eq_true (here y mem)]

@[simp] theorem firsts_firsts (xs : List α) : firsts key (firsts key xs) = firsts key xs :=
  firsts_eq_self (pairwise_firsts xs)

/-- A part of the list may be replaced by its firsts. -/
theorem firsts_absorb (before xs after : List α) :
    firsts key (before ++ (firsts key xs ++ after)) = firsts key (before ++ (xs ++ after)) := by
  have fresh (y : α) : isFresh key (firsts key xs) y = isFresh key xs y := isFresh_firsts xs y
  rw [firsts_append, firsts_append, firsts_append before, firsts_append xs, firsts_firsts,
    show isFresh key (firsts key xs) = isFresh key xs from funext fresh]

theorem nodup_filterMap_firsts (xs : List α) : ((firsts key xs).filterMap key).Nodup := by
  refine List.pairwise_filterMap.mpr ((pairwise_firsts xs).imp ?_)
  rintro x y apart k here k' there rfl
  obtain none' | ne := apart
  · rw [none'] at there
    cases there
  · exact ne (there.trans here.symm)

end Firsts

end Clearotron

namespace Clearotron

variable {κ : Type*} [DecidableEq κ]

/-- The first spelling of a name that is not taken. -/
def firstFree (taken : List κ) (name : Nat → κ) : κ :=
  (((List.range (taken.length + 1)).map name).find? fun k => decide (k ∉ taken)).getD (name 0)

theorem exists_firstFree (taken : List κ) (name : Nat → κ) :
    ∃ n, firstFree taken name = name n := by
  unfold firstFree
  cases found : ((List.range (taken.length + 1)).map name).find? fun k => decide (k ∉ taken) with
  | none => exact ⟨0, rfl⟩
  | some k =>
    obtain ⟨n, -, rfl⟩ := List.mem_map.mp (List.mem_of_find?_eq_some found)
    exact ⟨n, rfl⟩

/-- Among more spellings than there are names taken, one is free. -/
theorem firstFree_not_mem (taken : List κ) {name : Nat → κ} (apart : Function.Injective name) :
    firstFree taken name ∉ taken := by
  unfold firstFree
  cases found : ((List.range (taken.length + 1)).map name).find? fun k => decide (k ∉ taken) with
  | some k => simpa using List.find?_some found
  | none =>
    have all : (List.range (taken.length + 1)).map name ⊆ taken := fun k mem => by
      simpa using List.find?_eq_none.mp found k mem
    have distinct : ((List.range (taken.length + 1)).map name).Nodup :=
      List.nodup_range.map apart
    have fewer := (distinct.subperm all).length_le
    simp only [List.length_map, List.length_range] at fewer
    omega

end Clearotron
