import Mathlib.Data.List.Basic

/-!
# The latest of what is whole

Of values that come one after the other the last is kept, but one that is only a stand-in
never replaces a whole one. Keeping is associative and idempotent, so what a history leaves
may be kept again over what a part of it left.
-/

namespace Clearotron

variable {α β : Type*} {full : α → Bool}

/-- The later value, unless it would replace a whole one without being one. -/
def latest (full : α → Bool) : Option α → Option α → Option α
  | old, none => old
  | none, some new => some new
  | some old, some new => if full new || !full old then some new else some old

/-- What a list of values leaves. -/
def latestOf (full : α → Bool) (xs : List α) : Option α :=
  xs.foldl (fun kept x => latest full kept (some x)) none

@[simp] theorem latest_none_right (x : Option α) : latest full x none = x := by
  cases x <;> rfl

@[simp] theorem latest_none_left (x : Option α) : latest full none x = x := by
  cases x <;> rfl

theorem latest_of_full {old : Option α} {new : α} (whole : full new = true) :
    latest full old (some new) = some new := by
  cases old with
  | none => rfl
  | some a => simp [latest, whole]

theorem latest_of_not_full {old new : α} (whole : full old = true) (standIn : full new = false) :
    latest full (some old) (some new) = some old := by
  simp [latest, whole, standIn]

theorem latest_assoc (x y z : Option α) :
    latest full (latest full x y) z = latest full x (latest full y z) := by
  rcases x with _ | a
  · simp
  rcases y with _ | b
  · simp
  rcases z with _ | c
  · simp
  cases wholeA : full a <;> cases wholeB : full b <;> cases wholeC : full c <;>
    simp [latest, wholeA, wholeB, wholeC]

theorem latest_self (x : Option α) : latest full x x = x := by
  cases x with
  | none => rfl
  | some a => simp [latest]

/-- Keeping twice is keeping once. -/
theorem latest_absorb (x y : Option α) :
    latest full x (latest full x y) = latest full x y := by
  rw [← latest_assoc, latest_self]

theorem latest_eq (x y : Option α) : latest full x y = x ∨ latest full x y = y := by
  rcases x with _ | a
  · exact .inr (latest_none_left y)
  rcases y with _ | b
  · exact .inl rfl
  unfold latest
  dsimp only
  split
  · exact .inr rfl
  · exact .inl rfl

theorem latest_eq_none {x y : Option α} : latest full x y = none ↔ x = none ∧ y = none := by
  rcases x with _ | a
  · simp
  rcases y with _ | b
  · simp
  unfold latest
  dsimp only
  split <;> simp

/-- What is kept is whole where one of the two was. -/
theorem any_latest (x y : Option α) : (latest full x y).any full = (x.any full || y.any full) := by
  rcases x with _ | a
  · simp
  rcases y with _ | b
  · simp
  cases wholeA : full a <;> cases wholeB : full b <;> simp [latest, wholeA, wholeB]

/-- Keeping looks at nothing but what is whole. -/
theorem map_latest {f : α → β} {full' : β → Bool} {x y : Option α}
    (onOld : ∀ a ∈ x, full' (f a) = full a) (onNew : ∀ a ∈ y, full' (f a) = full a) :
    (latest full x y).map f = latest full' (x.map f) (y.map f) := by
  rcases x with _ | a
  · simp
  rcases y with _ | b
  · simp
  unfold latest
  simp only [Option.map_some, onOld a rfl, onNew b rfl]
  split <;> rfl

theorem foldl_latest (xs : List α) (x : Option α) :
    xs.foldl (fun kept y => latest full kept (some y)) x = latest full x (latestOf full xs) := by
  unfold latestOf
  induction xs generalizing x with
  | nil => simp
  | cons y ys ih =>
      rw [List.foldl_cons, List.foldl_cons, ih, ih (latest full none (some y)), latest_none_left,
        latest_assoc]

@[simp] theorem latestOf_nil : latestOf full [] = none := rfl

theorem latestOf_append (xs ys : List α) :
    latestOf full (xs ++ ys) = latest full (latestOf full xs) (latestOf full ys) := by
  rw [latestOf, List.foldl_append, foldl_latest]
  rfl

theorem latestOf_cons (x : α) (xs : List α) :
    latestOf full (x :: xs) = latest full (some x) (latestOf full xs) := by
  rw [latestOf, List.foldl_cons, latest_none_left, foldl_latest]

@[simp] theorem latestOf_singleton (x : α) : latestOf full [x] = some x := rfl

theorem mem_of_latestOf {xs : List α} {x : α} (kept : latestOf full xs = some x) : x ∈ xs := by
  induction xs with
  | nil => cases kept
  | cons y ys ih =>
      rw [latestOf_cons] at kept
      rcases @latest_eq _ full (some y) (latestOf full ys) with first | later
      · rw [first] at kept
        exact Option.some.inj kept ▸ List.mem_cons_self
      · rw [later] at kept
        exact List.mem_cons_of_mem _ (ih kept)

theorem latestOf_eq_none {xs : List α} : latestOf full xs = none ↔ xs = [] := by
  cases xs with
  | nil => simp
  | cons y ys => simp [latestOf_cons, latest_eq_none]

theorem any_latestOf (xs : List α) : (latestOf full xs).any full = xs.any full := by
  induction xs with
  | nil => rfl
  | cons y ys ih => rw [latestOf_cons, any_latest, ih, List.any_cons, Option.any_some]

theorem map_latestOf {f : α → β} {full' : β → Bool} {xs : List α}
    (same : ∀ a ∈ xs, full' (f a) = full a) :
    (latestOf full xs).map f = latestOf full' (xs.map f) := by
  induction xs with
  | nil => rfl
  | cons y ys ih =>
      obtain ⟨first, rest⟩ := List.forall_mem_cons.mp same
      rw [latestOf_cons, List.map_cons, latestOf_cons, ← ih rest, map_latest]
      · rfl
      · rintro a ⟨⟩
        exact first
      · exact fun a kept => rest a (mem_of_latestOf kept)

/-- The last whole value is kept, whatever stand-ins come after it. -/
theorem latestOf_split {before after : List α} {x : α} (whole : full x = true)
    (standIns : ∀ y ∈ after, full y = false) :
    latestOf full (before ++ x :: after) = some x := by
  have tail : latestOf full (x :: after) = some x := by
    rw [latestOf_cons]
    cases kept : latestOf full after with
    | none => rfl
    | some y => exact latest_of_not_full whole (standIns y (mem_of_latestOf kept))
  rw [latestOf_append, tail, latest_of_full whole]

end Clearotron
