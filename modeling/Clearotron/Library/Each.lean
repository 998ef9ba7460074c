import Mathlib.Data.List.Forall2

/-!
# Readers that may fail

Where a reader that goes on from another one passes, both do. A reader run on each item of a list
passes where each item reads, and what it returns stands item by item beside what was read.

Two lists whose items are related one by one: every item of either has its partner.
-/

namespace Clearotron

variable {α β ε : Type}

theorem bind_eq_ok {x : Except ε α} {f : α → Except ε β} {b : β} (is : x.bind f = .ok b) :
    ∃ a, x = .ok a ∧ f a = .ok b := by
  cases x with
  | error _ => cases is
  | ok a => exact ⟨a, rfl, is⟩

theorem map_eq_ok {x : Except ε α} {f : α → β} {b : β} (is : x.map f = .ok b) :
    ∃ a, x = .ok a ∧ f a = b := by
  cases x with
  | error _ => cases is
  | ok a => exact ⟨a, rfl, Except.ok.inj is⟩

/-- Where each item reads, the list reads as their values. -/
theorem mapM_ok {f : α → Except ε β} {g : α → β} {l : List α}
    (each : ∀ x ∈ l, f x = .ok (g x)) : l.mapM f = .ok (l.map g) := by
  induction l with
  | nil => rfl
  | cons x l ih =>
    rw [List.mapM_cons, each x List.mem_cons_self,
      ih fun y mem => each y (List.mem_cons_of_mem _ mem)]
    rfl

theorem forall₂_of_mapM {f : α → Except ε β} {l : List α} {l' : List β}
    (ok : l.mapM f = .ok l') : List.Forall₂ (fun a b => f a = .ok b) l l' := by
  induction l generalizing l' with
  | nil =>
    obtain rfl := Except.ok.inj ok
    exact .nil
  | cons a l ih =>
    rw [List.mapM_cons] at ok
    cases first : f a with
    | error e => simp [first, bind, Except.bind] at ok
    | ok b =>
      cases rest : l.mapM f with
      | error e => simp [first, rest, bind, Except.bind] at ok
      | ok bs =>
        simp only [first, rest, bind, Except.bind] at ok
        obtain rfl := Except.ok.inj ok
        exact .cons first (ih rest)

theorem exists_of_mem_mapM {f : α → Except ε β} {l : List α} {l' : List β}
    (ok : l.mapM f = .ok l') {b : β} (mem : b ∈ l') : ∃ a ∈ l, f a = .ok b := by
  obtain ⟨i, bound, rfl⟩ := List.getElem_of_mem mem
  have each := List.forall₂_iff_get.mp (forall₂_of_mapM ok)
  exact ⟨_, List.get_mem l ⟨i, each.1 ▸ bound⟩, each.2 i (each.1 ▸ bound) bound⟩

/-- Where each item gives something, the list does, and each result is that of an item. -/
theorem mapM_isSome {f : α → Option β} (l : List α)
    (every : ∀ x ∈ l, (f x).isSome = true) : ∃ out, l.mapM f = some out ∧
      ∀ y ∈ out, ∃ x ∈ l, f x = some y := by
  induction l with
  | nil => exact ⟨[], rfl, by simp⟩
  | cons x l ih =>
    obtain ⟨y, is⟩ := Option.isSome_iff_exists.mp (every x List.mem_cons_self)
    obtain ⟨out, rest, from_⟩ := ih fun x mem => every x (List.mem_cons_of_mem _ mem)
    refine ⟨y :: out, by simp [List.mapM_cons, is, rest], fun z mem => ?_⟩
    obtain rfl | mem := List.mem_cons.mp mem
    · exact ⟨x, List.mem_cons_self, is⟩
    · obtain ⟨x, mem, is⟩ := from_ z mem
      exact ⟨x, List.mem_cons_of_mem _ mem, is⟩

end Clearotron

namespace Clearotron

variable {α β : Type*} {R : α → β → Prop} {l : List α} {l' : List β}

theorem exists_partner (each : List.Forall₂ R l l') {a : α} (mem : a ∈ l) : ∃ b ∈ l', R a b := by
  induction each with
  | nil => cases mem
  | @cons a' b _ _ here _ ih =>
    obtain rfl | mem := List.mem_cons.mp mem
    · exact ⟨b, List.mem_cons_self, here⟩
    · obtain ⟨b', there, related⟩ := ih mem
      exact ⟨b', List.mem_cons_of_mem _ there, related⟩

theorem exists_partner_of (each : List.Forall₂ R l l') {b : β} (mem : b ∈ l') :
    ∃ a ∈ l, R a b := exists_partner each.flip mem

end Clearotron
