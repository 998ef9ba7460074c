import Mathlib.Data.Multiset.Bind
import Mathlib.Algebra.BigOperators.Group.List.Basic
import Clearotron.Register.Enumerated

/-!
# What a question covers, and the pieces an account settled it in

A question covers one cell for each of its names, in each of its regions, in each
class it is counted by. The pieces of an account are the questions that were really
put to the provider to settle it: read page by page, or counted at zero. Cells are
counted with multiplicity, so a partition is an equation between multisets.
-/

namespace Clearotron

/-- A name, a region and a class; `none` where the question does not narrow. -/
abbrev Cell := Option String × Option String × Option Nat

section Coordinates

variable {α : Type}

/-- The values a question narrows to along one axis, or the one value of a question
that does not narrow along it. -/
def coordinates (xs : List α) : Multiset (Option α) :=
  if xs = [] then {none} else (xs.map some : List (Option α))

theorem coordinates_append {xs ys : List α} (hx : xs ≠ []) (hy : ys ≠ []) :
    coordinates (xs ++ ys) = coordinates xs + coordinates ys := by
  simp [coordinates, hx, hy]

theorem coordinates_perm {xs ys : List α} (h : xs.Perm ys) :
    coordinates xs = coordinates ys := by
  by_cases hx : xs = []
  · subst hx
    rw [h.nil_eq]
  · unfold coordinates
    have hy : ys ≠ [] := fun hy => hx (by rw [hy] at h; exact h.eq_nil)
    rw [if_neg hx, if_neg hy]
    exact Multiset.coe_eq_coe.mpr (h.map some)

/-- Nonempty parts put together narrow to what the whole narrows to. -/
theorem sum_coordinates {parts : List (List α)} (parts_ne : parts ≠ [])
    (nonempty : ∀ part ∈ parts, part ≠ []) :
    (parts.map coordinates).sum = coordinates parts.flatten := by
  induction parts with
  | nil => exact absurd rfl parts_ne
  | cons part parts ih =>
      cases parts with
      | nil => simp
      | cons next rest =>
          have here : part ≠ [] := nonempty part (by simp)
          have later : (next :: rest).flatten ≠ [] := by
            have : next ≠ [] := nonempty next (by simp)
            simp [this]
          rw [List.map_cons, List.sum_cons, ih (by simp) fun p hp => nonempty p (by simp [hp]),
            ← coordinates_append here later]
          rfl

theorem sum_product_left {ι β : Type} (f : ι → Multiset α) (t : Multiset β) (parts : List ι) :
    (parts.map fun i => f i ×ˢ t).sum = (parts.map f).sum ×ˢ t := by
  induction parts with
  | nil => simp
  | cons part parts ih => simp [ih, Multiset.add_product]

theorem sum_product_right {ι β : Type} (s : Multiset α) (f : ι → Multiset β)
    (parts : List ι) : (parts.map fun i => s ×ˢ f i).sum = s ×ˢ (parts.map f).sum := by
  induction parts with
  | nil => simp
  | cons part parts ih => simp [ih, Multiset.product_add]

end Coordinates

/-- Everything a question covers. -/
def Params.cells (q : Params) : Multiset Cell :=
  coordinates q.listed ×ˢ coordinates (q.regions.getD []) ×ˢ coordinates q.splitClasses

/-- Windows that together list the names cover what the question covers. -/
theorem Params.cells_windows {q : Params} {parts : List (List String)} (parts_ne : parts ≠ [])
    (nonempty : ∀ part ∈ parts, part ≠ []) (whole : parts.flatten = q.listed) :
    (parts.map fun names => ({ q with names := some names } : Params).cells).sum = q.cells := by
  have listed : ∀ part ∈ parts,
      ({ q with names := some part } : Params).listed = part := by
    intro part mem
    rw [Params.listed_withNames, List.filter_eq_self]
    intro n hn
    have : n ∈ q.listed := by rw [← whole]; exact List.mem_flatten.mpr ⟨part, mem, hn⟩
    simpa using Params.mem_listed this
  calc (parts.map fun names => ({ q with names := some names } : Params).cells).sum
      = (parts.map fun names => coordinates names ×ˢ
          coordinates (q.regions.getD []) ×ˢ coordinates q.splitClasses).sum := by
        congr 1
        refine List.map_congr_left fun part mem => ?_
        unfold Params.cells
        rw [listed part mem, Params.splitClasses_withNames]
    _ = q.cells := by
        rw [sum_product_left, sum_coordinates parts_ne nonempty, whole]
        rfl

/-- The two halves of the regions cover what the question covers. -/
theorem Params.cells_halves {q : Params} (several : 1 < (q.regions.getD []).length) :
    ({ q with regions := some (halfOf (q.regions.getD [])) } : Params).cells +
      ({ q with regions := some (otherHalf (q.regions.getD [])) } : Params).cells =
        q.cells := by
  have nonempty : halfOf (q.regions.getD []) ≠ [] := by
    rw [← List.length_pos_iff, halfOf_length]; omega
  have nonempty' : otherHalf (q.regions.getD []) ≠ [] := by
    rw [← List.length_pos_iff, otherHalf_length]; omega
  have halves : coordinates (q.regions.getD []) =
      coordinates (halfOf (q.regions.getD [])) + coordinates (otherHalf (q.regions.getD [])) := by
    rw [← coordinates_append nonempty nonempty', halfOf_append_otherHalf]
  simp only [Params.cells, Params.listed_withRegions, Params.splitClasses_withRegions,
    Option.getD_some]
  rw [halves, Multiset.add_product, Multiset.product_add]

theorem Params.isOwnerScoped_of_splitClasses {q : Params} (h : q.splitClasses ≠ []) :
    q.isOwnerScoped = true := by
  unfold Params.splitClasses at h
  split at h
  · next owner => exact owner
  · exact absurd rfl h

theorem Params.splitClasses_ofClass {q : Params} (h : q.splitClasses ≠ []) (c : Nat) :
    (q.ofClass c).splitClasses = [c] := by
  have owner : (q.ofClass c).isOwnerScoped = true :=
    (Params.isOwnerScoped_of_splitClasses h : q.isOwnerScoped = true)
  unfold Params.splitClasses
  rw [if_pos owner]
  simp [Params.ofClass]

theorem flatten_singletons {α : Type} (xs : List α) : (xs.map fun x => [x]).flatten = xs := by
  induction xs with
  | nil => rfl
  | cons x xs ih => simp [ih]

/-- The classes, each by itself and in any order, cover what the question covers. -/
theorem Params.cells_classes {q : Params} {classes : List Nat}
    (several : 1 < q.splitClasses.length) (perm : classes.Perm q.splitClasses) :
    (classes.map fun c => (q.ofClass c).cells).sum = q.cells := by
  have parts_ne : q.splitClasses ≠ [] := by
    rintro h
    simp [h] at several
  have legs_ne : classes.map (fun c => [c]) ≠ [] := by
    rintro h
    have : classes = [] := by simpa using h
    exact parts_ne (by rw [this] at perm; exact perm.nil_eq.symm)
  calc (classes.map fun c => (q.ofClass c).cells).sum
      = (classes.map fun c => coordinates q.listed ×ˢ
          (coordinates (q.regions.getD []) ×ˢ coordinates [c])).sum := by
        congr 1
        refine List.map_congr_left fun c _ => ?_
        unfold Params.cells
        rw [Params.splitClasses_ofClass parts_ne, Params.listed_ofClass]
        rfl
    _ = coordinates q.listed ×ˢ (coordinates (q.regions.getD []) ×ˢ
          ((classes.map fun c => [c]).map coordinates).sum) := by
        rw [sum_product_right, sum_product_right, List.map_map]
        rfl
    _ = q.cells := by
        rw [sum_coordinates legs_ne (by simp), flatten_singletons, coordinates_perm perm]
        rfl

/-- The spellings, each by itself, cover what the question covers. -/
theorem Params.cells_terms {q : Params} (several : q.listed ≠ []) :
    (q.listed.map fun t => (q.ofTerm t).cells).sum = q.cells := by
  have singles : q.listed.map (fun t => [t]) ≠ [] := by simpa using several
  have windows := Params.cells_windows (q := q) singles (by simp) (flatten_singletons _)
  rw [List.map_map] at windows
  exact windows

theorem flatten_chunks (width : Nat) (names : List String) (count : Nat) :
    ((List.range count).map fun i => (names.drop (i * width)).take width).flatten =
      names.take (count * width) := by
  induction count with
  | zero => simp
  | succ count ih =>
      rw [List.range_succ, List.map_append, List.flatten_append, ih, Nat.succ_mul,
        List.take_add]
      simp

theorem windowsOf_flatten {width : Nat} (positive : 0 < width) (names : List String) :
    ((windowsOf width names).map Prod.snd).flatten = names := by
  have chunks : (windowsOf width names).map Prod.snd =
      (List.range ((names.length + width - 1) / width)).map
        fun i => (names.drop (i * width)).take width := by
    simp [windowsOf, List.map_map]
  rw [chunks, flatten_chunks, List.take_of_length_le]
  have whole := Nat.div_add_mod (names.length + width - 1) width
  have rest := Nat.mod_lt (names.length + width - 1) positive
  rw [Nat.mul_comm] at whole
  omega

/-- No window is empty. -/
theorem windowsOf_ne_nil {width : Nat} (positive : 0 < width) {names : List String}
    {w : Nat × List String} (mem : w ∈ windowsOf width names) : w.2 ≠ [] := by
  simp only [windowsOf, List.mem_map, List.mem_range] at mem
  obtain ⟨i, small, rfl⟩ := mem
  have bound : i * width + width ≤ names.length + width - 1 := by
    have := (Nat.le_div_iff_mul_le positive).mp (Nat.succ_le_of_lt small)
    rwa [Nat.succ_mul] at this
  rw [← List.length_pos_iff, List.length_take, List.length_drop]
  omega

end Clearotron
