import Clearotron.Library.Firsts
import Clearotron.Placement.Union

/-!
# What the two passes over the rows leave

The pass over the selections keeps the first row of every position and reports the first of
every selection the band does not hold; the pass over the seat's own rows keeps the first of
every key. Both are read back here as statements about first rows.
-/

namespace Clearotron.Placement

variable {T : PlacementText} {input : PlacementInput} {retracted : List String}
  {row next : Row} {rows xs : List Row} {u : Unresolved} {k : String}

section

variable (T input)

/-- What a row is seen as: its position, or a selection that the band does not hold. -/
def seenKey (row : Row) : Option String :=
  match selectionOf row with
  | none => none
  | some sel =>
    match input.index.resolve sel with
    | none => if row.kind = some "seat" then none else some ("?" ++ sel)
    | some canonical => some (formRowKey T canonical)

variable (retracted) in
/-- The candidate a row selects, unless it is retracted. -/
def selectedOf (row : Row) : Option Row :=
  (selectionOf row).bind fun sel => (input.index.resolve sel).bind fun canonical =>
    let next := { canonical with select := some sel }
    if isRetracted T retracted next || isRetracted T retracted row then none else some next

/-- What is reported of a row whose selection the band does not hold. -/
def unresolvedOf (row : Row) : Option Unresolved :=
  (selectionOf row).bind fun sel =>
    if (input.index.resolve sel).isSome ∨ row.kind = some "seat" then none
    else some ⟨sel, (seatFields row).tier, notInBand⟩

end

theorem pushSelection_eq (st : Selections) (row : Row) :
    pushSelection T input retracted st row =
      match seenKey T input row with
      | none => st
      | some k =>
        if k ∈ st.seen then st
        else
          { seen := k :: st.seen
            selections := st.selections ++ (selectedOf T input retracted row).toList
            unresolved := st.unresolved ++ (unresolvedOf input row).toList } := by
  unfold pushSelection seenKey selectedOf unresolvedOf
  cases selectionOf row with
  | none => rfl
  | some sel =>
    simp only [Option.bind_some]
    cases input.index.resolve sel with
    | none =>
      by_cases own : row.kind = some "seat"
      · simp [own]
      · by_cases there : "?" ++ sel ∈ st.seen
        · simp [own, there]
        · simp [own, there]
    | some canonical =>
      by_cases there : formRowKey T canonical ∈ st.seen
      · simp [there]
      · simp only [there, if_false, Option.bind_some, Option.isSome_some, true_or, if_true]
        split <;> simp

/-- The key of what a row selects is the key it is seen by. -/
theorem seenKey_of_selectedOf (is : selectedOf T input retracted row = some next) :
    seenKey T input row = some (formRowKey T next) := by
  unfold selectedOf at is
  obtain ⟨sel, selects, is⟩ := Option.bind_eq_some_iff.mp is
  obtain ⟨canonical, resolved, is⟩ := Option.bind_eq_some_iff.mp is
  dsimp only at is
  split at is
  · cases is
  · obtain rfl := Option.some.inj is
    unfold seenKey
    rw [selects]
    dsimp only
    rw [resolved]
    rfl

/-- What the pass over the selections holds, once it has read these rows. -/
structure Selected (T : PlacementText) (input : PlacementInput) (retracted : List String)
    (rows : List Row) (st : Selections) : Prop where
  seen : ∀ k, k ∈ st.seen ↔ ∃ x ∈ rows, seenKey T input x = some k
  selections : ∀ next, next ∈ st.selections ↔
    ∃ x, IsFirst (seenKey T input) rows x ∧ selectedOf T input retracted x = some next
  nodup : (st.selections.map (formRowKey T)).Nodup
  unresolved : ∀ u, u ∈ st.unresolved ↔
    ∃ x, IsFirst (seenKey T input) rows x ∧ unresolvedOf input x = some u

theorem Selected.push {st : Selections} (h : Selected T input retracted rows st) (row : Row) :
    Selected T input retracted (rows ++ [row]) (pushSelection T input retracted st row) := by
  rw [pushSelection_eq]
  cases keyed : seenKey T input row with
  | none =>
    have same (x : Row) : IsFirst (seenKey T input) (rows ++ [row]) x ↔
        IsFirst (seenKey T input) rows x := by simp [IsFirst.concat_iff, keyed]
    refine ⟨fun k => ?_, fun next => ?_, h.nodup, fun u => ?_⟩
    · rw [h.seen]
      simp [List.mem_append, or_and_right, exists_or, keyed]
    · simp only [h.selections, same]
    · simp only [h.unresolved, same]
  | some k =>
    dsimp only
    by_cases there : k ∈ st.seen
    · rw [if_pos there]
      obtain ⟨x, mem, is⟩ := (h.seen k).mp there
      have same (y : Row) : IsFirst (seenKey T input) (rows ++ [row]) y ↔
          IsFirst (seenKey T input) rows y := by
        rw [IsFirst.concat_iff]
        refine or_iff_left fun new => ?_
        exact new.2.2 x mem (is.trans keyed.symm)
      refine ⟨fun k' => ?_, fun next => ?_, h.nodup, fun u => ?_⟩
      · rw [h.seen]
        constructor
        · rintro ⟨y, mem, is⟩
          exact ⟨y, List.mem_append_left _ mem, is⟩
        · rintro ⟨y, mem', is'⟩
          obtain mem' | mem' := List.mem_append.mp mem'
          · exact ⟨y, mem', is'⟩
          · obtain rfl := List.mem_singleton.mp mem'
            exact ⟨x, mem, by rw [is, ← keyed, is']⟩
      · simp only [h.selections, same]
      · simp only [h.unresolved, same]
    · rw [if_neg there]
      have fresh : ∀ x ∈ rows, seenKey T input x ≠ seenKey T input row := fun x mem same =>
        there ((h.seen k).mpr ⟨x, mem, same.trans keyed⟩)
      have first (y : Row) : IsFirst (seenKey T input) (rows ++ [row]) y ↔
          IsFirst (seenKey T input) rows y ∨ y = row := by
        rw [IsFirst.concat_iff, keyed]
        simp only [Option.isSome_some, true_and]
        exact or_congr_right (and_iff_left (keyed ▸ fresh))
      refine ⟨fun k' => ?_, fun next => ?_, ?_, fun u => ?_⟩
      · rw [List.mem_cons, h.seen]
        simp only [List.mem_append, List.mem_singleton, or_and_right, exists_or, exists_eq_left,
          keyed, Option.some.injEq, eq_comm (a := k'), or_comm]
      · simp only [List.mem_append, Option.mem_toList, h.selections, first, or_and_right, exists_or,
          exists_eq_left]
      · rw [List.map_append, List.nodup_append]
        refine ⟨h.nodup, ?_, ?_⟩
        · cases selectedOf T input retracted row <;> simp
        · intro key mem key' mem' same
          obtain ⟨next, kept, rfl⟩ := List.mem_map.mp mem
          obtain ⟨next', kept', rfl⟩ := List.mem_map.mp mem'
          obtain ⟨x, isFirst, is⟩ := (h.selections next).mp kept
          refine fresh x isFirst.mem ?_
          rw [seenKey_of_selectedOf is, same,
            seenKey_of_selectedOf (Option.mem_toList.mp kept')]
      · simp only [List.mem_append, Option.mem_toList, h.unresolved, first, or_and_right, exists_or,
          exists_eq_left]

theorem selected_foldl (rows : List Row) :
    Selected T input retracted rows (rows.foldl (pushSelection T input retracted) {}) := by
  induction rows using List.reverseRecOn with
  | nil => exact ⟨by simp, by simp [IsFirst.not_nil], List.nodup_nil, by simp [IsFirst.not_nil]⟩
  | append_singleton rows row ih =>
    rw [List.foldl_append]
    exact ih.push row

/-- The key of a seat's own row. -/
def seatKeyOf (T : PlacementText) (row : Row) : Option String :=
  if row.kind = some "register" then none else some (seatKey T row)

theorem mem_seatRows {seen : List String} {out : Row} :
    out ∈ seatRows T xs seen ↔
      ∃ x, IsFirst (seatKeyOf T) xs x ∧ seatKey T x ∉ seen ∧ out = seatRow T x := by
  induction xs generalizing seen with
  | nil => simp [seatRows, IsFirst.not_nil]
  | cons r rest ih =>
    unfold seatRows
    simp only [IsFirst.cons_iff, or_and_right, exists_or]
    by_cases driver : r.kind = some "register"
    · have unkeyed : seatKeyOf T r = none := if_pos driver
      rw [if_pos (.inl driver), ih, unkeyed]
      constructor
      · rintro ⟨x, first, absent, is⟩
        refine .inr ⟨x, ⟨first, fun none => ?_⟩, absent, is⟩
        obtain ⟨_, _, -, keyed, -⟩ := first
        simp [← none] at keyed
      · rintro (⟨x, ⟨-, keyed⟩, -⟩ | ⟨x, ⟨first, -⟩, absent, is⟩)
        · cases keyed
        · exact ⟨x, first, absent, is⟩
    · have keyed : seatKeyOf T r = some (seatKey T r) := if_neg driver
      have keyOf {x : Row} (first : IsFirst (seatKeyOf T) rest x) :
          seatKeyOf T x = some (seatKey T x) := by
        obtain ⟨_, _, -, some', -⟩ := first
        unfold seatKeyOf at some' ⊢
        split at some'
        · cases some'
        · rename_i own
          exact if_neg own
      by_cases there : seatKey T r ∈ seen
      · rw [if_pos (.inr there), ih]
        constructor
        · rintro ⟨x, first, absent, is⟩
          refine .inr ⟨x, ⟨first, fun same => absent ?_⟩, absent, is⟩
          rw [keyed, keyOf first] at same
          rwa [← Option.some.inj same]
        · rintro (⟨x, ⟨rfl, -⟩, absent, -⟩ | ⟨x, ⟨first, -⟩, absent, is⟩)
          · exact absurd there absent
          · exact ⟨x, first, absent, is⟩
      · rw [if_neg (not_or.mpr ⟨driver, there⟩), List.mem_cons, ih]
        refine or_congr ?_ ?_
        · simp [keyed, there]
        · refine exists_congr fun x => ?_
          constructor
          · rintro ⟨first, absent, is⟩
            refine ⟨⟨first, fun same => ?_⟩, fun mem => absent (List.mem_cons_of_mem _ mem), is⟩
            rw [keyed, keyOf first] at same
            exact absent (List.mem_cons.mpr (.inl (Option.some.inj same).symm))
          · rintro ⟨⟨first, ne⟩, absent, is⟩
            refine ⟨first, fun mem => ?_, is⟩
            obtain same | mem := List.mem_cons.mp mem
            · exact ne (by rw [keyed, keyOf first, same])
            · exact absent mem

@[simp] theorem seatKey_seatRow : seatKey T (seatRow T row) = seatKey T row := rfl

@[simp] theorem kind_seatRow : (seatRow T row).kind = some "seat" := rfl

theorem formRowKey_seatRow : formRowKey T (seatRow T row) = seatKey T row := if_pos rfl

theorem nodup_seatRows {seen : List String} :
    ((seatRows T xs seen).map (formRowKey T)).Nodup ∧
      ∀ k ∈ (seatRows T xs seen).map (formRowKey T), k ∉ seen := by
  induction xs generalizing seen with
  | nil => simp [seatRows]
  | cons r rest ih =>
    unfold seatRows
    split
    · exact ih
    · rename_i new
      obtain ⟨nodup, absent⟩ := @ih (seatKey T r :: seen)
      rw [List.map_cons, formRowKey_seatRow, List.nodup_cons]
      refine ⟨⟨fun mem => absent _ mem List.mem_cons_self, nodup⟩, fun k mem => ?_⟩
      obtain rfl | mem := List.mem_cons.mp mem
      · exact (not_or.mp new).2
      · exact fun there => absent k mem (List.mem_cons_of_mem _ there)

/-- A seat's row that the form holds is written back as it is. -/
theorem seatRow_seatRow : seatRow T (seatRow T row) = seatRow T row := by
  have trimmed (s : Option String) : (s.map Text.trim).map Text.trim = s.map Text.trim := by
    cases s with
    | none => rfl
    | some text => simp only [Option.map_some, Text.trim_trim]
  rw [seatRow, seatKey_seatRow]
  simp only [seatRow, seatFields, trimmed, List.filter_filter, Bool.and_self, Option.getD_some]

end Clearotron.Placement
