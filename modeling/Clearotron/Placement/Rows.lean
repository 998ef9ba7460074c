import Clearotron.Placement.Selecting

/-!
# The rows a form holds

Every row of a form is a candidate of the band with a judgment on it, or a row the seat wrote
about nothing the band holds. Where no record stands in two positions, no two candidates share an
id, and a submitted row speaks of one candidate at most, a pass keeps this, and each judgment
comes from a row about the same candidate.
-/

namespace Clearotron.Placement

variable {T : PlacementText} {input : PlacementInput} {c c' r row : Row} {sel : String}
  {f : SeatFields} {rows prior submitted : List Row}

def candidates (input : PlacementInput) : List Row := input.index.entries.map (·.2)

theorem mem_candidates {uri : String} (resolved : input.index.resolve uri = some c) :
    c ∈ candidates input :=
  List.mem_map.mpr ⟨_, Keyed.get_eq_some.mp resolved, rfl⟩

theorem isCandidate (mem : c ∈ candidates input) : IsCandidate c := by
  obtain ⟨⟨k, c⟩, there, rfl⟩ := List.mem_map.mp mem
  exact isCandidate_of_get (Keyed.get_eq_some.mpr there)

/-- No record stands in two positions, and no two candidates share an id. -/
structure WholeBand (input : PlacementInput) : Prop where
  whole : ∀ c ∈ candidates input, ∀ u ∈ c.records, input.index.resolve u = some c
  apart : ∀ c ∈ candidates input, ∀ c' ∈ candidates input, c.rowId = c'.rowId → c = c'

/-- Does a row name this candidate, by the id of its row, by its record set or by a record? -/
def Names (T : PlacementText) (input : PlacementInput) (row c : Row) : Prop :=
  (row.rowId.any (· ≠ "") = true ∧
      T.upper (Text.trim (row.rowId.getD "")) = T.upper (c.rowId.getD "")) ∨
    formRowKey T row = formRowKey T c ∨
    ∃ u ∈ row.records, input.index.resolve u = some c ∨ input.index.resolve (Text.trim u) = some c

instance : Decidable (Names T input row c) := by unfold Names; infer_instance

/-- Whatever candidate a row names is the one it selects. -/
def SpeaksOfOne (T : PlacementText) (input : PlacementInput) (row : Row) : Prop :=
  ∀ c ∈ candidates input, Names T input row c → input.index.candidateOf row = some c

instance : Decidable (SpeaksOfOne T input row) := by unfold SpeaksOfOne; infer_instance

/-- A candidate's row, selected by this id and judged so. -/
def judge (c : Row) (sel : String) (f : SeatFields) : Row :=
  { c with select := some sel, tier := f.tier, reason := f.reason, borderline := f.borderline }

/-- A text that is trimmed and not empty, or absent. -/
def IsTidy (s : Option String) : Prop := ∀ t ∈ s, Text.trim t = t ∧ t ≠ ""

/-- A selection that stands for this candidate. -/
structure Selects (input : PlacementInput) (sel : String) (c : Row) : Prop where
  trimmed : Text.trim sel = sel
  named : sel ≠ ""
  resolves : input.index.resolve sel = some c

theorem selects_of_selectionOf (is : selectionOf row = some sel)
    (resolves : input.index.resolve sel = some c) : Selects input sel c := by
  unfold selectionOf at is
  dsimp only at is
  split at is
  · rename_i named
    obtain rfl := Option.some.inj is
    exact ⟨Text.trim_trim _, named, resolves⟩
  · obtain ⟨u, found, rfl⟩ := Option.map_eq_some_iff.mp is
    have named : decide (Text.trim u ≠ "") = true :=
      List.find?_some (p := fun v => decide (Text.trim v ≠ "")) found
    exact ⟨Text.trim_trim _, of_decide_eq_true named, resolves⟩

theorem selectionOf_judge (selects : Selects input sel c) :
    selectionOf (judge c sel f) = some sel := by
  have own : Text.trim ((judge c sel f).select.getD "") = sel := selects.trimmed
  unfold selectionOf
  rw [own]
  exact if_pos selects.named

theorem map_trim_of_tidy {s : Option String} (tidy : IsTidy s) : s.map Text.trim = s := by
  cases s with
  | none => rfl
  | some t => rw [Option.map_some, (tidy t rfl).1]

theorem filter_of_tidy {s : Option String} (tidy : IsTidy s) : s.filter (· ≠ "") = s := by
  cases s with
  | none => rfl
  | some t => simp [(tidy t rfl).2]

theorem seatFields_judge (tier : IsTidy f.tier) (reason : IsTidy f.reason) :
    seatFields (judge c sel f) = f := by
  show SeatFields.mk (f.tier.map Text.trim) (f.reason.map Text.trim) f.borderline = f
  rw [map_trim_of_tidy tier, map_trim_of_tidy reason]

theorem formRowKey_candidate (is : IsCandidate c) : formRowKey T c = registerKey c.records := by
  unfold formRowKey
  rw [if_neg]
  simp [is.kind]

theorem registerKey_ne (records : List String) : registerKey records ≠ "" := by
  intro same
  have := congrArg String.toList same
  simp [registerKey, String.toList_append] at this

theorem seatKey_ne : seatKey T row ≠ "" := by
  intro same
  have := congrArg String.toList same
  simp [seatKey, String.toList_append] at this

theorem seatKey_ne_registerKey (records : List String) : seatKey T row ≠ registerKey records := by
  intro same
  have second := congrArg (fun s => s.toList[0]?) same
  simp [registerKey, seatKey, String.toList_append] at second

/-- The id of a candidate in upper case, trimmed or not. -/
theorem upper_rowId (is : IsCandidate c) :
    T.upper (Text.trim (c.rowId.getD "")) = c.rowId.getD "" ∧
      T.upper (c.rowId.getD "") = c.rowId.getD "" := by
  rw [is.rowId, Option.getD_some]
  exact shortId_upper T.toLocale (by simp)

/-- A row of the form that is a candidate's. -/
structure IsRegisterRow (input : PlacementInput) (r c : Row) (sel : String) (f : SeatFields) : Prop where
  is : r = judge c sel f
  selects : Selects input sel c
  tier : IsTidy f.tier
  reason : IsTidy f.reason
  kept : isFilteredFloor input r = false

/-- A row of the form that is the seat's own: it names nothing the band holds. -/
structure IsSeatRow (T : PlacementText) (input : PlacementInput) (r : Row) : Prop where
  is : ∃ x, r = seatRow T x
  foreign : ∀ u ∈ r.records,
    input.index.resolve u = none ∧ input.index.resolve (Text.trim u) = none

/-- The rows of a form. -/
structure SoundRows (T : PlacementText) (input : PlacementInput) (rows : List Row) : Prop where
  nodup : (rows.map (formRowKey T)).Nodup
  each : ∀ r ∈ rows, (∃ c sel f, IsRegisterRow input r c sel f) ∨ IsSeatRow T input r

theorem soundRows_nil : SoundRows T input [] := ⟨List.nodup_nil, by simp⟩

namespace IsRegisterRow

variable (h : IsRegisterRow input r c sel f)

include h

theorem candidate : IsCandidate c := isCandidate (mem_candidates h.selects.resolves)

theorem rowId : r.rowId = c.rowId := by rw [h.is]; rfl

theorem records : r.records = c.records := by rw [h.is]; rfl

theorem key : formRowKey T r = formRowKey T c := by rw [h.is]; rfl

theorem kind : r.kind = some "register" := by rw [h.is]; exact h.candidate.kind

theorem selection : selectionOf r = some sel := by rw [h.is]; exact selectionOf_judge h.selects

theorem candidateOf : input.index.candidateOf r = some c := by
  unfold SelectionIndex.candidateOf
  rw [h.selection]
  exact h.selects.resolves

theorem fields : seatFields r = f := by rw [h.is]; exact seatFields_judge h.tier h.reason

theorem seen : seenKey T input r = some (formRowKey T r) := by
  unfold seenKey
  rw [h.selection]
  dsimp only
  rw [h.selects.resolves]
  exact congrArg some h.key.symm

theorem taken : takenAsSelection input r = true := by
  unfold takenAsSelection
  rw [h.selection, h.kind]
  rfl

end IsRegisterRow

namespace IsSeatRow

variable (h : IsSeatRow T input r)

include h

theorem kind : r.kind = some "seat" := by
  obtain ⟨x, rfl⟩ := h.is
  rfl

theorem key : formRowKey T r = seatKey T r := if_pos h.kind

theorem rowId : r.rowId = some (shortId "PS" (seatKey T r)) := by
  obtain ⟨x, rfl⟩ := h.is
  rfl

theorem self : seatRow T r = r := by
  obtain ⟨x, rfl⟩ := h.is
  exact seatRow_seatRow

theorem candidateOf : input.index.candidateOf r = none := by
  unfold SelectionIndex.candidateOf selectionOf
  obtain ⟨x, is⟩ := h.is
  have unselected : Text.trim (r.select.getD "") = "" := by
    rw [is]
    rfl
  rw [unselected]
  simp only [ne_eq, not_true_eq_false, if_false]
  cases found : r.records.find? (Text.trim · ≠ "") with
  | none => rfl
  | some u => exact (h.foreign u (List.mem_of_find?_eq_some found)).2

theorem seen : seenKey T input r = none := by
  have none' := h.candidateOf
  unfold SelectionIndex.candidateOf at none'
  unfold seenKey
  cases selects : selectionOf r with
  | none => rfl
  | some sel =>
    rw [selects] at none'
    dsimp only
    rw [show input.index.resolve sel = none from none']
    exact if_pos h.kind

theorem not_taken : takenAsSelection input r = false := by
  unfold takenAsSelection
  rw [h.kind, h.candidateOf]
  simp

end IsSeatRow

end Clearotron.Placement
