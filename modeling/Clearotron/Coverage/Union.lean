import Mathlib.Data.List.GetD
import Clearotron.Coverage.Form

/-!
# The form's union

Each pass of the digest is unioned into the form the driver keeps. The driver's rows are
computed anew every pass and take their judgment from the submission, else from the form
before it; the seat's own rows are those of the submission, where there is one.
-/

namespace Clearotron

/-- What one pass hands in: the rows, none where they are no list, and the rows given up on. -/
structure CoveragePass where
  submitted : Option (List SubmittedRow)
  parkedIds : List String := []

/-- What `unionCoverageForm` returns. -/
structure UnionedForm where
  rows : List FormRow
  total : Nat
  settled : Nat
  parked : Nat
  outstanding : Nat
  carried : Nat
  deriving Repr

/-- What the union writes on a driver's row. -/
structure RowOutcome where
  status : String
  reason : String
  digestReason : Option String
  parked : Bool := false
  parkedRefusals : Nat := 0
  parkedReason : String := ""
  deriving DecidableEq, Repr

def FormRow.take (row : FormRow) (o : RowOutcome) : FormRow :=
  { row with
    status := o.status, reason := o.reason, digestReason := o.digestReason
    parked := o.parked, parkedRefusals := o.parkedRefusals, parkedReason := o.parkedReason }

section

variable (R : Locale)

/-- The row of a list that answers a driver's row: by its id, else by its key, the last. -/
def indexRows (rows : List FormRow) (canonical : FormRow) : Option FormRow :=
  (rows.reverse.find? fun r =>
    r.rowId ≠ "" ∧ R.upper (Text.trim r.rowId) = R.upper canonical.rowId) <|>
  rows.reverse.find? fun r => formRowKey R r = formRowKey R canonical

/-- Which of the three judgments of a row stands, and what is kept beside it. -/
def mergedFields (p s : Option FormRow) (row : FormRow) : SeatFields × Option String :=
  let sOk := s.any (rowIsSettled R · row)
  let pOk := p.any (rowIsSettled R · row)
  let dOk := rowIsSettled R row row
  if row.kind = "family" ∧ row.reasonFrom ≠ "" ∧ dOk then
    -- the reading turn's own judgment stays the row's
    let own := seatFields R row
    let theirs := if sOk then s.map fun s => (seatFields R s).reason else p.bind (·.digestReason)
    (own, theirs.filter fun t => t ≠ "" ∧ t ≠ own.reason)
  else
    let sf := seatFields R (s.getD {})
    let pf := seatFields R (p.getD {})
    let fields :=
      if sOk then sf
      else if pOk then pf
      else if dOk then seatFields R row
      else
        -- half a judgment may be completed by the other half
        ⟨if sf.status = "" then pf.status else sf.status,
          if sf.reason = "" then pf.reason else sf.reason⟩
    (fields, row.digestReason)

def rowOutcome (newlyParked : List String) (p s : Option FormRow) (row : FormRow) : RowOutcome :=
  let (fields, digestReason) := mergedFields R p s row
  let merged := { row with status := fields.status, reason := fields.reason }
  if !rowIsSettled R merged merged ∧
      (Text.trim row.rowId ∈ newlyParked ∨ p.any (·.parked)) then
    { status := fields.status, reason := fields.reason, digestReason, parked := true
      parkedRefusals := (p.map (·.parkedRefusals)).getD 0
      parkedReason := (p.map (·.parkedReason)).getD "" }
  else { status := fields.status, reason := fields.reason, digestReason }

/-- The driver's rows of a pass, given what the form before it held. -/
def unionRow (prior : List FormRow) (pass : CoveragePass) (row : FormRow) : FormRow :=
  let submitted := (pass.submitted.getD []).filterMap SubmittedRow.row?
  let newlyParked := (pass.parkedIds.map Text.trim).filter (· ≠ "")
  row.take (rowOutcome R newlyParked (indexRows R prior row) (indexRows R submitted row) row)

/-- Union the submitted rows into the judgments the driver already holds. -/
def unionCoverageForm (prior : List FormRow) (pass : CoveragePass) (input : CoverageInput) :
    UnionedForm :=
  let canonical := input.coverageFormRows R
  let driver := canonical.map (unionRow R prior pass)
  let driverKeys := driver.map (formRowKey R)
  let seats := seatRows R (pass.submitted.getD (prior.map .object)) driverKeys
  let rows := driver ++ seats
  let settled := rows.countP fun r => rowIsSettled R r r
  let parked := driver.countP (·.parked)
  let submitted := (pass.submitted.getD []).filterMap SubmittedRow.row?
  { rows
    total := rows.length
    settled
    parked
    outstanding := rows.length - settled - parked
    carried := canonical.countP fun row =>
      let r := unionRow R prior pass row
      rowIsSettled R r r && !(indexRows R submitted row).any (rowIsSettled R · row) }

/-- The form after the passes of a run. -/
def coverageForm (input : CoverageInput) (passes : List CoveragePass) : List FormRow :=
  passes.foldl (fun prior pass => (unionCoverageForm R prior pass input).rows) []

end

/-- What no submission can change of a row. -/
def FormRow.facts (row : FormRow) : FormRow := row.take ⟨"", "", none, false, 0, ""⟩

@[simp] theorem FormRow.facts_take (row : FormRow) (o : RowOutcome) :
    (row.take o).facts = row.facts := rfl

theorem FormRow.key_take (R : Locale) (row : FormRow) (o : RowOutcome) :
    formRowKey R (row.take o) = formRowKey R row := rfl

/-- The letters before the dash of an id. -/
def driverPrefixes : List String := ["CA", "CB", "CD", "CF", "CO", "CL"]

/-- A row the driver computes. -/
structure IsDriverRow (row : FormRow) : Prop where
  id : ∃ idPrefix ∈ driverPrefixes, ∃ key, key ≠ "" ∧ row.rowId = shortId idPrefix key
  kind : row.kind ∈ driverKinds
  unparked : row.parked = false

namespace CoverageInput

variable {R : Locale} {input : CoverageInput}

theorem append_ne_empty {s t : String} (h : s ≠ "") : s ++ t ≠ "" := by
  intro blank
  apply h
  have := congrArg String.toList blank
  simp only [String.toList_append, String.toList_empty, List.append_eq_nil_iff] at this
  exact String.toList_inj.mp this.1

/-- A row with a driver's prefix over a key that starts with a word. -/
theorem isDriverRow_of {row : FormRow} (idPrefix word rest kind : String)
    (known : idPrefix ∈ driverPrefixes) (named : word ≠ "") (isKind : kind ∈ driverKinds)
    (id : row.rowId = shortId idPrefix (word ++ rest)) (ofKind : row.kind = kind)
    (unparked : row.parked = false) : IsDriverRow row :=
  ⟨⟨idPrefix, known, _, append_ne_empty named, id⟩, ofKind ▸ isKind, unparked⟩

theorem familyRow_isDriverRow (axis qid : String) : IsDriverRow (input.familyRow axis qid) := by
  unfold familyRow
  cases input.withheld qid with
  | none => exact isDriverRow_of "CF" "family:" _ "family" (by decide) (by decide) (by decide) rfl rfl rfl
  | some w =>
      dsimp only
      split
      · exact isDriverRow_of "CF" "family:" _ "family" (by decide) (by decide) (by decide) rfl rfl rfl
      · exact isDriverRow_of "CF" "family:" _ "family" (by decide) (by decide) (by decide) rfl rfl rfl

theorem takenOutRow_isDriverRow {axis : String} {x : TakenOutSlice} {row : FormRow}
    (minted : takenOutRow axis x = some row) : IsDriverRow row := by
  unfold takenOutRow at minted
  split at minted
  · split at minted
    · cases minted
    · obtain rfl := Option.some.inj minted
      exact isDriverRow_of "CD" ("deferred:" ++ axis ++ ":query:") _ "deferred" (by decide)
        (append_ne_empty (append_ne_empty (by decide))) (by decide) rfl rfl rfl
  · cases minted

theorem layerRow_isDriverRow {territory : String} {row : FormRow}
    (minted : input.layerRow R territory = some row) : IsDriverRow row := by
  unfold layerRow at minted
  split at minted
  · dsimp only at minted
    split at minted
    · cases minted
    · obtain rfl := Option.some.inj minted
      exact isDriverRow_of "CL" "layers:" _ "deferred" (by decide) (by decide) (by decide) rfl rfl rfl
  · cases minted

theorem axisRows_isDriverRow {axis : String} {row : FormRow} (mem : row ∈ input.axisRows R axis) :
    IsDriverRow row := by
  simp only [axisRows, List.mem_append, List.mem_singleton, List.mem_map, List.mem_filterMap,
    List.mem_mapIdx] at mem
  obtain ((((rfl | ⟨b, -, rfl⟩) | ⟨qid, -, rfl⟩) | ⟨x, -, minted⟩) | ⟨f, -, rfl⟩) | ⟨i, d, -, rfl⟩ :=
    mem
  · exact isDriverRow_of "CA" "axis:" _ "axis" (by decide) (by decide) (by decide) rfl rfl rfl
  · exact isDriverRow_of "CB" "block:" _ "block" (by decide) (by decide) (by decide) rfl rfl rfl
  · exact isDriverRow_of "CD" "deferred:" _ "deferred" (by decide) (by decide) (by decide) rfl rfl rfl
  · exact takenOutRow_isDriverRow minted
  · exact familyRow_isDriverRow _ _
  · exact isDriverRow_of "CO" ("deferred-office:" ++ axis ++ ":") _ "deferred" (by decide)
      (append_ne_empty (append_ne_empty (by decide))) (by decide) rfl rfl rfl

theorem isDriverRow {row : FormRow} (mem : row ∈ input.coverageFormRows R) : IsDriverRow row := by
  obtain mem | mem := List.mem_append.mp mem
  · obtain ⟨axis, -, mem⟩ := List.mem_flatMap.mp mem
    exact axisRows_isDriverRow mem
  · obtain ⟨territory, -, minted⟩ := List.mem_filterMap.mp mem
    exact layerRow_isDriverRow minted

end CoverageInput

theorem base32Digits_mem {h : Nat} {c : Char} (mem : c ∈ base32Digits h) : c ∈ base32 := by
  obtain ⟨i, -, rfl⟩ := List.mem_map.mp mem
  have low : h / 32 ^ i % 32 < base32.length := Nat.mod_lt _ (by decide)
  rw [List.getD_eq_getElem _ _ low]
  exact List.getElem_mem low

/-- The prefixes of the form's row ids. -/
def rowPrefixes : List String := "CS" :: driverPrefixes

/-- Where no letter of its prefix has another case or is a blank, none of an id does. -/
theorem shortId_letters {idPrefix key : String} (front : ∀ c ∈ (idPrefix ++ "-").toList,
      c.toNat < 128 ∧ c.isLower = false ∧ Text.isSpace c = false) :
    ∀ c ∈ (shortId idPrefix key).toList,
      c.toNat < 128 ∧ c.isLower = false ∧ Text.isSpace c = false := by
  let isPlain : Char → Bool := fun c => c.toNat < 128 ∧ c.isLower = false ∧ Text.isSpace c = false
  have letters : base32.all isPlain = true := by decide
  intro c mem
  unfold shortId at mem
  split at mem
  · cases mem
  · rw [String.toList_append, List.mem_append, String.toList_ofList] at mem
    obtain mem | mem := mem
    · exact front c mem
    · exact of_decide_eq_true (List.all_eq_true.mp letters c (base32Digits_mem mem))

theorem shortId_plain {idPrefix key : String} (known : idPrefix ∈ rowPrefixes) :
    ∀ c ∈ (shortId idPrefix key).toList,
      c.toNat < 128 ∧ c.isLower = false ∧ Text.isSpace c = false := by
  let isPlain : Char → Bool := fun c => c.toNat < 128 ∧ c.isLower = false ∧ Text.isSpace c = false
  have front : ∀ w ∈ rowPrefixes, (w ++ "-").toList.all isPlain = true := by decide
  exact shortId_letters fun c mem => of_decide_eq_true (List.all_eq_true.mp (front _ known) c mem)

theorem shortId_fixed (R : Locale) {idPrefix key : String} (known : idPrefix ∈ rowPrefixes) :
    R.upper (Text.trim (shortId idPrefix key)) = shortId idPrefix key := by
  have plain := @shortId_plain idPrefix key known
  rw [Text.trim_of_no_space fun c mem => (plain c mem).2.2]
  exact R.upper_fixed _ fun c mem => ⟨(plain c mem).1, (plain c mem).2.1⟩

/-- A seat's row never has a driver's id. -/
theorem seat_id_ne {idPrefix key seatKey : String} (known : idPrefix ∈ driverPrefixes)
    (named : key ≠ "") (seatNamed : seatKey ≠ "") : shortId "CS" seatKey ≠ shortId idPrefix key := by
  intro same
  have second := congrArg (fun s => s.toList[1]?) same
  unfold shortId at second
  rw [if_neg named, if_neg seatNamed] at second
  have seat : ∀ w ∈ driverPrefixes, ∀ tail : List Char, (w.toList ++ tail)[1]? ≠ some 'S' := by
    intro w mem tail
    have long : ∀ w ∈ driverPrefixes, 1 < w.toList.length ∧ w.toList[1]? ≠ some 'S' := by decide
    rw [List.getElem?_append_left (long w mem).1]
    exact (long w mem).2
  apply seat idPrefix known ("-".toList ++ base32Digits (fnv1a64 key))
  simp only [String.toList_append, String.toList_ofList, List.append_assoc] at second
  rw [← second]
  rfl

end Clearotron
