import Clearotron.Coverage.Union

/-!
# The union is monotone

A pass is folded over the form the passes before it left. What a driver's row was settled
to it finds again by its id, and so a settled row stays settled and a row that is no
longer asked for stays that way, whatever is submitted.
-/

namespace Clearotron

/-- What the union reads of a driver's row. -/
structure Judged where
  rowId : String
  key : String
  kind : String
  known : Bool
  isOpen : Bool
  status : String
  reason : String
  reasonFrom : String
  digestReason : Option String
  deriving DecidableEq

def FormRow.judged (R : Locale) (row : FormRow) : Judged where
  rowId := row.rowId
  key := formRowKey R row
  kind := row.kind
  known := decide (R.lower (Text.trim row.axis) ∈ registerAxisNames)
  isOpen := row.isOpen
  status := row.status
  reason := row.reason
  reasonFrom := row.reasonFrom
  digestReason := row.digestReason

/-- Rows that share an id ask for the same judgment. -/
def ClearIds (R : Locale) (rows : List FormRow) : Prop :=
  ∀ row ∈ rows, ∀ other ∈ rows, row.rowId = other.rowId → row.judged R = other.judged R

instance (R : Locale) (rows : List FormRow) : Decidable (ClearIds R rows) :=
  inferInstanceAs (Decidable (∀ row ∈ rows, ∀ other ∈ rows, _ → _))

variable {R : Locale}

theorem rowIsSettled_iff {x row : FormRow} :
    rowIsSettled R x row = true ↔
      (seatFields R x).status ∈ coverageStatuses ∧ (seatFields R x).reason ≠ "" ∧
        R.lower (Text.trim row.axis) ∈ registerAxisNames ∧
        ¬(row.isOpen = true ∧ (seatFields R x).status = "confirmed-clean") ∧
        ¬(row.kind = "family" ∧ (seatFields R x).status ≠ "withheld-by-judgment") := by
  simp only [rowIsSettled, Bool.and_eq_true, Bool.not_eq_true', Bool.and_eq_false_iff,
    decide_eq_true_eq, decide_eq_false_iff_not, not_and_or, Bool.not_eq_true, and_assoc]

/-- A row is judged by its status and its reason, against three facts of the driver's. -/
theorem rowIsSettled_of_fields {x y row other : FormRow} (status : x.status = y.status)
    (reason : x.reason = y.reason) (axis : row.axis = other.axis)
    (isOpen : row.isOpen = other.isOpen) (kind : row.kind = other.kind) :
    rowIsSettled R x row = rowIsSettled R y other := by
  have fields : seatFields R x = seatFields R y := by
    unfold seatFields
    rw [status, reason]
  rw [Bool.eq_iff_iff, rowIsSettled_iff, rowIsSettled_iff, fields, axis, isOpen, kind]

theorem rowIsSettled_congr {x y row other : FormRow} (status : x.status = y.status)
    (reason : x.reason = y.reason) (same : row.judged R = other.judged R) :
    rowIsSettled R x row = rowIsSettled R y other := by
  have facts := same
  simp only [FormRow.judged, Judged.mk.injEq] at facts
  obtain ⟨-, -, kind, known, isOpen, -⟩ := facts
  have fields : seatFields R x = seatFields R y := by
    unfold seatFields
    rw [status, reason]
  rw [Bool.eq_iff_iff, rowIsSettled_iff, rowIsSettled_iff, fields, decide_eq_decide.mp known, isOpen,
    kind]

theorem indexRows_congr {row other : FormRow} (same : row.judged R = other.judged R)
    (rows : List FormRow) : indexRows R rows row = indexRows R rows other := by
  have facts := same
  simp only [FormRow.judged, Judged.mk.injEq] at facts
  obtain ⟨id, key, -⟩ := facts
  simp only [indexRows, id, key]

theorem mergedFields_congr {row other : FormRow} (same : row.judged R = other.judged R)
    (p s : Option FormRow) : mergedFields R p s row = mergedFields R p s other := by
  have status : row.status = other.status := congrArg Judged.status same
  have reason : row.reason = other.reason := congrArg Judged.reason same
  have against (x : FormRow) : rowIsSettled R x row = rowIsSettled R x other :=
    rowIsSettled_congr rfl rfl same
  have own : seatFields R row = seatFields R other := by
    unfold seatFields
    rw [status, reason]
  have settled : rowIsSettled R row other = rowIsSettled R other other :=
    rowIsSettled_congr status reason rfl
  simp only [FormRow.judged, Judged.mk.injEq] at same
  obtain ⟨-, -, kind, -, -, -, -, reasonFrom, digestReason⟩ := same
  unfold mergedFields
  simp only [settled, against, own, kind, reasonFrom, digestReason]

theorem rowOutcome_congr {row other : FormRow} (same : row.judged R = other.judged R)
    (newlyParked : List String) (p s : Option FormRow) :
    rowOutcome R newlyParked p s row = rowOutcome R newlyParked p s other := by
  have merged (f : SeatFields) :
      rowIsSettled R { row with status := f.status, reason := f.reason }
          { row with status := f.status, reason := f.reason } =
        rowIsSettled R { other with status := f.status, reason := f.reason }
          { other with status := f.status, reason := f.reason } := by
    let given : FormRow := { status := f.status, reason := f.reason }
    calc
      _ = rowIsSettled R given row := rowIsSettled_of_fields rfl rfl rfl rfl rfl
      _ = rowIsSettled R given other := rowIsSettled_congr rfl rfl same
      _ = _ := rowIsSettled_of_fields rfl rfl rfl rfl rfl
  have id : row.rowId = other.rowId := congrArg Judged.rowId same
  unfold rowOutcome
  rw [mergedFields_congr same]
  dsimp only
  rw [merged, id]

theorem seatFields_idem (x y : FormRow) (status : y.status = (seatFields R x).status)
    (reason : y.reason = (seatFields R x).reason) : seatFields R y = seatFields R x := by
  unfold seatFields at *
  rw [status, reason, R.trim_lower, R.lower_lower, Text.trim_trim]

theorem rowIsSettled_seatFields (x y row : FormRow) (status : y.status = (seatFields R x).status)
    (reason : y.reason = (seatFields R x).reason) : rowIsSettled R y row = rowIsSettled R x row := by
  rw [Bool.eq_iff_iff, rowIsSettled_iff, rowIsSettled_iff, seatFields_idem x y status reason]

/-- The row the union leaves. -/
def unioned (R : Locale) (newlyParked : List String) (p s : Option FormRow) (row : FormRow) :
    FormRow :=
  row.take (rowOutcome R newlyParked p s row)

theorem rowOutcome_fields (newlyParked : List String) (p s : Option FormRow) (row : FormRow) :
    (rowOutcome R newlyParked p s row).status = (mergedFields R p s row).1.status ∧
      (rowOutcome R newlyParked p s row).reason = (mergedFields R p s row).1.reason := by
  unfold rowOutcome
  dsimp only
  split <;> exact ⟨rfl, rfl⟩

/-- A row is parked where it is not settled and was given up on, now or before. -/
theorem rowOutcome_parked (newlyParked : List String) (p s : Option FormRow) (row : FormRow) :
    (rowOutcome R newlyParked p s row).parked = true ↔
      rowIsSettled R (unioned R newlyParked p s row) row = false ∧
        (Text.trim row.rowId ∈ newlyParked ∨ p.any (·.parked) = true) := by
  obtain ⟨status, reason⟩ := rowOutcome_fields (R := R) newlyParked p s row
  have merged : rowIsSettled R (unioned R newlyParked p s row) row =
      rowIsSettled R { row with status := (mergedFields R p s row).1.status,
                                reason := (mergedFields R p s row).1.reason }
        { row with status := (mergedFields R p s row).1.status,
                   reason := (mergedFields R p s row).1.reason } :=
    rowIsSettled_of_fields status reason rfl rfl rfl
  rw [merged]
  unfold rowOutcome
  dsimp only
  split
  · rename_i given
    simpa using given
  · rename_i kept
    simpa using kept

/-- Where one of the judgments is settled, the one that stands is. -/
theorem settled_of_any (newlyParked : List String) (p s : Option FormRow) (row : FormRow)
    (any : s.any (rowIsSettled R · row) = true ∨ p.any (rowIsSettled R · row) = true ∨
      rowIsSettled R row row = true) :
    rowIsSettled R (unioned R newlyParked p s row) row = true := by
  have settles (x : FormRow) (settled : rowIsSettled R x row = true)
      (fields : (mergedFields R p s row).1 = seatFields R x) :
      rowIsSettled R (unioned R newlyParked p s row) row = true := by
    obtain ⟨status, reason⟩ := rowOutcome_fields (R := R) newlyParked p s row
    rw [fields] at status reason
    rw [← settled]
    exact rowIsSettled_seatFields x _ row status reason
  by_cases own : row.kind = "family" ∧ row.reasonFrom ≠ "" ∧ rowIsSettled R row row = true
  · apply settles row own.2.2
    unfold mergedFields
    rw [if_pos own]
  have fields : (mergedFields R p s row).1 =
      if s.any (rowIsSettled R · row) then seatFields R (s.getD {})
      else if p.any (rowIsSettled R · row) then seatFields R (p.getD {})
      else if rowIsSettled R row row then seatFields R row
      else ⟨if (seatFields R (s.getD {})).status = "" then (seatFields R (p.getD {})).status
              else (seatFields R (s.getD {})).status,
            if (seatFields R (s.getD {})).reason = "" then (seatFields R (p.getD {})).reason
              else (seatFields R (s.getD {})).reason⟩ := by
    unfold mergedFields
    rw [if_neg own]
  cases submitted : s.any (rowIsSettled R · row) with
  | true =>
      obtain ⟨x, rfl, settled⟩ := Option.any_eq_true .. |>.mp submitted
      apply settles x settled
      rw [fields, if_pos submitted]
      rfl
  | false =>
      cases prior : p.any (rowIsSettled R · row) with
      | true =>
          obtain ⟨x, rfl, settled⟩ := Option.any_eq_true .. |>.mp prior
          apply settles x settled
          rw [fields, if_neg (by simp [submitted]), if_pos prior]
          rfl
      | false =>
          have arrived : rowIsSettled R row row = true := by
            simpa [submitted, prior] using any
          apply settles row arrived
          rw [fields, if_neg (by simp [submitted]), if_neg (by simp [prior]), if_pos arrived]

/-- An open row that is settled is not called clean. -/
theorem not_clean_of_settled {x row : FormRow} (isOpen : row.isOpen = true)
    (settled : rowIsSettled R x row = true) : x.status ≠ "confirmed-clean" := by
  intro clean
  have token : isToken "confirmed-clean" := by decide
  have status : (seatFields R x).status = "confirmed-clean" := by
    show R.lower (Text.trim x.status) = _
    rw [clean, token.trim, token.lower]
  exact (rowIsSettled_iff.mp settled).2.2.2.1 ⟨isOpen, status⟩

theorem formRowKey_seat {row : FormRow} (isSeat : row.kind = "seat") :
    formRowKey R row =
      "seat:" ++ (R.lower (Text.trim row.axis) ++ ":" ++ unitKey R row.unit) := by
  have kind : (if Text.trim row.kind = "" then "axis" else Text.trim row.kind) = "seat" := by
    rw [isSeat]
    decide
  unfold formRowKey
  simp only [kind]
  rw [if_neg (by decide), if_pos (by decide)]
  simp only [String.append_assoc]

/-- The unit a seat's row is given. -/
def seatUnit (R : Locale) (r : FormRow) : String :=
  let given := Text.trim (Text.collapseSpaces (r.unit.getD ""))
  if given = "" then normalizeAxis R r.axis (r.unit.getD "") else given

/-- A seat's row before it has an id. -/
def seatBase (R : Locale) (r : FormRow) : FormRow where
  axis := normalizeAxis R r.axis (r.unit.getD "")
  kind := "seat"
  unit := some (seatUnit R r)
  status := (seatFields R r).status
  reason := (seatFields R r).reason

theorem seatRow_eq (r : FormRow) :
    seatRow R r = { seatBase R r with rowId := shortId "CS" (formRowKey R (seatBase R r)) } := rfl

/-- A seat's row is named after its key. -/
theorem rowId_seatRow (r : FormRow) :
    ∃ key, key ≠ "" ∧ (seatRow R r).rowId = shortId "CS" key := by
  refine ⟨formRowKey R (seatBase R r), ?_, by rw [seatRow_eq]⟩
  have kind : (seatBase R r).kind = "seat" := rfl
  rw [formRowKey_seat kind]
  exact CoverageInput.append_ne_empty (by decide)

theorem seatRow_congr {r r' : FormRow}
    (axis : normalizeAxis R r.axis (r.unit.getD "") = normalizeAxis R r'.axis (r'.unit.getD ""))
    (unit : seatUnit R r = seatUnit R r') (fields : seatFields R r = seatFields R r') :
    seatRow R r = seatRow R r' := by
  have base : seatBase R r = seatBase R r' := by
    unfold seatBase
    rw [axis, unit, fields]
  rw [seatRow_eq, seatRow_eq, base]

theorem seatRow_axis (r : FormRow) :
    (seatRow R r).axis = normalizeAxis R r.axis (r.unit.getD "") := rfl

theorem seatRow_unit (r : FormRow) : (seatRow R r).unit = some (seatUnit R r) := rfl

theorem seatRow_fields (r : FormRow) : seatFields R (seatRow R r) = seatFields R r :=
  seatFields_idem r _ rfl rfl

/-- A seat's unit is squeezed, and it is never blank on an axis of the register. -/
theorem seatUnit_squeezed {r : FormRow}
    (onAxis : normalizeAxis R r.axis (r.unit.getD "") ∈ registerAxisNames) :
    Text.trim (Text.collapseSpaces (seatUnit R r)) = seatUnit R r ∧ seatUnit R r ≠ "" := by
  have token := isToken_axis onAxis
  unfold seatUnit
  dsimp only
  split
  · rw [Text.collapseSpaces_of_no_space token.not_space, token.trim]
    exact ⟨rfl, axis_ne_empty onAxis⟩
  · rename_i given
    exact ⟨Text.trim_collapseSpaces_idem _, given⟩

/-- A row that was read as a seat's on an axis of the register reads as itself. -/
theorem seatRow_again {r : FormRow} (onAxis : (seatRow R r).axis ∈ registerAxisNames) :
    seatRow R (seatRow R r) = seatRow R r := by
  obtain ⟨squeezed, named⟩ := seatUnit_squeezed (R := R) (r := r) onAxis
  apply seatRow_congr
  · rw [normalizeAxis_axis R onAxis, seatRow_axis]
  · have whole : (seatRow R r).unit.getD "" = seatUnit R r := by
      rw [seatRow_unit, Option.getD_some]
    rw [seatUnit, whole, squeezed, if_neg named]
  · exact seatRow_fields r

theorem seatRows_cons (r : SubmittedRow) (rest : List SubmittedRow) (seen : List String) :
    seatRows R (r :: rest) seen =
      match r.fields? with
      | none => seatRows R rest seen
      | some fields =>
        if Text.trim fields.kind ∈ driverKinds then seatRows R rest seen
        else if formRowKey R (seatRow R fields) ∈ seen then seatRows R rest seen
        else seatRow R fields :: seatRows R rest (formRowKey R (seatRow R fields) :: seen) := rfl

/-- What `seatRows` returns: rows of the seat's kind, under keys not seen before. -/
theorem mem_seatRows {list : List SubmittedRow} {seen : List String} {x : FormRow}
    (mem : x ∈ seatRows R list seen) : (∃ r, x = seatRow R r) ∧ formRowKey R x ∉ seen := by
  induction list generalizing seen with
  | nil => cases mem
  | cons r rest ih =>
      rw [seatRows_cons] at mem
      cases fields : r.fields? with
      | none =>
          rw [fields] at mem
          exact ih mem
      | some f =>
          simp only [fields] at mem
          split at mem
          · exact ih mem
          · split at mem
            · exact ih mem
            · rename_i fresh
              obtain rfl | mem := List.mem_cons.mp mem
              · exact ⟨⟨f, rfl⟩, fresh⟩
              · obtain ⟨seat, unseen⟩ := ih mem
                exact ⟨seat, fun old => unseen (List.mem_cons_of_mem _ old)⟩

/-- Read once more, the rows a list was read as are themselves. -/
theorem seatRows_again {list : List SubmittedRow} {seen : List String}
    (onAxis : ∀ x ∈ seatRows R list seen, x.axis ∈ registerAxisNames) :
    seatRows R ((seatRows R list seen).map .object) seen = seatRows R list seen := by
  induction list generalizing seen with
  | nil => rfl
  | cons r rest ih =>
      rw [seatRows_cons] at onAxis ⊢
      cases fields : r.fields? with
      | none =>
          simp only [fields] at onAxis ⊢
          exact ih onAxis
      | some f =>
          simp only [fields] at onAxis ⊢
          by_cases driver : Text.trim f.kind ∈ driverKinds
          · rw [if_pos driver] at onAxis ⊢
            exact ih onAxis
          · rw [if_neg driver] at onAxis ⊢
            by_cases old : formRowKey R (seatRow R f) ∈ seen
            · rw [if_pos old] at onAxis ⊢
              exact ih onAxis
            · rw [if_neg old] at onAxis ⊢
              have same := seatRow_again (onAxis _ (List.mem_cons_self ..))
              have kind : Text.trim (seatRow R f).kind ∉ driverKinds := by
                show Text.trim "seat" ∉ driverKinds
                decide
              rw [List.map_cons, seatRows_cons]
              simp only [SubmittedRow.fields?]
              rw [if_neg kind, same, if_neg old, ih fun x mem => onAxis x (List.mem_cons_of_mem _ mem)]

/-- Rows of a driver's kind are passed over. -/
theorem seatRows_driver {rows : List FormRow} {rest : List SubmittedRow} {seen : List String}
    (driver : ∀ row ∈ rows, row.kind ∈ driverKinds) :
    seatRows R (rows.map .object ++ rest) seen = seatRows R rest seen := by
  have plain : ∀ kind ∈ driverKinds, Text.trim kind ∈ driverKinds := by decide
  induction rows with
  | nil => rfl
  | cons row rows ih =>
      rw [List.map_cons, List.cons_append, seatRows_cons]
      simp only [SubmittedRow.fields?]
      rw [if_pos (plain _ (driver row (List.mem_cons_self ..)))]
      exact ih fun row mem => driver row (List.mem_cons_of_mem _ mem)

/-- A form over the driver's rows: what each was given, and the seat's rows behind them. -/
structure FormOf (R : Locale) (canonical rows : List FormRow) (outcome : FormRow → RowOutcome)
    (list : List SubmittedRow) : Prop where
  rows_eq : rows = canonical.map (fun row => row.take (outcome row)) ++
    seatRows R list (canonical.map (formRowKey R))
  alike : ∀ row other, row.judged R = other.judged R → outcome row = outcome other

/-- What a pass gives the driver's rows. -/
def passOutcome (R : Locale) (prior : List FormRow) (pass : CoveragePass) (row : FormRow) :
    RowOutcome :=
  rowOutcome R ((pass.parkedIds.map Text.trim).filter (· ≠ "")) (indexRows R prior row)
    (indexRows R ((pass.submitted.getD []).filterMap SubmittedRow.row?) row) row

theorem formOf_union (prior : List FormRow) (pass : CoveragePass) (input : CoverageInput) :
    FormOf R (input.coverageFormRows R) (unionCoverageForm R prior pass input).rows
      (passOutcome R prior pass) (pass.submitted.getD (prior.map .object)) := by
  constructor
  · have keys : ((input.coverageFormRows R).map (unionRow R prior pass)).map (formRowKey R) =
        (input.coverageFormRows R).map (formRowKey R) := by
      rw [List.map_map]
      refine List.map_congr_left fun row _ => ?_
      rw [Function.comp_apply, unionRow, FormRow.key_take]
    unfold unionCoverageForm
    dsimp only
    rw [keys]
    rfl
  · intro row other same
    unfold passOutcome
    rw [indexRows_congr same, indexRows_congr same, rowOutcome_congr same]

/-- After a pass there is such a form; before the first there is none. -/
theorem coverageForm_cases (input : CoverageInput) (passes : List CoveragePass) :
    coverageForm R input passes = [] ∨
      ∃ outcome list, FormOf R (input.coverageFormRows R) (coverageForm R input passes) outcome
        list := by
  induction passes using List.reverseRecOn with
  | nil => exact .inl rfl
  | append_singleton passes pass _ =>
      right
      unfold coverageForm
      rw [List.foldl_append]
      exact ⟨_, _, formOf_union _ pass input⟩

namespace IsDriverRow

variable {row : FormRow}

theorem upper_trim (driver : IsDriverRow row) : R.upper (Text.trim row.rowId) = row.rowId := by
  obtain ⟨idPrefix, known, key, -, id⟩ := driver.id
  rw [id]
  exact shortId_fixed R (List.mem_cons_of_mem _ known)

theorem upper (driver : IsDriverRow row) : R.upper row.rowId = row.rowId := by
  obtain ⟨idPrefix, known, key, -, id⟩ := driver.id
  have plain := @shortId_plain idPrefix key (List.mem_cons_of_mem "CS" known)
  rw [id]
  exact R.upper_fixed _ fun c mem => ⟨(plain c mem).1, (plain c mem).2.1⟩

theorem id_ne (driver : IsDriverRow row) : row.rowId ≠ "" := by
  obtain ⟨idPrefix, -, key, named, id⟩ := driver.id
  rw [id, shortId, if_neg named, String.append_assoc]
  intro blank
  have := congrArg String.toList blank
  simp at this

end IsDriverRow

namespace FormOf

variable {canonical rows : List FormRow} {outcome : FormRow → RowOutcome}
  {list : List SubmittedRow}

/-- The form before a pass is looked up by id, and gives a row what it gave it then. -/
theorem found (form : FormOf R canonical rows outcome list) (clear : ClearIds R canonical)
    (driver : ∀ row ∈ canonical, IsDriverRow row) {row : FormRow} (mem : row ∈ canonical) :
    ∃ other : FormRow, indexRows R rows row = some (other.take (outcome row)) := by
  let byId : FormRow → Bool := fun r =>
    decide (r.rowId ≠ "" ∧ R.upper (Text.trim r.rowId) = R.upper row.rowId)
  have seats : ((seatRows R list (canonical.map (formRowKey R))).reverse.find? byId) = none := by
    apply List.find?_eq_none.mpr
    intro x isSeat named
    obtain ⟨⟨r, rfl⟩, -⟩ := mem_seatRows (List.mem_reverse.mp isSeat)
    obtain ⟨seatKey, seatNamed, seatId⟩ := rowId_seatRow (R := R) r
    obtain ⟨idPrefix, known, key, keyNamed, id⟩ := (driver row mem).id
    have same := (of_decide_eq_true named).2
    rw [(driver row mem).upper, seatId, shortId_fixed R (by decide), id] at same
    exact seat_id_ne known keyNamed seatNamed same
  have there : ((canonical.map fun row => row.take (outcome row)).reverse.find? byId).isSome := by
    apply List.find?_isSome.mpr
    refine ⟨row.take (outcome row), List.mem_reverse.mpr (List.mem_map_of_mem mem), ?_⟩
    apply decide_eq_true
    exact ⟨(driver row mem).id_ne, ((driver row mem).upper_trim).trans (driver row mem).upper.symm⟩
  obtain ⟨x, hit⟩ := Option.isSome_iff_exists.mp there
  have member := List.mem_reverse.mp (List.mem_of_find?_eq_some hit)
  obtain ⟨other, otherMem, rfl⟩ := List.mem_map.mp member
  have picked : byId (other.take (outcome other)) = true := List.find?_some hit
  have named : R.upper (Text.trim other.rowId) = R.upper row.rowId := (of_decide_eq_true picked).2
  have sameId : row.rowId = other.rowId := by
    rw [(driver row mem).upper] at named
    rw [← named]
    exact (driver other otherMem).upper_trim
  refine ⟨other, ?_⟩
  have same := form.alike row other (clear row mem other otherMem sameId)
  unfold indexRows
  rw [form.rows_eq, List.reverse_append, List.find?_append]
  show ((List.find? byId _).or (List.find? byId _) <|> _) = _
  rw [seats, Option.none_or, hit, same]
  rfl

theorem take_rows (form : FormOf R canonical rows outcome list) :
    rows.take canonical.length = canonical.map fun row => row.take (outcome row) := by
  rw [form.rows_eq]
  exact List.take_left' (List.length_map ..)

theorem drop_rows (form : FormOf R canonical rows outcome list) :
    rows.drop canonical.length = seatRows R list (canonical.map (formRowKey R)) := by
  rw [form.rows_eq]
  exact List.drop_left' (List.length_map ..)

/-- What stands where a driver's row stands. -/
theorem at_driver (form : FormOf R canonical rows outcome list) {i : Nat} {row b : FormRow}
    (isRow : canonical[i]? = some row) (isAt : rows[i]? = some b) : b = row.take (outcome row) := by
  obtain ⟨low, -⟩ := List.getElem?_eq_some_iff.mp isRow
  rw [form.rows_eq, List.getElem?_append_left (by simpa using low), List.getElem?_map, isRow] at isAt
  exact (Option.some.inj isAt).symm

/-- A settled row stays settled. -/
theorem settled_next (form : FormOf R canonical rows outcome list) (clear : ClearIds R canonical)
    (driver : ∀ row ∈ canonical, IsDriverRow row) (pass : CoveragePass) {row : FormRow}
    (mem : row ∈ canonical) (settled : rowIsSettled R (row.take (outcome row)) row = true) :
    rowIsSettled R (row.take (passOutcome R rows pass row)) row = true := by
  obtain ⟨other, found⟩ := form.found clear driver mem
  apply settled_of_any
  right
  left
  rw [found, Option.any_some, ← settled]
  exact rowIsSettled_congr rfl rfl rfl

/-- A row given up on stays so, unless it is settled. -/
theorem parked_next (form : FormOf R canonical rows outcome list) (clear : ClearIds R canonical)
    (driver : ∀ row ∈ canonical, IsDriverRow row) (pass : CoveragePass) {row : FormRow}
    (mem : row ∈ canonical) (parked : (outcome row).parked = true) :
    rowIsSettled R (row.take (passOutcome R rows pass row)) row = true ∨
      (passOutcome R rows pass row).parked = true := by
  obtain ⟨other, found⟩ := form.found clear driver mem
  cases settled : rowIsSettled R (row.take (passOutcome R rows pass row)) row with
  | true => exact .inl rfl
  | false =>
      right
      apply (rowOutcome_parked ..).mpr
      refine ⟨settled, .inr ?_⟩
      rw [found, Option.any_some]
      exact parked

/-- A pass that hands in no rows leaves the seat's as they were. -/
theorem seats_kept (form : FormOf R canonical rows outcome list)
    (driver : ∀ row ∈ canonical, IsDriverRow row)
    (onAxis : ∀ row ∈ rows.drop canonical.length, row.axis ∈ registerAxisNames) :
    seatRows R (rows.map .object) (canonical.map (formRowKey R)) = rows.drop canonical.length := by
  rw [form.drop_rows] at onAxis ⊢
  conv_lhs => rw [form.rows_eq, List.map_append]
  rw [seatRows_driver]
  · exact seatRows_again onAxis
  · intro x mem
    obtain ⟨row, isRow, rfl⟩ := List.mem_map.mp mem
    exact (driver row isRow).kind

end FormOf

/-- Judged against itself, a driver's row is judged by the same facts. -/
theorem rowIsSettled_take (row : FormRow) (o : RowOutcome) :
    rowIsSettled R (row.take o) (row.take o) = rowIsSettled R (row.take o) row := by
  rw [Bool.eq_iff_iff, rowIsSettled_iff, rowIsSettled_iff]
  exact Iff.rfl

/-- No row the union leaves is both settled and parked. -/
theorem not_settled_of_parked (prior : List FormRow) (pass : CoveragePass) (input : CoverageInput) :
    ∀ row ∈ (unionCoverageForm R prior pass input).rows, row.parked = true →
      rowIsSettled R row row = false := by
  intro row mem parked
  rw [(formOf_union prior pass input).rows_eq] at mem
  obtain mem | mem := List.mem_append.mp mem
  · obtain ⟨row, -, rfl⟩ := List.mem_map.mp mem
    rw [rowIsSettled_take]
    exact ((rowOutcome_parked ..).mp parked).1
  · obtain ⟨⟨r, rfl⟩, -⟩ := mem_seatRows mem
    rw [seatRow_eq] at parked
    cases parked

/-- Rows of two kinds that no row is both of, and the rest. -/
theorem countP_three {α : Type} (p q : α → Bool) (l : List α)
    (apart : ∀ x ∈ l, q x = true → p x = false) :
    l.length = l.countP p + l.countP q + l.countP fun x => !p x && !q x := by
  induction l with
  | nil => rfl
  | cons x l ih =>
      have rest := ih fun y mem => apart y (List.mem_cons_of_mem _ mem)
      have here := apart x (List.mem_cons_self ..)
      simp only [List.length_cons, List.countP_cons]
      cases isP : p x <;> cases isQ : q x
      · simp
        omega
      · simp
        omega
      · simp
        omega
      · rw [isP] at here
        exact absurd (here isQ) (by decide)

/-- Settled, parked and outstanding: each row is counted once. -/
theorem counts_partition (prior : List FormRow) (pass : CoveragePass) (input : CoverageInput) :
    let after := unionCoverageForm R prior pass input
    after.total = after.rows.length ∧
      after.settled = (after.rows.countP fun row => rowIsSettled R row row) ∧
      after.parked = after.rows.countP (·.parked) ∧
      after.outstanding = after.rows.countP fun row => !rowIsSettled R row row && !row.parked := by
  intro after
  have settled : after.settled = after.rows.countP fun row => rowIsSettled R row row := rfl
  have parked : after.parked = after.rows.countP (·.parked) := by
    show _ = List.countP _ (_ ++ _)
    rw [List.countP_append]
    apply Eq.symm
    apply Nat.add_eq_left.mpr
    apply List.countP_eq_zero.mpr
    intro x mem given
    obtain ⟨⟨r, rfl⟩, -⟩ := mem_seatRows mem
    rw [seatRow_eq] at given
    cases given
  refine ⟨rfl, settled, parked, ?_⟩
  have three := countP_three (fun row => rowIsSettled R row row) (·.parked) after.rows
    (not_settled_of_parked prior pass input)
  have rest : after.outstanding = after.rows.length - after.settled - after.parked := rfl
  rw [rest, settled, parked]
  omega

/-- Whatever the passes hand in, the driver's rows are the driver's; what was settled or
given up on stays so; an open row is never settled as clean; each row is counted under one
of three heads; the seat's rows take no driver's key; and a pass without a list of rows
leaves the seat's as they were. -/
theorem union_is_monotone (input : CoverageInput) (clear : ClearIds R (input.coverageFormRows R))
    (passes : List CoveragePass) (pass : CoveragePass) :
    let canonical := input.coverageFormRows R
    let before := coverageForm R input passes
    let after := unionCoverageForm R before pass input
    (after.rows.take canonical.length).map FormRow.facts = canonical.map FormRow.facts ∧
      (∀ row ∈ after.rows.drop canonical.length,
        row.kind = "seat" ∧ formRowKey R row ∉ canonical.map (formRowKey R)) ∧
      (∀ i, i < canonical.length → ∀ b a, before[i]? = some b → after.rows[i]? = some a →
        (rowIsSettled R b b = true → rowIsSettled R a a = true) ∧
          (rowIsSettled R b b = true ∨ b.parked = true →
            rowIsSettled R a a = true ∨ a.parked = true)) ∧
      (∀ row ∈ after.rows, row.isOpen = true → rowIsSettled R row row = true →
        row.status ≠ "confirmed-clean") ∧
      (∀ row ∈ after.rows, row.parked = true → rowIsSettled R row row = false) ∧
      (after.total = after.rows.length ∧
        after.settled = (after.rows.countP fun row => rowIsSettled R row row) ∧
        after.parked = after.rows.countP (·.parked) ∧
        after.outstanding =
          after.rows.countP fun row => !rowIsSettled R row row && !row.parked) ∧
      (pass.submitted = none →
        (∀ row ∈ before.drop canonical.length, row.axis ∈ registerAxisNames) →
          after.rows.drop canonical.length = before.drop canonical.length) := by
  intro canonical before after
  have driver : ∀ row ∈ canonical, IsDriverRow row := fun _ => CoverageInput.isDriverRow
  have form := formOf_union (R := R) before pass input
  refine ⟨?_, ?_, ?_, ?_, not_settled_of_parked before pass input, counts_partition before pass input,
    ?_⟩
  · rw [form.take_rows, List.map_map]
    rfl
  · intro row mem
    rw [form.drop_rows] at mem
    obtain ⟨⟨r, rfl⟩, unseen⟩ := mem_seatRows mem
    refine ⟨?_, unseen⟩
    rw [seatRow_eq]
    rfl
  · intro i low b a atBefore atAfter
    obtain blank | ⟨outcome, list, prior⟩ := coverageForm_cases (R := R) input passes
    · rw [show before = [] from blank] at atBefore
      cases atBefore
    · have isRow : canonical[i]? = some canonical[i] := List.getElem?_eq_getElem low
      have mem : canonical[i] ∈ canonical := List.getElem_mem low
      obtain rfl := prior.at_driver isRow atBefore
      obtain rfl := form.at_driver isRow atAfter
      rw [rowIsSettled_take, rowIsSettled_take]
      refine ⟨prior.settled_next clear driver pass mem, ?_⟩
      rintro (settled | parked)
      · exact .inl (prior.settled_next clear driver pass mem settled)
      · exact prior.parked_next clear driver pass mem parked
  · intro row _ isOpen settled
    exact not_clean_of_settled isOpen settled
  · intro silent onAxis
    rw [form.drop_rows, silent]
    obtain blank | ⟨outcome, list, prior⟩ := coverageForm_cases (R := R) input passes
    · rw [show before = [] from blank, List.drop_nil]
      rfl
    · exact prior.seats_kept driver onAxis

/-- A run with one axis left open, and a digest that settles it. -/
def openAxis : CoverageInput :=
  { skeleton := [⟨"primary-sweep", "deferred", ["q-1"]⟩] }

def settledSlice : FormRow :=
  { rowId := shortId "CD" "deferred:q-1", status := "deferred", reason := "not searched" }

theorem union_is_monotone_openAxis :
    let before := coverageForm plainLocale openAxis [⟨some [.object settledSlice], []⟩]
    before.countP (fun row => rowIsSettled plainLocale row row) = 1 ∧
      ((unionCoverageForm plainLocale before ⟨some [], []⟩ openAxis).rows.take 2).map FormRow.facts =
        (openAxis.coverageFormRows plainLocale).map FormRow.facts := by
  refine ⟨by decide +kernel, ?_⟩
  exact (union_is_monotone (R := plainLocale) openAxis (by decide +kernel)
    [⟨some [.object settledSlice], []⟩] ⟨some [], []⟩).1

/-- Two axes of a plan that put off the same question, one of them no axis of the register. -/
def sharedSlice : CoverageInput :=
  { skeleton := [⟨"primary-sweep", "deferred", ["q-1"]⟩, ⟨"house", "deferred", ["q-1"]⟩] }

/-- A list without a seat's earlier row retracts it; and of two rows under one id, the one that
cannot be settled takes the other's judgment away. -/
theorem submission_retracts_a_seat_row :
    (let seat : FormRow := { axis := "primary-sweep", kind := "seat", unit := some "goods"
                             status := "confirmed-clean", reason := "read" }
     (coverageForm plainLocale {} [⟨some [.object seat], []⟩]).any (rowIsSettled plainLocale · seat) ∧
       coverageForm plainLocale {} [⟨some [.object seat], []⟩, ⟨some [], []⟩] = []) ∧
    (let settles : CoveragePass := ⟨some [.object settledSlice], []⟩
     let garbles : CoveragePass := ⟨some [.object { settledSlice with status := "unsure" }], []⟩
     let first := coverageForm plainLocale sharedSlice [settles]
     let last := coverageForm plainLocale sharedSlice [settles, garbles, ⟨none, []⟩]
     first[1]?.any (fun row => rowIsSettled plainLocale row row) = true ∧
       last[1]?.any (fun row => rowIsSettled plainLocale row row) = false) := by
  refine ⟨?_, ?_⟩ <;> decide +kernel

end Clearotron
