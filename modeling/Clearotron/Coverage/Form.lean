import Mathlib.Algebra.GroupWithZero.Nat
import Clearotron.Coverage.Ledger
import Clearotron.Plan.Regions

/-!
# The coverage form

One row for each thing a run has to account for. The driver computes its rows from the
plan, what the plan's execution left, and the bands; a seat may add rows of its own. Only
a row's status and reason are a seat's to write on a driver's row.
-/

namespace Clearotron

/-- A row of the form, or what was submitted as one. An absent text is empty, except where
the code tells the two apart. -/
structure FormRow where
  rowId : String := ""
  axis : String := ""
  kind : String := ""
  unit : Option String := none
  qid : Option String := none
  isOpen : Bool := false
  status : String := ""
  reason : String := ""
  totalHits : Option Int := none
  unaccountedClasses : List String := []
  unaccountedTerms : List String := []
  receiptReason : String := ""
  /-- the record a judgment the row arrived with came from -/
  reasonFrom : String := ""
  digestReason : Option String := none
  parked : Bool := false
  parkedRefusals : Nat := 0
  parkedReason : String := ""
  deriving DecidableEq, Repr

/-- `DRIVER_KINDS`. -/
def driverKinds : List String := ["axis", "block", "deferred", "family"]

/-- The 64-bit FNV-1a hash of a text's UTF-16 units. -/
def fnv1a64 (s : String) : Nat :=
  (Text.utf16 s).foldl (fun h unit => (Nat.xor h unit * 0x100000001b3) % 2 ^ 64) 0xcbf29ce484222325

def base32 : List Char := "0123456789ABCDEFGHJKMNPQRSTVWXYZ".toList

/-- The lowest 40 bits, five to a letter. -/
def base32Digits (h : Nat) : List Char :=
  [7, 6, 5, 4, 3, 2, 1, 0].map fun i => base32.getD (h / 32 ^ i % 32) '0'

def shortId (idPrefix key : String) : String :=
  if key = "" then "" else idPrefix ++ "-" ++ String.ofList (base32Digits (fnv1a64 key))

section

variable (R : Locale)

/-- The two fields of a row that are a seat's. -/
structure SeatFields where
  status : String
  reason : String
  deriving DecidableEq, Repr

def seatFields (row : FormRow) : SeatFields :=
  ⟨R.lower (Text.trim row.status), Text.trim row.reason⟩

/-- A unit as it is compared. -/
def unitKey (unit : Option String) : String :=
  Text.trim (Text.collapseSpaces (R.lower (unit.getD "")))

/-- Which obligation a row answers. -/
def formRowKey (row : FormRow) : String :=
  let kind := if Text.trim row.kind = "" then "axis" else Text.trim row.kind
  let axis := R.lower (Text.trim row.axis)
  let qid := Text.trim (row.qid.getD "")
  if kind = "axis" then "axis:" ++ axis
  else if kind ∉ driverKinds then "seat:" ++ axis ++ ":" ++ unitKey R row.unit
  else if qid = "" then kind ++ ":" ++ axis ++ ":" ++ unitKey R row.unit
  else kind ++ ":" ++ qid

/-- Is the row settled? The driver's facts are read from `canonical`. -/
def rowIsSettled (row canonical : FormRow) : Bool :=
  let fields := seatFields R row
  fields.status ∈ coverageStatuses && fields.reason ≠ "" &&
    decide (R.lower (Text.trim canonical.axis) ∈ registerAxisNames) &&
    !(canonical.isOpen && fields.status = "confirmed-clean") &&
    !(canonical.kind = "family" && fields.status ≠ "withheld-by-judgment")

/-- What stands in a submitted list: nothing, a value without fields, or a row. -/
inductive SubmittedRow
  | nothing
  | scalar
  | object (row : FormRow)

/-- The fields a submitted value is read for. -/
def SubmittedRow.fields? : SubmittedRow → Option FormRow
  | nothing => none
  | scalar => some {}
  | object row => some row

/-- The row a value is indexed as: only an object is. -/
def SubmittedRow.row? : SubmittedRow → Option FormRow
  | object row => some row
  | _ => none

/-- A seat's row as the form holds it. -/
def seatRow (r : FormRow) : FormRow :=
  let axis := normalizeAxis R r.axis (r.unit.getD "")
  let given := Text.trim (Text.collapseSpaces (r.unit.getD ""))
  let unit := if given = "" then axis else given
  let row : FormRow :=
    { axis, kind := "seat", unit := some unit
      status := (seatFields R r).status, reason := (seatFields R r).reason }
  { row with rowId := shortId "CS" (formRowKey R row) }

/-- The seat rows of a submitted list, each key once and none a driver row's. -/
def seatRows : List SubmittedRow → List String → List FormRow
  | [], _ => []
  | r :: rest, seen =>
    match r.fields? with
    | none => seatRows rest seen
    | some fields =>
      if Text.trim fields.kind ∈ driverKinds then seatRows rest seen
      else if formRowKey R (seatRow R fields) ∈ seen then seatRows rest seen
      else seatRow R fields :: seatRows rest (formRowKey R (seatRow R fields) :: seen)

end

/-- `<axis> / <predicate>: <terms> [cl <classes>] goods: <words>`. -/
def unitLabelOf (axis predicate qid : String) (terms classes goods : List String) : String :=
  let shown := ((terms.take 4).map Text.trim).filter (· ≠ "")
  let more := if terms.length > shown.length then " +" ++ toString (terms.length - shown.length) ++ " more"
    else ""
  let asked := if shown = [] then "" else " OR ".intercalate shown ++ more
  let scope := ": ".intercalate ([Text.trim predicate, asked].filter (· ≠ ""))
  axis ++ " / " ++ (if scope = "" then qid else scope) ++
    (if classes = [] then "" else " [cl " ++ ", ".intercalate classes ++ "]") ++
    (if goods = [] then "" else " goods: " ++ " OR ".intercalate goods)

/-- The coverage unit of a question of the plan. -/
def unitLabel (axis : String) (entry : Option Entry) : String :=
  match entry with
  | none => axis
  | some e =>
    let terms := match e.terms.getD [] with
      | [] => e.term.toList.filter (Text.trim · ≠ "")
      | terms => terms
    unitLabelOf axis e.predicate.text e.qid terms e.niceClasses e.goodsTermsList

/-- An axis of the plan-execution skeleton. -/
structure SkeletonAxis where
  axis : String
  state : String
  deferred : List String := []

/-- A block of a band, of what the form reads; a count's disposition stands by its name. -/
structure CrowdBlock where
  qid : String
  state : String
  error : Bool := false
  totalHits : Option Int := none
  classCounts : Option (List (String × String)) := none
  termCounts : Option (List (String × String)) := none

/-- An open block, with the legs of it that were not read. -/
structure OpenBlock where
  qid : String
  totalHits : Option Int
  unaccountedTerms : List String
  unaccountedClasses : List String

/-- A slice the run took out of a band. -/
structure TakenOutSlice where
  qid : Option String := none
  query : Option String := none
  reason : Option String := none

structure WithheldFamily where
  axis : Option String := none
  reason : String

/-- What the driver computes the form from. -/
structure CoverageInput where
  skeleton : List SkeletonAxis := []
  activeAxes : List String := []
  entries : List Entry := []
  /-- the offices the plan was compiled without: jurisdiction and reason -/
  deferredCoverage : List (Option String × String) := []
  bandBlocks : String → List CrowdBlock := fun _ => []
  deferredReasons : String → Option String := fun _ => none
  orderedTerritories : List String := []
  capabilities : Option OfficeCapabilities := none
  /-- the families that wait for the reading turn: qid and axis -/
  awaiting : List (String × String) := []
  withheld : String → Option WithheldFamily := fun _ => none
  takenOut : String → List TakenOutSlice := fun _ => []

namespace CoverageInput

variable (R : Locale) (input : CoverageInput)

/-- The plan's question of a qid. -/
def entryOf (qid : String) : Option Entry := input.entries.reverse.find? (·.qid = qid)

/-- Was the leg read in full? -/
def wasRead (disposition : String) : Bool := disposition ∈ ["verified-zero", "enumerated"]

/-- An incomplete block of a question the plan asked to be enumerated. -/
def openBlock (b : CrowdBlock) : Option OpenBlock :=
  if R.lower b.state ≠ "incomplete" ∨ b.error then none
  else match input.entryOf b.qid with
  | none => none
  | some e =>
    if e.expectedKind = .count then none
    else
      let classes := ((b.classCounts.getD []).filter fun c => !wasRead c.2).map (·.1)
      let terms := e.terms.getD []
      let unread := match b.termCounts with
        | some counts =>
          if terms.length > 1 then terms.filter fun t => !wasRead ((counts.lookup t).getD "") else []
        | none => []
      some ⟨e.qid, b.totalHits, unread.take 8, classes.take 8⟩

/-- The open crowd blocks of an axis. -/
def openBlocks (axis : String) : List OpenBlock :=
  if input.skeleton.any fun s =>
      Text.trim s.axis = axis ∧ (s.state = "incomplete" ∨ s.state = "deferred") then
    (input.bandBlocks axis).filterMap (input.openBlock R)
  else []

/-- The axes of the form, in the run's order. -/
def axes : List String :=
  let skeleton := (input.skeleton.map (Text.trim ·.axis)).filter (· ≠ "")
  let active := (input.activeAxes.map fun a => R.lower (Text.trim a)).filter (· ≠ "")
  let crowded := registerAxisNames.filter fun a => !(input.openBlocks R a).isEmpty
  (skeleton ++ active ++ crowded).foldl pushNew []

def axisRow (axis state : String) (deferred : List String) : FormRow :=
  { rowId := shortId "CA" ("axis:" ++ axis), axis, kind := "axis", unit := some axis
    isOpen := state = "deferred" ∧ deferred = [] }

def blockRow (axis : String) (b : OpenBlock) : FormRow :=
  { rowId := shortId "CB" ("block:" ++ b.qid), axis, kind := "block"
    unit := some (unitLabel axis (input.entryOf b.qid)), qid := some b.qid, isOpen := true
    totalHits := b.totalHits, unaccountedTerms := b.unaccountedTerms
    unaccountedClasses := b.unaccountedClasses }

def deferredRow (axis qid : String) : FormRow :=
  { rowId := shortId "CD" ("deferred:" ++ qid), axis, kind := "deferred"
    unit := some (unitLabel axis (input.entryOf qid)), qid := some qid, isOpen := true
    receiptReason := Text.trim (Text.collapseSpaces ((input.deferredReasons qid).getD "")) }

/-- A slice taken out that has no question of the plan: keyed on its query. -/
def takenOutRow (axis : String) (x : TakenOutSlice) : Option FormRow :=
  match x.qid.getD "", x.query.getD "", x.reason.getD "" with
  | "", query, reason =>
    if query = "" ∨ reason = "" then none
    else some
      { rowId := shortId "CD" ("deferred:" ++ axis ++ ":query:" ++ query), axis, kind := "deferred"
        unit := some (unitLabelOf axis "" "" ([query].filter (Text.trim · ≠ "")) [] [])
        isOpen := true, receiptReason := reason }
  | _, _, _ => none

/-- A family the reading turn did not ask: it arrives with the turn's judgment, if any. -/
def familyRow (axis qid : String) : FormRow :=
  let row : FormRow :=
    { rowId := shortId "CF" ("family:" ++ qid), axis, kind := "family"
      unit := some (unitLabel axis (input.entryOf qid)), qid := some qid, isOpen := true }
  match input.withheld qid with
  | none => row
  | some w =>
    if w.reason = "" then row
    else { row with
      status := "withheld-by-judgment", reason := w.reason
      reasonFrom := "_driver/withheld-families-" ++ w.axis.getD axis ++ ".json" }

/-- An office this deployment could not reach. -/
def officeRow (axis : String) (i : Nat) (d : Option String × String) : FormRow :=
  let named := Text.trim (d.1.getD "")
  let jurisdiction := if named = "" then "unnamed deferral #" ++ toString (i + 1) else named
  { rowId := shortId "CO" ("deferred-office:" ++ axis ++ ":" ++ jurisdiction), axis, kind := "deferred"
    unit := some (if named = "" then jurisdiction ++ " — territory not recorded"
      else named ++ " register — not searched")
    isOpen := true, receiptReason := Text.trim (Text.collapseSpaces d.2) }

/-- The rows of one axis. -/
def axisRows (axis : String) : List FormRow :=
  let s := input.skeleton.find? fun s => Text.trim s.axis = axis
  let state := Text.trim ((s.map (·.state)).getD "")
  let deferred := (((s.map (·.deferred)).getD []).map Text.trim).filter (· ≠ "")
  [axisRow axis state deferred] ++
    (input.openBlocks R axis).map (input.blockRow axis) ++
    deferred.map (input.deferredRow axis) ++
    (input.takenOut axis).filterMap (takenOutRow axis) ++
    ((input.awaiting.filter fun f => Text.trim f.1 ≠ "" ∧ Text.trim f.2 = axis).map fun f =>
      input.familyRow axis (Text.trim f.1)) ++
    input.deferredCoverage.mapIdx (officeRow axis)

/-- Every office the plan queries. -/
def searchedOffices : List String :=
  (((input.entries.flatMap (·.regions)).map R.upper).filter (· ≠ "")).eraseDups

def Layer.text : Layer → String
  | .national => "national"
  | .regional => "regional"
  | .international => "international"

def LayerCoverage.text : LayerCoverage → String
  | .returns => "returns"
  | .excludes => "excludes"
  | .unestablished => "unestablished"

def layerReceipt (report : LayerReport) : String :=
  "; ".intercalate <| report.unsearched.map fun u =>
    Layer.text u.binding.layer ++ " (" ++ u.binding.office ++ "): " ++ LayerCoverage.text u.state

/-- A territory whose binding registers were not all searched. -/
def layerRow (territory : String) : Option FormRow :=
  if named : R.upper (Text.trim territory) ≠ "" then
    let report := territoryLayerReport (R := R) ⟨territory, named⟩ (input.searchedOffices R)
      input.capabilities
    if report.complete then none
    else some
      { rowId := shortId "CL" ("layers:" ++ report.territory), axis := "primary-sweep"
        kind := "deferred", unit := some (report.territory ++ " — binding registers not all searched")
        isOpen := true, receiptReason := layerReceipt report }
  else none

/-- The form's rows, from the driver's facts alone. -/
def coverageFormRows : List FormRow :=
  (input.axes R).flatMap (input.axisRows R) ++ input.orderedTerritories.filterMap (input.layerRow R)

end CoverageInput

end Clearotron
