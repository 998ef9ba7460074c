import Clearotron.Library.Groups
import Clearotron.Placement.Duty

/-!
# The union of the placement form

What a pass submits is folded into what the driver holds: every selection the run has seen is
a row of the form, regenerated from the band; a submitted judgment the parser accepts wins, then
the held one, and otherwise the halves are carried. Rows the seat wrote itself accumulate beside
them, and silence destroys neither.
-/

namespace Clearotron.Placement

/-- What a pass hands in, or what the form holds: its rows, and its set-aside lists as rows. -/
structure Submission where
  rows : List Row := []
  setAside : List Row := []

/-- A selection the band does not hold. -/
structure Unresolved where
  select : String
  tier : Option String
  why : String
  deriving DecidableEq, Repr

/-- What is reported back by id. -/
structure Refusal where
  id : String
  why : String
  deriving DecidableEq, Repr

/-- A line whose floors have no fate. -/
structure UnfatedLine where
  group : Option GroupName
  line : String
  floors : List String
  deriving DecidableEq, Repr

structure Form where
  unresolved : List Unresolved := []
  setAsideRefused : List Refusal := []
  groupRefused : List Refusal := []
  tierRefused : List Refusal := []
  setAside : List SetAsideEntry := []
  setAsideGroups : List GroupEntry := []
  rows : List Row := []
  floorsWithoutFate : List UnfatedLine := []

section

variable (T : PlacementText) (input : PlacementInput)

/-- The id a row retracts. -/
def retraction (row : Row) : Option String :=
  (row.retract.map Text.trim).filter (· ≠ "")

def retractedIds (rows : List Row) : List String :=
  (rows.filterMap retraction).flatMap fun id => [T.upper id, id]

def isRetracted (retracted : List String) (row : Row) : Bool :=
  T.upper (row.rowId.getD "") ∈ retracted || (selectionOf row).any (· ∈ retracted)

/-- What the pass over the selections holds. -/
structure Selections where
  selections : List Row := []
  /-- the positions seen, by key, and the selections that resolve to none -/
  seen : List String := []
  unresolved : List Unresolved := []

/-- Is the row taken as a selection? A seat's own row is one only where the band holds it. -/
def takenAsSelection (row : Row) : Bool :=
  (selectionOf row).isSome && (row.kind ≠ some "seat" || (input.index.candidateOf row).isSome)

def pushSelection (retracted : List String) (st : Selections) (row : Row) : Selections :=
  match selectionOf row with
  | none => st
  | some sel =>
    match input.index.resolve sel with
    | none =>
      if row.kind = some "seat" ∨ "?" ++ sel ∈ st.seen then st
      else { st with
        seen := ("?" ++ sel) :: st.seen
        unresolved := st.unresolved ++ [⟨sel, (seatFields row).tier, notInBand⟩] }
    | some canonical =>
      let key := formRowKey T canonical
      if key ∈ st.seen then st
      else
        let next := { canonical with select := some sel }
        if isRetracted T retracted next || isRetracted T retracted row then
          { st with seen := key :: st.seen }
        else { st with seen := key :: st.seen, selections := st.selections ++ [next] }

def pushRefusal (refused : List Refusal) (r : Refusal) : List Refusal :=
  if r ∈ refused then refused else refused ++ [r]

/-- The grounds by name, by line, and what was refused. -/
structure SetAsides where
  entries : Keyed String SetAsideEntry := Keyed.empty
  refused : List Refusal := []

def takeMember (row : Row) (st : SetAsides) (id : String) : SetAsides :=
  match setAsideEntry T input row id with
  | .error why => { st with refused := pushRefusal st.refused ⟨id, why⟩ }
  | .ok e => { st with entries := (st.entries.erase e.key).set e.key e }

def takeSetAside (st : SetAsides) (row : Row) : SetAsides :=
  (setAsideMembers row).foldl (takeMember T input row) st

/-- The groups' rows, and what was refused. -/
structure GroupRows where
  entries : Keyed GroupName GroupEntry := Keyed.empty
  refused : List Refusal := []

def takeGroup (st : GroupRows) (row : Row) : GroupRows :=
  match groupEntry T input row with
  | .error why =>
    { st with refused := pushRefusal st.refused ⟨Text.trim (row.setAsideGroup.getD ""), why⟩ }
  | .ok e => { st with entries := (st.entries.erase e.setAsideGroup).set e.setAsideGroup e }

/-- The row of a list that answers a candidate: by its id, else by its key, the last; and where
`uriLeg` is asked, else by a record or a selection in common, the first. -/
def indexRows (uriLeg : Bool) (rows : List Row) (canonical : Row) : Option Row :=
  let uris (r : Row) : List String :=
    ((r.records ++ (selectionOf r).toList).map uriKey).filter (· ≠ "")
  (rows.reverse.find? fun r =>
      r.rowId.any (· ≠ "") ∧ T.upper (Text.trim (r.rowId.getD "")) = T.upper (canonical.rowId.getD "")) <|>
    (rows.reverse.find? fun r => formRowKey T r = formRowKey T canonical) <|>
    if uriLeg then (uris canonical).findSome? fun u => rows.find? fun r => u ∈ uris r else none

/-- The judgment a candidate's row takes. -/
def mergedFields (p s : Option Row) (row : Row) : SeatFields :=
  if s.any (rowIsSettled T · row) then seatFields (s.getD {})
  else if p.any (rowIsSettled T · row) then seatFields (p.getD {})
  else
    let sf := seatFields (s.getD {})
    let pf := seatFields (p.getD {})
    ⟨orElse sf.tier pf.tier, orElse sf.reason pf.reason, sf.borderline || pf.borderline⟩

/-- A floor never takes this tier. -/
def isFilteredFloor (row : Row) : Bool :=
  row.tier = some "out-of-scope-filtered" && holdsFloor input row

/-- The row with its judgment, before a floor's tier is asked. -/
def judgedRow (p s : Option Row) (row : Row) : Row :=
  let fields := mergedFields T p s row
  { row with
    tier := fields.tier.filter (· ≠ "")
    reason := fields.reason.filter (· ≠ "")
    borderline := fields.borderline }

def filteredWhy : String :=
  "a floor never takes out-of-scope-filtered. Place it at headline-candidate or sheet-2, or set its " ++
    "line aside by name"

/-- The candidate's row as the form holds it: a floor's filtered tier is refused. -/
def mergedRow (prior submitted : List Row) (row : Row) : Row :=
  let judged := judgedRow T (indexRows T false prior row) (indexRows T true submitted row) row
  if isFilteredFloor input judged then { judged with tier := none } else judged

def tierRefusal (prior submitted : List Row) (row : Row) : Option Refusal :=
  let judged := judgedRow T (indexRows T false prior row) (indexRows T true submitted row) row
  if isFilteredFloor input judged then some ⟨row.select.getD "", filteredWhy⟩ else none

/-- A seat's row as the form holds it. -/
def seatRow (r : Row) : Row :=
  let f := seatFields r
  { rowId := some (shortId "PS" (seatKey T r))
    kind := some "seat"
    mark := r.mark, owner := r.owner
    jurisdiction := some (r.jurisdiction.getD "")
    records := r.records.filter (Text.trim · ≠ "")
    tier := f.tier, reason := f.reason, borderline := f.borderline }

/-- The seat rows of a list, each key once and none a driver row's. -/
def seatRows : List Row → List String → List Row
  | [], _ => []
  | r :: rest, seen =>
    if r.kind = some "register" ∨ seatKey T r ∈ seen then seatRows rest seen
    else seatRow T r :: seatRows rest (seatKey T r :: seen)

/-- Is a submitted row used up before the seat's rows are read? -/
def consumed (row : Row) : Bool :=
  (retraction row).isSome || takenAsSelection input row || isSetAsideRow row || isSetAsideGroupRow row

/-- The parts of the form, before what its groups' rows cover is counted. -/
structure Parts where
  selections : Selections
  setAsides : SetAsides
  groupRows : GroupRows
  registerRows : List Row
  carriedSeat : List Row

def unionParts (prior : Submission) (submitted : Option Submission) : Parts :=
  let sub := submitted.getD {}
  let retracted := retractedIds T sub.rows
  let selections := (prior.rows ++ sub.rows).foldl (pushSelection T input retracted) {}
  let asides := (prior.setAside ++ sub.setAside ++ sub.rows).foldl (takeSetAside T input) {}
  let asides := { asides with entries := asides.entries.keepIf fun _ e =>
    !(e.setAside ∈ retracted || T.upper e.setAside ∈ retracted) }
  let groupRows := ((prior.setAside ++ sub.setAside ++ sub.rows).filter isSetAsideGroupRow).foldl
    (takeGroup T input) {}
  let groupRows := { groupRows with entries := groupRows.entries.keepIf fun g _ =>
    !("group:" ++ g.text ∈ retracted || T.upper ("group:" ++ g.text) ∈ retracted) }
  let registerRows := selections.selections.map (mergedRow T input prior.rows sub.rows)
  let source := prior.rows.filter (!takenAsSelection input ·) ++ sub.rows.filter (!consumed input ·)
  let carriedSeat := (seatRows T source (registerRows.map (formRowKey T))).filter
    (!isRetracted T retracted ·)
  ⟨selections, asides, groupRows, registerRows, carriedSeat⟩

namespace Parts

variable (parts : Parts)

def rows : List Row := parts.registerRows ++ parts.carriedSeat

/-- The lines placed: a line is placed only where its row renders. -/
def placedLines : List String :=
  (parts.rows.filter fun r => r.kind = some "register" ∧ rowIsSettled T r r).map (lineKey T)

def shapeLine (g : GroupName) (key : String) : Option GroupLine :=
  (input.group g).list.find? (·.key = key)

/-- The lines a group's row answers for, floors aside: neither placed nor named. -/
def openLines (g : GroupName) : List String :=
  ((groupOfKeys input).entries.filter fun kv => kv.2 = g ∧ kv.1 ∉ parts.placedLines T ∧
    (parts.setAsides.entries.get kv.1).isNone).map (·.1)

/-- A line whose floor the group's row does not answer for. -/
def leavesFloor (g : GroupName) (key : String) : Bool :=
  (shapeLine input g key).any (0 < ·.floors) &&
    !groupRowCoversFloorLine input g key (servedLines T input)

/-- A group's row with what it covers. -/
def coveredEntry (e : GroupEntry) : GroupEntry :=
  let g := e.setAsideGroup
  let lines := parts.openLines T input g
  { e with
    coversLines := (lines.filter (!leavesFloor T input g ·)).length
    floorsNotCovered := (lines.filter (leavesFloor T input g ·)).map fun key =>
      ((shapeLine input g key).bind (·.recordId)).getD key }

/-- What the form renders. -/
def placements : List Entry := renderPlacements T parts.rows

def groundOf (uri : String) : Option LineGround :=
  setAsideGrounds T input parts.setAsides.entries parts.groupRows.entries
    ((parts.placements T).flatMap (·.records)) (servedLines T input) uri

def duty : FloorDuty :=
  reconcileFloorDuty T input.floorList (parts.placements T)
    fun uri => (parts.groundOf T input uri).map LineGround.ground

/-- The group of a record's line. -/
def lineGroup (uri : String) : Option GroupName := (lineOf T input uri).bind (groupOfKeys input).get

/-- May the row of its group answer for this floor? -/
def crowdAnswers (uri : String) : Bool :=
  (lineOf T input uri).any fun key => ((groupOfKeys input).get key).any fun g =>
    groupRowCoversFloorLine input g key (servedLines T input)

/-- The floors the step still owes, in order. -/
def owedFloors : List String :=
  ((parts.duty T input).rows.filter fun r =>
    (r.disposition = .unanswered ∨ r.disposition = .namedWithoutGround) ∧
      !crowdAnswers T input r.recordId).map (·.recordId)

/-- What the owed floors are listed by: their line, else the record. -/
def unfatedKey (uri : String) : String := (lineOf T input uri).getD ("record:" ++ uri)

/-- The lines of the owed floors, each with its floors. -/
def unfated : List UnfatedLine :=
  (groupsBy (unfatedKey T input) (parts.owedFloors T input)).entries.map fun kg =>
    let first := kg.2.first
    let shown := (lineGroup T input first).bind fun g =>
      ((lineOf T input first).bind (shapeLine input g)).bind (·.recordId)
    ⟨lineGroup T input first, shown.getD first, kg.2.members⟩

end Parts

structure UnionResult where
  form : Form
  total : Nat
  settled : Nat
  outstanding : Nat
  carried : Nat
  seatRows : Nat
  unresolved : Nat
  setAside : Nat
  setAsideGroups : Nat
  floorsWithoutFate : Nat

/-- Has the step answered, on this turn or an earlier one? -/
def answered (prior : Submission) (submitted : Option Submission) : Bool :=
  submitted.isSome || prior.rows ≠ [] || prior.setAside ≠ []

def unionPlacementForm (prior : Submission) (submitted : Option Submission) : UnionResult :=
  let sub := submitted.getD {}
  let parts := unionParts T input prior submitted
  let unfated := parts.unfated T input
  let settled := parts.rows.countP fun r => rowIsSettled T r r
  { form :=
      { unresolved := parts.selections.unresolved
        setAsideRefused := parts.setAsides.refused
        groupRefused := parts.groupRows.refused
        tierRefused := parts.selections.selections.filterMap
          (tierRefusal T input prior.rows sub.rows)
        setAside := parts.setAsides.entries.entries.map (·.2)
        setAsideGroups := parts.groupRows.entries.entries.map fun ge =>
          parts.coveredEntry T input ge.2
        rows := parts.rows
        floorsWithoutFate := if answered prior submitted then unfated else [] }
    total := parts.rows.length
    settled
    outstanding := parts.rows.length - settled
    carried := parts.registerRows.countP fun r =>
      rowIsSettled T r r && !(indexRows T true sub.rows r).any (rowIsSettled T · r)
    seatRows := parts.carriedSeat.length
    unresolved := parts.selections.unresolved.length
    setAside := parts.setAsides.entries.entries.length
    setAsideGroups := parts.groupRows.entries.entries.length
    floorsWithoutFate := (unfated.map (·.floors.length)).sum }

/-- `outstandingPlacementRows`. -/
def outstandingPlacementRows (form : Form) : List Row := form.rows.filter fun r => !rowIsSettled T r r

end

def SetAsideEntry.row (e : SetAsideEntry) : Row :=
  { setAside := [e.setAside], owner := e.owner, ground := some e.ground, on := e.on }

def GroupEntry.row (e : GroupEntry) : Row :=
  { setAsideGroup := some e.setAsideGroup.text, count := some (toString e.count, some e.count)
    ground := some e.ground }

/-- `parsePlacementForm`: the groups' rows ride the set-aside list on the way in. -/
def Form.readBack (form : Form) : Submission :=
  { rows := form.rows
    setAside := form.setAside.map SetAsideEntry.row ++ form.setAsideGroups.map GroupEntry.row }

end Clearotron.Placement
