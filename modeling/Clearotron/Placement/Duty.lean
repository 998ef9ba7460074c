import Clearotron.Placement.Grounds

/-!
# The floors the delivery owes

A floor is answered by a placement that names its record with a reason, or by the ground its
line or its group was set aside with. The duty counts every floor in one disposition.
-/

namespace Clearotron.Placement

section

variable (T : PlacementText) (input : PlacementInput)

/-- The ground a record leaves with. -/
inductive LineGround
  | byName (entry : SetAsideEntry)
  | byGroup (group : GroupName) (key ground : String)
  deriving DecidableEq, Repr

def LineGround.ground : LineGround → String
  | byName entry => entry.ground
  | byGroup _ _ ground => ground

/-- `setAsideGrounds`: the ground of a record, if its line or its group was set aside. -/
def setAsideGrounds (named : Keyed String SetAsideEntry) (grouped : Keyed GroupName GroupEntry)
    (placedUris served : List String) (uri : String) : Option LineGround :=
  match lineOf T input uri with
  | none => none
  | some line =>
    match named.get line with
    | some entry => some (.byName entry)
    | none =>
      match (groupOfKeys input).get line with
      | none => none
      | some g =>
        match grouped.get g with
        | none => none
        | some row =>
          let isFloor : Bool := uriKey uri ∈ floorUris input
          if (isFloor || line ∈ floorLines T input) && !groupRowCoversFloorLine input g line served then
            none
          -- a placed line's other records have no ground of the group's
          else if !isFloor && line ∈ placedUris.filterMap (lineOf T input) then none
          else some (.byGroup g line row.ground)

/-- `entryUris`. -/
def entryUris (e : Entry) : List String := e.records.filterMap fun r => (normalizeRecordUri r).map T.lower

def floorUri (f : Floor) : String := T.lower (Text.trim f.recordId)

inductive Disposition
  | noRecordId
  | accounted
  | unanswered
  | namedWithoutGround
  deriving DecidableEq, Repr

/-- `SET_ASIDE_TIER`. -/
def setAsideTier : String := "set-aside"

structure FloorDutyRow where
  recordId : String
  mark : String
  owner : String
  registry : String
  basis : String
  status : String
  live : Option Bool
  disposition : Disposition
  tier : Option String
  deriving DecidableEq, Repr

/-- The entry that names a floor, the first. -/
def namingEntry (placements : List Entry) (f : Floor) : Option Entry :=
  if floorUri T f = "" then none else placements.find? fun e => floorUri T f ∈ entryUris T e

/-- Is a floor no entry names set aside with a ground? -/
def isSetAside (placements : List Entry) (groundOf : String → Option String) (f : Floor) : Bool :=
  floorUri T f ≠ "" && (namingEntry T placements f).isNone &&
    (groundOf (Text.trim f.recordId)).any (Text.trim · ≠ "")

def dispositionOf (placements : List Entry) (groundOf : String → Option String) (f : Floor) :
    Disposition :=
  if floorUri T f = "" then .noRecordId
  else if isSetAside T placements groundOf f then .accounted
  else match namingEntry T placements f with
    | none => .unanswered
    | some e => if isBlank e.reason then .namedWithoutGround else .accounted

def dutyRow (placements : List Entry) (groundOf : String → Option String) (f : Floor) : FloorDutyRow :=
  let disposition := dispositionOf T placements groundOf f
  { recordId := f.recordId
    mark := f.markText.getD ""
    owner := f.ownerName.getD ""
    registry := f.registry, basis := f.basis, status := f.status, live := f.live
    disposition
    tier :=
      if disposition ≠ .accounted then none
      else if isSetAside T placements groundOf f then some setAsideTier
      else some (((namingEntry T placements f).bind (·.tier)).getD "(untiered)") }

structure FloorTotals where
  floors : Nat := 0
  accounted : Nat := 0
  namedWithoutGround : Nat := 0
  unanswered : Nat := 0
  /-- of the unanswered, those without a record id -/
  unanswerable : Nat := 0
  deriving DecidableEq, Repr

def FloorTotals.add (t : FloorTotals) (row : FloorDutyRow) : FloorTotals :=
  let t := { t with floors := t.floors + 1 }
  match row.disposition with
  | .accounted => { t with accounted := t.accounted + 1 }
  | .namedWithoutGround => { t with namedWithoutGround := t.namedWithoutGround + 1 }
  | .unanswered => { t with unanswered := t.unanswered + 1 }
  | .noRecordId => { t with unanswered := t.unanswered + 1, unanswerable := t.unanswerable + 1 }

structure FloorDuty where
  totals : FloorTotals
  byTier : Keyed String Nat
  rows : List FloorDutyRow
  reconciles : Bool
  undischargedBySeat : Nat

def reconcileFloorDuty (floors : List Floor) (placements : List Entry)
    (groundOf : String → Option String) : FloorDuty :=
  let rows := floors.map (dutyRow T placements groundOf)
  let totals := rows.foldl FloorTotals.add {}
  { totals, rows
    byTier := (rows.filterMap (·.tier)).foldl
      (fun m tier => m.set tier ((m.get tier).getD 0 + 1)) Keyed.empty
    reconciles := totals.accounted + totals.namedWithoutGround + totals.unanswered = totals.floors
    undischargedBySeat := totals.unanswered - totals.unanswerable + totals.namedWithoutGround }

end

end Clearotron.Placement
