import Clearotron.Placement.Index

/-!
# What a set-aside is checked against

A line the step does not place leaves with a ground: its own, by name, or the one its group's
row gives. A ground on a floor's line is about its status, its territory, its goods or its
mark, and is checked against what the run holds.
-/

namespace Clearotron.Placement

/-- `ROW_GROUPS`. -/
inductive GroupName
  | a
  | b
  | c
  | d
  | rest
  | noGoods
  deriving DecidableEq, Repr

def GroupName.text : GroupName → String
  | .a => "a"
  | .b => "b"
  | .c => "c"
  | .d => "d"
  | .rest => "rest"
  | .noGoods => "no_goods"

def rowGroups : List GroupName := [.a, .b, .c, .d, .rest, .noGoods]

/-- A line as the shape lists it. -/
structure GroupLine where
  key : String
  floors : Nat := 0
  recordId : Option String := none
  deriving DecidableEq, Repr

structure ShapeGroup where
  lines : Nat := 0
  records : Nat := 0
  list : List GroupLine := []
  deriving DecidableEq, Repr

/-- The groups of the band's shape. -/
structure Groups where
  group : GroupName → ShapeGroup
  crowdedAt : Option Nat := none
  firstPage : Nat := 0

/-- What the step was served, from the reading log. -/
structure Served where
  lines : List String := []
  records : List String := []
  partsRead : List Nat := []
  groupParts : GroupName → Option (List Nat) := fun _ => none

/-- What the driver computes the form from. -/
structure PlacementInput where
  floors : Option (List Floor) := none
  positions : Option (List BandPosition) := none
  groups : Option Groups := none
  served : Option Served := none
  marks : List String := []
  /-- the state of each record's goods; none where the run wrote none -/
  evidence : Option (String → Option String) := none

namespace PlacementInput

variable (input : PlacementInput)

def floorList : List Floor := input.floors.getD []

def index : SelectionIndex := buildSelectionIndex input.floorList (input.positions.getD [])

def group (g : GroupName) : ShapeGroup := (input.groups.map (·.group g)).getD {}

/-- Does a group of this size count as a crowd? -/
def crowdedSize (records : Nat) : Bool := (input.groups.bind (·.crowdedAt)).any (· ≤ records)

end PlacementInput

/-- A group's name as it is written. -/
def groupName (T : PlacementText) (written : String) : Option GroupName :=
  let g := (T.lower (Text.trim written)).toList
  let named :=
    if g.take 5 = "group".toList ∧ (g.drop 5).head?.any Text.isSpace then
      (g.drop 5).dropWhile Text.isSpace
    else g
  let inner :=
    match named with
    | '(' :: body =>
      if body.getLast? = some ')' ∧ !body.dropLast.any (·.toNat ∈ [10, 13, 8232, 8233]) then
        body.dropLast
      else named
    | _ => named
  let name := Text.collapseSpaces <| String.ofList <|
    (Text.trim (String.ofList inner)).toList.map fun c => if c = '-' then ' ' else c
  rowGroups.find? fun group => group.text = String.ofList (name.toList.map fun c => if c = ' ' then '_' else c)

/-- The group each line sits in: a later group's line of the same key has it. -/
def groupOfKeys (input : PlacementInput) : Keyed String GroupName :=
  rowGroups.foldl (fun out g =>
    (input.group g).list.foldl (fun out l => if l.key = "" then out else out.set l.key g) out)
    Keyed.empty

section

variable (T : PlacementText) (input : PlacementInput)

def lineOf (uri : String) : Option String := (input.index.resolve uri).map (lineKey T)

/-- The lines the step read. -/
def servedLines : List String :=
  if input.groups.isNone then []
  else (input.served.map (·.lines)).getD [] ++
    ((input.served.map (·.records)).getD []).filterMap (lineOf T input)

/-- May a group's row answer for a floor in it? Only a crowd's in (b). -/
def groupRowCoversFloors (g : GroupName) : Bool := g = .b && input.crowdedSize (input.group .b).records

/-- And only once the floor's line was read. -/
def groupRowCoversFloorLine (g : GroupName) (key : String) (served : List String) : Bool :=
  groupRowCoversFloors input g && key ∈ served

def Floor.uri (f : Floor) : String := uriKey f.recordId

def floorUris : List String := (input.floorList.map Floor.uri).filter (· ≠ "")

def holdsFloor (canonical : Row) : Bool := canonical.records.any fun u => uriKey u ∈ floorUris input

/-- The lines that hold a floor: a floor record's, or one the shape counts a floor on. -/
def floorLines : List String :=
  (floorUris input).filterMap (lineOf T input) ++
    [GroupName.a, .b, .c, .d, .noGoods].flatMap fun g =>
      ((input.group g).list.filter (0 < ·.floors)).map (·.key)

def lineHoldsFloor (canonical : Row) : Bool :=
  holdsFloor input canonical || lineKey T canonical ∈ floorLines T input

/-- A record a ground is checked on. -/
structure CheckedRecord where
  uri : String
  mark : Option String
  deriving DecidableEq, Repr

/-- The floors of a line, and the records of the position that is named. -/
def checkedRecords (canonical : Row) : List CheckedRecord :=
  let floors := (input.floorList.filter fun f => f.uri ≠ "" ∧
    lineOf T input f.uri = some (lineKey T canonical)).map fun f => ⟨f.uri, f.markText⟩
  -- the last floor of a record has its mark, at the place of the first
  let byUri := floors.foldl (fun m f => m.set f.uri f) (Keyed.empty : Keyed String CheckedRecord)
  let all := canonical.records.foldl (fun m u =>
    if uriKey u = "" ∨ (m.get (uriKey u)).isSome then m
    else m.set (uriKey u) ⟨uriKey u, canonical.mark⟩) byUri
  all.entries.map (·.2)

/-- `FLOOR_GROUND_ON`. -/
def floorGroundOn : List String := ["status", "territory", "goods", "mark"]

/-- `FLOOR_GROUND_WORDS_READ`. -/
def floorGroundWordsRead : List String := ["status", "territory"]

/-- The words of `FLOOR_GROUND_REFUSED`. -/
def refusedWords : List String :=
  ["customer", "customers", "consumer", "consumers", "clients", "clientele", "user", "users",
   "audience", "audiences", "buyer", "buyers", "purchaser", "purchasers", "patient", "patients",
   "professional", "professionals", "channel", "channels", "market", "markets", "marketplace",
   "marketplaces", "sector", "sectors", "field", "fields", "industry", "industries", "industrial",
   "business", "businesses", "activity", "activities", "commerce", "commercial", "distribution",
   "wholesale", "retail", "retailer", "retailers", "sell", "sells", "sold", "selling", "b2b", "b2c",
   "off-field", "off field", "goods", "product", "products", "merchandise"]

/-- The words refused unless `mark` follows. -/
def refusedBeforeMark : List String := ["trade", "trades", "trading", "service", "services"]

/-- `\s*-?\s*marks?` -/
def startsMark (s : List Char) : Bool :=
  let s := s.dropWhile Text.isSpace
  let s := if s.head? = some '-' then s.tail else s
  "mark".toList.isPrefixOf (s.dropWhile Text.isSpace)

/-- `FLOOR_GROUND_REFUSED`, on a text in lower case. -/
def refusedFrom : Option Char → List Char → Bool
  | _, [] => false
  | before, c :: rest =>
    let whole (w : String) : Bool := w.toList.isPrefixOf (c :: rest) &&
      !((c :: rest).drop w.length).head?.any Text.isWord
    (!before.any Text.isWord &&
      (refusedWords.any whole || refusedBeforeMark.any fun w =>
        whole w && !startsMark ((c :: rest).drop w.length))) ||
    refusedFrom (some c) rest

def floorGroundRefused (ground : String) : Bool :=
  refusedFrom none (ground.toList.map Char.toLower)

/-- Why a ground on a floor's goods or mark does not hold. -/
def evidenceProblem (on : String) (canonical : Row) : String :=
  let records := checkedRecords T input canonical
  let goods :=
    if on ≠ "goods" then ""
    else if lineKey T canonical ∉ servedLines T input then
      "this line has not been read. Read it in band_shape or its group's page, or open its record " ++
        "with band_record, before you set it aside on its goods"
    else match input.evidence with
    | none => "the run has no record of this line's goods, so a goods ground cannot be checked. " ++
        "Place the line, or set it aside on its status, territory or mark"
    | some states =>
      let short := records.filter fun r => states r.uri ≠ some "complete"
      if short = [] then ""
      else "the run does not hold the goods of " ++
        ", ".intercalate ((short.take 3).map fun r =>
          r.uri ++ " (" ++ (states r.uri).getD "not recorded" ++ ")") ++
        (if short.length > 3 then ", and " ++ toString (short.length - 3) ++ " more" else "") ++
        " in full, so a goods ground cannot stand. Place the line, or set it aside on its status, " ++
        "territory or mark"
  let clientMarks := (input.marks.map (formKey T)).filter (· ≠ "")
  if goods ≠ "" then goods
  else if on ≠ "mark" then ""
  else if clientMarks = [] then
    "the run has no applied-for mark to compare with. Place the line, or set it aside on its " ++
      "status, territory or goods"
  else match records.find? fun r => formKey T (r.mark.getD "") ∈ clientMarks with
  | some own => own.uri ++ " carries the client's own mark, so a mark ground cannot set it aside. " ++
      "Place the line, or set it aside on its status, territory or goods"
  | none => ""

/-- The ids a set-aside row names. -/
def setAsideMembers (row : Row) : List String :=
  (row.setAside.filter (Text.trim · ≠ "")).map Text.trim

def isSetAsideRow (row : Row) : Bool := setAsideMembers row ≠ []

def isSetAsideGroupRow (row : Row) : Bool := row.setAsideGroup.any (Text.trim · ≠ "")

/-- A ground by name as the form holds it. -/
structure SetAsideEntry where
  setAside : String
  key : String
  owner : Option String
  ground : String
  on : Option String
  deriving DecidableEq, Repr

/-- A group's row as the form holds it. -/
structure GroupEntry where
  setAsideGroup : GroupName
  count : Nat
  ground : String
  coversLines : Nat := 0
  floorsNotCovered : List String := []
  deriving DecidableEq, Repr

/-- `NOT_IN_BAND`. -/
def notInBand : String := "the band holds no record with this id"

/-- Why a ground by name does not hold on a line. -/
def setAsideProblem (on ground : String) (canonical : Row) : String :=
  if !lineHoldsFloor T input canonical then ""
  else if on ∉ floorGroundOn then
    "a floor's set-aside needs \"on\": one of " ++ ", ".intercalate floorGroundOn
  else if on ∈ floorGroundWordsRead ∧ floorGroundRefused ground then
    "a " ++ on ++ " ground is about the " ++ on ++ " only, and this one speaks of goods, " ++
      "customers, channels, markets or field. Rewrite it about the " ++ on ++
      ", or send a ground about the registered goods with \"on\": \"goods\""
  else evidenceProblem T input on canonical

/-- The entry one member of a set-aside row stands as, or why it is refused. -/
def setAsideEntry (row : Row) (id : String) : Except String SetAsideEntry :=
  let ground := Text.trim (row.ground.getD "")
  let on := T.lower (Text.trim (row.on.getD ""))
  match input.index.resolve id with
  | none => .error notInBand
  | some canonical =>
    let problem := setAsideProblem T input on ground canonical
    if ground = "" then .error "no ground"
    else if problem ≠ "" then .error problem
    else .ok ⟨id, lineKey T canonical, canonical.owner, ground, if on = "" then none else some on⟩

/-- How the lines of a group that were not read are read. -/
def unreadGroup (g : GroupName) (seen total : Nat) (firstPage pagesOnly : Bool) : String :=
  let partsLeft := (input.served.bind (·.groupParts g)).map fun inParts =>
    inParts.filter (· ∉ (input.served.map (·.partsRead)).getD [])
  let named (parts : List Nat) : String :=
    "read band_shape " ++ " and ".intercalate (parts.map fun p => "part " ++ toString p)
  let unprinted := "read the parts of band_shape that print "
  if firstPage then
    toString seen ++ " of the first " ++ toString total ++ " lines of group " ++ g.text ++
      " were read: " ++
      (match partsLeft with
      | some (p :: parts) => named (p :: parts) ++ ", which prints them"
      | _ => unprinted ++ "them") ++ ", before its row"
  else
    let parts := if pagesOnly then [] else match partsLeft with
      | none => [unprinted ++ "it"]
      | some [] => []
      | some (p :: parts) => [named (p :: parts)]
    toString seen ++ " of " ++ toString total ++ " lines of group " ++ g.text ++ " were read: " ++
      ", or ".intercalate (parts ++ ["page it with band_lookup \x7b\"group\":\"" ++ g.text ++ "\"\x7d"]) ++
      ", before its row"

/-- Why a group's row does not stand: a row covers only what was read. -/
def groupProblem (row : Row) (g : GroupName) : String :=
  let shown := input.group g
  let crowded := input.crowdedSize shown.records
  let firstPage := crowded && g ≠ .a
  let needed := if firstPage then shown.list.take ((input.groups.map (·.firstPage)).getD 0)
    else shown.list
  let seen := (needed.filter fun l => l.key ∈ servedLines T input).length
  if shown.lines = 0 then "the band shape lists no line in this group"
  else if Text.trim (row.ground.getD "") = "" then "no ground"
  else if row.count.bind (·.2) ≠ some shown.records then
    "count " ++ (row.count.map (·.1)).getD "(none)" ++ " is not the shape's " ++ toString shown.records
  else if g = .noGoods ∧ !crowded then
    "the lines the goods test could not place take a row only at a thousand records or more; below " ++
      "that, each takes its fate by name"
  else if seen < needed.length then
    unreadGroup input g seen needed.length firstPage (crowded && g = .a)
  else ""

/-- The entry a group's row stands as, or why it is refused. -/
def groupEntry (row : Row) : Except String GroupEntry :=
  match groupName T (row.setAsideGroup.getD "") with
  | none => .error ("not one of the shape's groups (" ++
      ", ".intercalate (rowGroups.map GroupName.text) ++ ")")
  | some g =>
    let problem := groupProblem T input row g
    if problem ≠ "" then .error problem
    else .ok
      { setAsideGroup := g, count := (input.group g).records, ground := Text.trim (row.ground.getD "") }

end

end Clearotron.Placement
