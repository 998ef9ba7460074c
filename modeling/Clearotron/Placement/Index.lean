import Mathlib.Data.List.Sort
import Clearotron.Library.Keyed
import Clearotron.Placement.Entry

/-!
# The selection index

A row selects a candidate by naming one record id it holds. The index maps every record id
of the band, as it is normalised, to the candidate's own row: a position of the register, or a
floor record that no position covers.
-/

namespace Clearotron.Placement

/-- `normalizeRecordUri(u) || u`. -/
def uriKey (u : String) : String := (normalizeRecordUri u).getD u

/-- The order of the runtime's own `sort`: by UTF-16 units. -/
def sortTexts (texts : List String) : List String :=
  texts.insertionSort fun a b => Text.utf16 a ≤ Text.utf16 b

/-- `replace(/\s*\([^)]*\)\s*$/, "")`. -/
def dropParenthetical (s : List Char) : List Char :=
  match s.reverse.dropWhile Text.isSpace with
  | ')' :: body =>
    let inside := (body.takeWhile (· ≠ ')')).reverse
    if '(' ∈ inside then
      let before := (body.dropWhile (· ≠ ')')).reverse ++ inside.takeWhile (· ≠ '(')
      (before.reverse.dropWhile Text.isSpace).reverse
    else s
  | _ => s

/-- The key of a row with these records. -/
def registerKey (records : List String) : String :=
  "register:" ++ ",".intercalate (sortTexts (records.map uriKey))

section

variable (T : PlacementText)

def normKey (s : Option String) : String :=
  Text.collapseSpaces (T.lower (String.ofList (dropParenthetical (Text.trim (s.getD "")).toList)))

def seatKey (row : Row) : String :=
  "seat:" ++ normKey T row.mark ++ "|" ++ normKey T row.owner ++ "|" ++ normKey T row.jurisdiction

def formRowKey (row : Row) : String :=
  if row.kind = some "seat" then seatKey T row else registerKey row.records

/-- `floorMarkKey`: the letters and digits of a mark. -/
def floorMarkKey (s : Option String) : String :=
  String.ofList <| (T.lower (T.foldDiacritics (s.getD ""))).toList.filter fun c =>
    (97 ≤ c.toNat && c.toNat ≤ 122) || (48 ≤ c.toNat && c.toNat ≤ 57)

/-- The combining marks that follow a Latin letter are dropped. -/
def dropLatinMarks (afterLatin : Bool) : List Char → List Char
  | [] => []
  | c :: rest =>
    if T.isLatin c then c :: dropLatinMarks true rest
    else if afterLatin ∧ T.isCombining c then dropLatinMarks true rest
    else c :: dropLatinMarks false rest

/-- `formKey`: is this the same form of the mark? -/
def formKey (s : String) : String :=
  let folded := (dropLatinMarks T false (T.decompose (T.lower s)).toList).filter fun c =>
    T.isLetterOrNumber c || T.isCombining c
  if folded = [] then Text.trim s else String.ofList folded

/-- The set of an owner; a record without an owner is its own. -/
def setAsideKey (canonical : Row) : String :=
  let owner := normKey T canonical.owner
  if owner = "" then "position:" ++ formRowKey T canonical else "owner:" ++ owner

/-- A line: one mark of one owner. -/
def lineKey (canonical : Row) : String :=
  let mark := floorMarkKey T canonical.mark
  "line:" ++ setAsideKey T canonical ++ "|" ++
    if mark = "" then ",".intercalate canonical.records else mark

end

/-- A floor: a live identical or near-identical mark in an ordered class. -/
structure Floor where
  recordId : String := ""
  markText : Option String := none
  ownerName : Option String := none
  classes : List String := []
  registry : String := ""
  basis : String := ""
  status : String := ""
  live : Option Bool := none
  deriving DecidableEq, Repr

/-- A position of the register: the records of one right. -/
structure BandPosition where
  markText : Option String := none
  owners : List String := []
  ownerStrings : List String := []
  records : List String := []
  classes : List String := []
  territories : List String := []
  deriving DecidableEq, Repr

/-- `mkRow`. -/
def mkRow (mark owner : Option String) (records classes territories : List String)
    (fromFloorOnly : Bool) : Row :=
  let uris := sortTexts (records.filter (· ≠ "")).eraseDups
  { rowId := some (shortId "PR" (registerKey uris))
    kind := some "register"
    mark, owner
    jurisdiction := some (", ".intercalate territories)
    records := uris
    classes, territories, fromFloorOnly }

def positionRow (pos : BandPosition) : Row :=
  mkRow pos.markText (pos.owners.head? <|> pos.ownerStrings.head?) pos.records pos.classes
    pos.territories false

def floorRow (f : Floor) : Row := mkRow f.markText f.ownerName [f.recordId] f.classes [] true

/-- The candidate of each record id. -/
abbrev SelectionIndex := Keyed String Row

/-- The first row of an id stays. -/
def putRow (byUri : SelectionIndex) (uri : String) (row : Row) : SelectionIndex :=
  if uriKey uri = "" ∨ (byUri.get (uriKey uri)).isSome then byUri else byUri.set (uriKey uri) row

def putPosition (byUri : SelectionIndex) (pos : BandPosition) : SelectionIndex :=
  (pos.records.filter (· ≠ "")).foldl (fun byUri r => putRow byUri r (positionRow pos)) byUri

/-- A floor record that no position covers is its own candidate. -/
def putFloor (byUri : SelectionIndex) (f : Floor) : SelectionIndex :=
  if f.recordId = "" then byUri else putRow byUri f.recordId (floorRow f)

def buildSelectionIndex (floors : List Floor) (positions : List BandPosition) : SelectionIndex :=
  floors.foldl putFloor (positions.foldl putPosition Keyed.empty)

def SelectionIndex.resolve (index : SelectionIndex) (uri : String) : Option Row :=
  index.get (uriKey uri)

/-- What a row selects: its own `select`, else a record it names. -/
def selectionOf (row : Row) : Option String :=
  let own := Text.trim (row.select.getD "")
  if own ≠ "" then some own else (row.records.find? (Text.trim · ≠ "")).map Text.trim

/-- The candidate a row selects, if the band holds it. -/
def SelectionIndex.candidateOf (index : SelectionIndex) (row : Row) : Option Row :=
  (selectionOf row).bind index.resolve

theorem records_mkRow {mark owner : Option String} {records classes territories : List String}
    {fromFloorOnly : Bool} {u : String} :
    u ∈ (mkRow mark owner records classes territories fromFloorOnly).records ↔
      u ∈ records ∧ u ≠ "" := by
  simp [mkRow, sortTexts]

/-- A candidate of the band: its kind, its id, and no judgment. -/
structure IsCandidate (c : Row) : Prop where
  kind : c.kind = some "register"
  rowId : c.rowId = some (shortId "PR" (registerKey c.records))
  select : c.select = none
  tier : c.tier = none
  reason : c.reason = none
  borderline : c.borderline = false
  records : c.records ≠ []

theorem isCandidate_mkRow {mark owner : Option String} {records classes territories : List String}
    {fromFloorOnly : Bool} {u : String} (mem : u ∈ records) (named : u ≠ "") :
    IsCandidate (mkRow mark owner records classes territories fromFloorOnly) :=
  ⟨rfl, rfl, rfl, rfl, rfl, rfl, List.ne_nil_of_mem (records_mkRow.mpr ⟨mem, named⟩)⟩

variable {index : SelectionIndex} {uri : String} {row c : Row}

theorem get_putRow (held : (putRow index uri row).get k = some c) :
    index.get k = some c ∨ (k = uriKey uri ∧ c = row) := by
  unfold putRow at held
  split at held
  · exact .inl held
  · rw [Keyed.get_set] at held
    split at held
    · rename_i is
      exact .inr ⟨is, (Option.some.inj held).symm⟩
    · exact .inl held

/-- What every row put into an index has, every row it resolves to has. -/
theorem resolve_induction {P : Row → Prop} {floors : List Floor} {positions : List BandPosition}
    (position : ∀ pos ∈ positions, ∀ u ∈ pos.records, u ≠ "" → P (positionRow pos))
    (floor : ∀ f ∈ floors, f.recordId ≠ "" → P (floorRow f))
    (held : (buildSelectionIndex floors positions).get k = some c) : P c := by
  have positions' : ∀ c k, (positions.foldl putPosition Keyed.empty).get k = some c → P c := by
    refine List.foldlRecOn positions putPosition
      (motive := fun byUri : SelectionIndex => ∀ c k, byUri.get k = some c → P c)
      (by simp) fun byUri ih pos mem => ?_
    unfold putPosition
    refine List.foldlRecOn (pos.records.filter (· ≠ "")) _
      (motive := fun byUri : SelectionIndex => ∀ c k, byUri.get k = some c → P c)
      ih fun byUri ih u there => ?_
    intro c k held
    obtain ⟨there, named⟩ := List.mem_filter.mp there
    obtain held | ⟨-, rfl⟩ := get_putRow held
    · exact ih c k held
    · exact position pos mem u there (of_decide_eq_true named)
  have all : ∀ c k, (buildSelectionIndex floors positions).get k = some c → P c := by
    unfold buildSelectionIndex
    refine List.foldlRecOn floors putFloor
      (motive := fun byUri : SelectionIndex => ∀ c k, byUri.get k = some c → P c)
      positions' fun byUri ih f mem => ?_
    intro c k held
    unfold putFloor at held
    split at held
    · exact ih c k held
    · rename_i named
      obtain held | ⟨-, rfl⟩ := get_putRow held
      · exact ih c k held
      · exact floor f mem named
  exact all c k held

theorem isCandidate_of_get {floors : List Floor} {positions : List BandPosition}
    (held : (buildSelectionIndex floors positions).get k = some c) : IsCandidate c := by
  refine resolve_induction (fun pos _ u mem named => ?_) (fun f _ named => ?_) held
  · exact isCandidate_mkRow mem named
  · exact isCandidate_mkRow (List.mem_singleton_self _) named

/-- The ids of the form are upper case, with nothing to trim. -/
theorem shortId_upper (R : Locale) {idPrefix key : String} (known : idPrefix ∈ ["PR", "PS"]) :
    R.upper (Text.trim (shortId idPrefix key)) = shortId idPrefix key ∧
      R.upper (shortId idPrefix key) = shortId idPrefix key := by
  let isPlain : Char → Bool := fun c => c.toNat < 128 ∧ c.isLower = false ∧ Text.isSpace c = false
  have front : ∀ w ∈ ["PR", "PS"], (w ++ "-").toList.all isPlain = true := by decide
  have plain := @shortId_letters idPrefix key fun c mem =>
    of_decide_eq_true (List.all_eq_true.mp (front _ known) c mem)
  have upper : R.upper (shortId idPrefix key) = shortId idPrefix key :=
    R.upper_fixed _ fun c mem => ⟨(plain c mem).1, (plain c mem).2.1⟩
  rw [Text.trim_of_no_space fun c mem => (plain c mem).2.2]
  exact ⟨upper, upper⟩

/-- A seat's row never has a candidate's id. -/
theorem shortId_seat_ne {key seatKey : String} (named : key ≠ "") (seatNamed : seatKey ≠ "") :
    shortId "PS" seatKey ≠ shortId "PR" key := by
  intro same
  have second := congrArg (fun s => s.toList[1]?) same
  simp [shortId, named, seatNamed, String.toList_append] at second

end Clearotron.Placement
