import Clearotron.Coverage.Form

/-!
# The renders of the form

The form is printed twice: as the table of the findings document, and as the machine
ledger. Both are read back, the table only for archived runs. The machine ledger is a JSON
text in the code; it stands here as the rows `JSON.parse` gives back.
-/

namespace Clearotron

/-- A settled row as every reader of the ledger takes it. -/
structure LedgerRow where
  axis : String
  status : String
  unit : String
  reason : String
  deriving DecidableEq, Repr

/-- A row of the machine ledger; an optional column is absent where it is none. -/
structure LedgerJsonRow where
  axis : String
  scope : String
  status : String
  reason : String
  classes : Option (List String) := none
  totalHits : Option Int := none
  qid : Option String := none
  deriving DecidableEq, Repr

/-- A row of the machine ledger, read. -/
structure ParsedJsonRow extends LedgerRow where
  scope : String
  classes : Option (List String)
  qid : Option String
  deriving DecidableEq, Repr

section

variable (R : Locale)

/-- The rows that are printed. -/
def usableRows (rows : List FormRow) : List FormRow :=
  rows.filter fun r => r.kind ≠ "family" ∧ R.lower (Text.trim r.status) ∈ coverageStatuses

def ledgerRow (r : FormRow) : LedgerRow where
  axis := R.lower (Text.trim r.axis)
  status := R.lower (Text.trim r.status)
  unit := Text.trim (r.unit.getD r.axis)
  reason := Text.trim r.reason

def formLedgerRows (rows : List FormRow) : List LedgerRow := (usableRows R rows).map (ledgerRow R)

/-- A backslash and a bar are escaped. -/
def cellEscape (c : Char) : List Char :=
  if c = '\\' ∨ c = '|' then ['\\', c] else [c]

def cell (s : String) : String := Text.tidy (String.ofList (s.toList.flatMap cellEscape))

/-- What the driver knows of a row, behind its reason. `sentence` is the owner's sentence for
a search left undone, where its recorded line is of a known kind. -/
def ledgerDetail (sentence : String → Option String) (r : FormRow) : String :=
  "; ".intercalate <| List.filter (· ≠ "")
    [ match r.totalHits with
      | some n => toString n ++ " hits"
      | none => "",
      if r.unaccountedClasses = [] then ""
      else "classes unaccounted: " ++ ", ".intercalate r.unaccountedClasses,
      if r.unaccountedTerms = [] then ""
      else "terms unaccounted: " ++ ", ".intercalate r.unaccountedTerms,
      if r.receiptReason = "" then ""
      else "receipt: " ++ (sentence r.receiptReason).getD r.receiptReason ]

/-- The reason's cell: the reason, and the detail in brackets. -/
def reasonCell (reason detail : String) : String :=
  " ".intercalate
    ([cell reason, if detail = "" then "" else "(" ++ cell detail ++ ")"].filter (· ≠ ""))

def tableLine (sentence : String → Option String) (r : FormRow) : String :=
  "| " ++ cell (r.unit.getD "") ++ " | " ++ cell (R.lower (Text.trim r.status)) ++ " | " ++
    reasonCell r.reason (ledgerDetail sentence r) ++ " | " ++ cell (r.qid.getD "—") ++ " |"

def ledgerHead : List String :=
  [ "## Coverage ledger",
    "",
    "Driver-rendered from the coverage form. The coverage unit, the query id and the hit count of every",
    "open crowd block, and every deferred slice with its receipt reason, are computed by the driver from",
    "the frozen register plan and the plan-execution receipt; the status and the reason are the digest's.",
    "",
    "| Coverage unit | Status | Reason | Query id |",
    "|---|---|---|---|" ]

/-- The section of the findings document; nothing where no row is settled. -/
def renderCoverageLedgerSection (sentence : String → Option String) (rows : List FormRow) : String :=
  if usableRows R rows = [] then ""
  else "\n".intercalate (ledgerHead ++ (usableRows R rows).map (tableLine R sentence))

/-- The text of a heading of the second to the fourth level. -/
def headingText (line : String) : Option String :=
  let hashes := line.toList.takeWhile (· = '#')
  let rest := line.toList.dropWhile (· = '#')
  if 2 ≤ hashes.length ∧ hashes.length ≤ 4 ∧ rest.head?.any Text.isSpace then
    some (String.ofList ((rest.dropWhile Text.isSpace).takeWhile fun c =>
      c ≠ '\r' ∧ c.toNat ≠ 0x2028 ∧ c.toNat ≠ 0x2029))
  else none

/-- Is the line a row of a table? -/
def isTableLine (line : String) : Bool := (line.toList.dropWhile Text.isSpace).head? = some '|'

/-- The cells of a row: every bar parts two, an escaped one too. -/
def lineCells (line : String) : List String :=
  let inner := (line.toList.dropWhile Text.isSpace).drop 1
  let cut := inner.rdropWhile Text.isSpace
  let body := if cut.getLast? = some '|' then cut.dropLast else inner
  (body.splitOn '|').map fun part => Text.trim (String.ofList part)

/-- `/withheld-by-judgment|coverage-limited|deferred|confirmed-clean/i`, the first match. -/
def statusIn : List Char → Option String
  | [] => none
  | c :: rest =>
    (["withheld-by-judgment", "coverage-limited", "deferred", "confirmed-clean"].find? fun word =>
      word.toList.isPrefixOf ((c :: rest).map Char.toLower)) <|> statusIn rest

/-- The heading of the table, or the line under it. -/
def isRuleCell (unit : String) : Bool :=
  unit.toList.map Char.toLower = "coverage unit".toList ||
    (unit ≠ "" && unit.toList.all fun c => c = '-' || c = ':' || Text.isSpace c)

/-- What a line of the table is read as. -/
inductive LineRead
  | skip
  /-- no row, and what it named where its axis is one of the register -/
  | dropped (line : String) (offEnum : Option (String × String × String))
  | row (r : LedgerRow)
  deriving DecidableEq, Repr

def LineRead.row? : LineRead → Option LedgerRow
  | row r => some r
  | _ => none

def LineRead.dropped? : LineRead → Option String
  | dropped line _ => some line
  | _ => none

def LineRead.offEnum? : LineRead → Option (String × String × String)
  | dropped _ offEnum => offEnum
  | _ => none

/-- The part of a unit before its first slash. -/
def unitHead (unit : String) : String := String.ofList (unit.toList.takeWhile (· ≠ '/'))

def readLine (line : String) : LineRead :=
  match lineCells line with
  | unit :: status :: rest =>
    if isRuleCell unit then .skip
    else
      let axis := normalizeAxis R (unitHead unit) unit
      match statusIn status.toList with
      | some word =>
        if axis = "" then .dropped (String.ofList ((Text.tidy line).toList.take 120)) none
        else .row { axis, status := word, unit, reason := rest.head?.getD "" }
      | none =>
        .dropped (String.ofList ((Text.tidy line).toList.take 120))
          (if axis ∈ registerAxisNames then some (axis, unit, status) else none)
  | _ => .skip

/-- The rows of the sections headed as a coverage ledger; `inLedger` such a section is open. -/
def readLines : Bool → List String → List LineRead
  | _, [] => []
  | inLedger, line :: rest =>
    match headingText line with
    | some heading => readLines (Text.includesFold heading "coverage ledger") rest
    | none =>
      if inLedger ∧ isTableLine line then readLine R line :: readLines inLedger rest
      else readLines inLedger rest

structure ParsedLedger where
  rows : List LedgerRow
  dropped : List String
  offEnum : List (String × String × String)
  deriving DecidableEq, Repr

def parseCoverageLedgerFull (md : String) : ParsedLedger :=
  let reads := readLines R false ((md.toList.splitOn '\n').map String.ofList)
  { rows := reads.filterMap LineRead.row?
    dropped := reads.filterMap LineRead.dropped?
    offEnum := reads.filterMap LineRead.offEnum? }

/-- The number a row of digits writes. -/
def decimalValue (token : List Char) : Nat :=
  token.foldl (fun n c => 10 * n + (c.toNat - '0'.toNat)) 0

/-- The Nice classes named in a text; `runs` the lists of numbers a class marker introduces. -/
def classTokensFromScopeText (runs : List String) : List String :=
  let numbers := runs.flatMap fun run => (run.toList.splitOnP (!·.isDigit)).map decimalValue
  ((numbers.filter fun n => 1 ≤ n ∧ n ≤ 45).map fun n => toString n).foldl pushNew []

/-- What stands behind the first slash. -/
def scopeOf (unit : String) : String :=
  Text.trim (String.ofList ((unit.toList.dropWhile (· ≠ '/')).drop 1))

/-- A row of the machine ledger. `classRuns` finds the lists of numbers in a text. -/
def ledgerJsonRow (classRuns : String → List String) (r : FormRow) : LedgerJsonRow :=
  let scope := scopeOf (r.unit.getD r.axis)
  let classes := classTokensFromScopeText (classRuns (scope ++ " " ++ r.reason))
  { axis := R.lower (Text.trim r.axis), scope
    status := R.lower (Text.trim r.status), reason := r.reason
    classes := if classes = [] then none else some classes
    totalHits := r.totalHits
    qid := r.qid.filter (· ≠ "") }

def renderCoverageLedgerJsonFromForm (classRuns : String → List String) (rows : List FormRow) :
    List LedgerJsonRow :=
  (usableRows R rows).map (ledgerJsonRow R classRuns)

/-- A value in an error's text. -/
def shortToken (s : String) : String := String.ofList ((Text.tidy s).toList.take 40)

/-- A class column entry: one or two digits, 1 to 45. -/
def isClassToken (c : String) : Bool :=
  c.toList.all Char.isDigit && c.toList ≠ [] && c.toList.length ≤ 2 &&
    decide (1 ≤ decimalValue c.toList) && decide (decimalValue c.toList ≤ 45)

def readJsonRow (r : LedgerJsonRow) : Except String ParsedJsonRow :=
  let axis := normalizeAxis R r.axis ""
  let status := R.lower (Text.trim r.status)
  let scope := Text.trim r.scope
  let classes := r.classes.map (·.map Text.trim)
  if axis ∉ registerAxisNames then
    .error ("coverage_axis_invalid:" ++ shortToken r.axis ++ " (not in: " ++
      ", ".intercalate registerAxisNames ++ ")")
  else if status ∉ coverageStatuses then
    .error ("coverage_status_invalid:" ++ shortToken r.status ++ " (EXACTLY one bare token of: " ++
      " / ".intercalate coverageStatuses ++ " — qualifiers move into reason)")
  else if (classes.getD []).any (!isClassToken ·) then
    .error ("coverage_classes_invalid:" ++ shortToken (",".intercalate (r.classes.getD [])) ++
      " (each entry is a Nice class number 1–45)")
  else
    .ok
      { axis, scope, status, reason := r.reason, classes
        qid := (r.qid.map Text.trim).filter (· ≠ "")
        unit := if scope = "" then axis else axis ++ " / " ++ scope }

/-- Every axis the run activated owns a row. -/
def checkActiveAxes (rows : List ParsedJsonRow) (activeAxes : List String) : Except String Unit :=
  match (activeAxes.map R.lower).find? fun axis => rows.all (·.axis ≠ axis) with
  | none => .ok ()
  | some axis => .error ("coverage_axis_missing:" ++ shortToken axis ++
      " (this run activated the axis — it must own at least one ledger row)")

def parseCoverageLedgerJson (activeAxes : List String) (parsed : List LedgerJsonRow) :
    Except String (List ParsedJsonRow) :=
  if parsed = [] then .error "coverage_ledger_empty: at least one row per active axis is required"
  else do
    let rows ← parsed.mapM (readJsonRow R)
    checkActiveAxes R rows activeAxes
    return rows

end

end Clearotron
