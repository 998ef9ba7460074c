import Mathlib.Data.List.Sort
import Clearotron.Library.Keyed
import Clearotron.Library.Latest
import Clearotron.Library.Reaches
import Clearotron.Records.LedgerLines

/-!
# The run's records

A run keeps the body of every record it fetched: in the record log, one row a fetch, and in
its folder, one file a record, named after the record's URI. A pass reads the folder, lays
the log over it, and writes all of it back.
-/

namespace Clearotron

inductive JsonValue
  | null
  | bool (b : Bool)
  | num (spelling : String)
  | str (s : String)
  | arr (items : List JsonValue)
  | obj (fields : List (String × JsonValue))

namespace JsonValue

/-- `typeof v === "object"`, null apart. -/
def isObject : JsonValue → Bool
  | arr _ | obj _ => true
  | _ => false

/-- The entries of `{ ...v }`. -/
def spread : JsonValue → List (String × JsonValue)
  | obj fields => fields
  | arr items => items.zipIdx.map fun (v, i) => (toString i, v)
  | _ => []

/-- Does something in it hold a value? Below the depth it is not looked at. -/
def holdsValue : Nat → JsonValue → Bool
  | _, null => false
  | _, str s => Text.trim s ≠ ""
  | 0, _ => true
  | depth + 1, arr items => items.any (holdsValue depth)
  | depth + 1, obj fields => fields.any fun f => holdsValue depth f.2
  | _ + 1, _ => true

end JsonValue

/-- `RECORD_IDENTITY_KEYS`. -/
def recordIdentityKeys : List String :=
  ["uri", "record_id", "id", "guid", "serial", "serialNumber", "object", "provider", "office",
   "statusClass", "status_class", "applicationNumber", "registrationNumber", "resolved_link",
   "officeUrl"]

/-- A field of the record's own. -/
def ownField (key : String) : Bool := key.toList.head? ≠ some '_' && key ∉ recordIdentityKeys

/-- Does the body carry the record's own content? -/
def recordBodyHasContent (body : JsonValue) : Bool :=
  let b := match body with
    | .arr items => items.head?
    | v => some v
  match b with
  | some (.obj fields) => fields.any fun f => ownField f.1 && f.2.holdsValue 9
  | _ => false

abbrev RecordMap := Keyed String JsonValue

/-- A later copy wins, unless it is a placeholder and the record already holds one with content. -/
def keepRecord (map : RecordMap) (uri : String) (body : JsonValue) : RecordMap :=
  if recordBodyHasContent body || !(map.get uri).any recordBodyHasContent then map.set uri body
  else map

/-- A row of the record log, of what is read of it. -/
structure RecordRow where
  sessionKey : String := ""
  sessionId : String := ""
  target : String := ""
  ts : String := ""
  body : Option JsonValue

/-- The key without the gateway's `agent:<id>:`. -/
def stripGatewayNs (s : String) : String :=
  if "agent:".toList.isPrefixOf s.toList then
    let rest := s.toList.drop 6
    let id := rest.takeWhile (· ≠ ':')
    if id ≠ [] ∧ rest.length ≠ id.length then String.ofList (rest.drop (id.length + 1)) else s
  else s

/-- `runPrefixSpellings`, of a prefix that is given. -/
def runPrefixSpellings (p : String) : List String :=
  if "clearance-".toList.isPrefixOf p.toList then
    [p, "prelim-" ++ String.ofList (p.toList.drop 10)]
  else if "prelim-".toList.isPrefixOf p.toList then
    [p, "clearance-" ++ String.ofList (p.toList.drop 7)]
  else [p]

def rowMatchesRun (row : RecordRow) (runPrefix : String) : Bool :=
  (runPrefixSpellings runPrefix).any fun rp =>
    rp.toList.isPrefixOf (stripGatewayNs row.sessionKey).toList ||
      rp.toList.isPrefixOf (stripGatewayNs row.sessionId).toList

/-- What a walk finds of a ledger: none, one that does not open, the reads of it up to its end, or
those up to one that fails. -/
inductive LedgerFile
  | missing
  | unopened (code : String)
  | opened (reads : List (List UInt8))
  | broken (reads : List (List UInt8)) (code : String)

namespace LedgerFile

open LedgerLines

/-- The lines that are handed on before a read fails: not what stands behind the last newline. -/
def linesBefore (limit : Nat) : List Char → List (List UInt8) → List (List Char)
  | _, [] => []
  | carry, read :: reads =>
    let text := carry ++ Utf8.decode read
    if limit < units text then []
    else (text.splitOn '\n').dropLast.filter nonBlank ++ linesBefore limit (lineTail text) reads

/-- `forEachLedgerLine` over a callback that does not throw. -/
def walked (limit : Nat) : LedgerFile → Walked
  | missing => ⟨[], 0, none⟩
  | unopened code => ⟨[], 0, some code⟩
  | opened reads => forEachLedgerLine limit reads
  | broken reads code =>
    ⟨linesBefore limit [] reads, 0, some ((forEachLedgerLine limit reads).error.getD code)⟩

/-- Is this a walk over a ledger of that text? -/
def Of (text : List Char) : LedgerFile → Prop
  | missing => text = []
  | unopened _ => True
  | opened reads => ∃ r : LedgerReads, r.reads = reads ∧ r.text = text
  | broken reads _ => reads.flatten <+: Utf8.encode text

/-- A ledger that is read to its end, each read of whole characters that fit. -/
def ReadWhole (limit : Nat) : LedgerFile → Prop
  | missing => True
  | unopened _ | broken .. => False
  | opened reads => (∀ read ∈ reads, Utf8.Whole read) ∧ Fits limit reads

theorem walked_of_whole {limit : Nat} {text : List Char} {file : LedgerFile} (isOf : file.Of text)
    (whole : file.ReadWhole limit) :
    (file.walked limit).handed = ledgerLines text ∧ (file.walked limit).error = none := by
  cases file with
  | missing =>
    obtain rfl : text = [] := isOf
    exact ⟨rfl, rfl⟩
  | unopened code => exact whole.elim
  | broken reads code => exact whole.elim
  | opened reads =>
    obtain ⟨r, rfl, rfl⟩ := isOf
    have seen : SeesLines limit r := seesLines_of_whole whole.1 whole.2
    have same : (opened r.reads).walked limit = _ := seen
    rw [same]
    exact ⟨rfl, rfl⟩

end LedgerFile

/-- The platform's longest string, and `JSON.parse` of a line to what is read of a row of it:
nothing where it throws, and no row where it gives `null`. -/
structure LogReader where
  limit : Nat
  parse : List Char → Option (Option RecordRow)

namespace LogReader

variable (L : LogReader)

/-- Does the callback throw at a line? There is no `sessionKey` to read of `null`. -/
def throwsAt (runPrefix : String) (line : List Char) : Bool :=
  runPrefix ≠ "" && (L.parse line).any Option.isNone

/-- The rows of a walk over the log, up to the line that ends it. -/
def rowsWalked (runPrefix : String) (file : LedgerFile) : List RecordRow :=
  ((file.walked L.limit).handed.takeWhile fun line => !L.throwsAt runPrefix line).filterMap
    fun line => (L.parse line).join

/-- What the walk reports. -/
def ledgerError (runPrefix : String) (file : LedgerFile) : Option String :=
  if (file.walked L.limit).handed.any (L.throwsAt runPrefix) then
    some "Cannot read properties of null (reading 'sessionKey')"
  else (file.walked L.limit).error

/-- The rows of a log. -/
def rows (text : List Char) : List RecordRow :=
  (LedgerLines.ledgerLines text).filterMap fun line => (L.parse line).join

/-- A walk over the log that sees all of it: it is read whole, and no line of it throws. -/
structure Sees (runPrefix : String) (text : List Char) (file : LedgerFile) : Prop where
  isOf : file.Of text
  whole : file.ReadWhole L.limit
  quiet : ∀ line ∈ LedgerLines.ledgerLines text, L.throwsAt runPrefix line = false

variable {L}

theorem rows_append {text : List Char} (ended : LedgerLines.lineTail text = [])
    (more : List Char) : L.rows (text ++ more) = L.rows text ++ L.rows more := by
  unfold rows
  rw [LedgerLines.ledgerLines_append ended, List.filterMap_append]

theorem Sees.rows_eq {runPrefix : String} {text : List Char} {file : LedgerFile}
    (sees : L.Sees runPrefix text file) : L.rowsWalked runPrefix file = L.rows text := by
  unfold rowsWalked rows
  rw [(LedgerFile.walked_of_whole sees.isOf sees.whole).1, List.takeWhile_eq_self_iff.mpr]
  exact fun line mem => by rw [sees.quiet line mem]; rfl

theorem Sees.ledgerError_eq {runPrefix : String} {text : List Char} {file : LedgerFile}
    (sees : L.Sees runPrefix text file) : L.ledgerError runPrefix file = none := by
  have handed := LedgerFile.walked_of_whole sees.isOf sees.whole
  unfold ledgerError
  rw [handed.1, handed.2, if_neg]
  rw [Bool.not_eq_true, List.any_eq_false]
  exact fun line mem => by rw [sees.quiet line mem]; exact Bool.false_ne_true

end LogReader

/-- What the runtime knows of letter case. -/
structure LetterCase where
  lower : String → String
  lower_lower : ∀ s, lower (lower s) = lower s
  lower_ne_empty : ∀ s, s ≠ "" → lower s ≠ ""

section

variable (R : LetterCase)

/-- The rows of the run. -/
def runRows (runPrefix : String) (log : List RecordRow) : List RecordRow :=
  log.filter fun row => runPrefix ≠ "" && rowMatchesRun row runPrefix

/-- A body that came in a list is the first of it. -/
def rowBody (row : RecordRow) : Option JsonValue :=
  match row.body with
  | some (.arr items) => items.head?
  | body => body

/-- The URI a row is of. -/
def rowUri (row : RecordRow) : String := R.lower row.target

/-- The bodies of rows, one after another. -/
def foldBodies (runPrefix : String) (rows : List RecordRow) : RecordMap :=
  (runRows runPrefix rows).foldl (fun map row =>
    match rowBody row with
    | some body =>
      if row.target ≠ "" ∧ body.isObject then keepRecord map (rowUri R row) body else map
    | none => map) .empty

def rowReceipt (row : RecordRow) : JsonValue :=
  let context := stripGatewayNs row.sessionKey
  .obj [("fetched_at", .str row.ts), ("context", if context = "" then .null else .str context)]

/-- The receipts so far, and the records whose receipt is of a body that carries the record. -/
structure ReceiptFold where
  map : RecordMap := .empty
  real : List String := []

/-- The receipts of rows, one after another. -/
def foldReceipts (runPrefix : String) (rows : List RecordRow) : ReceiptFold :=
  (runRows runPrefix rows).foldl (fun s row =>
    if row.target = "" ∨ row.ts = "" then s
    else
      let key := rowUri R row
      let full := row.body.any recordBodyHasContent
      if !full && key ∈ s.real then s
      else { map := s.map.set key (rowReceipt row), real := if full then key :: s.real else s.real })
    {}

variable (L : LogReader)

def collectRecordBodies (runPrefix : String) (file : LedgerFile) : RecordMap :=
  foldBodies R runPrefix (L.rowsWalked runPrefix file)

def collectRecordReceipts (runPrefix : String) (file : LedgerFile) : RecordMap :=
  (foldReceipts R runPrefix (L.rowsWalked runPrefix file)).map

/-- The files of `_records`, and what each of them parses to. -/
abbrev RecordFolder := Keyed String (Option JsonValue)

/-- Runs of what is no letter or digit become one hyphen. -/
def squash : Bool → List Char → List Char
  | _, [] => []
  | open', c :: rest =>
    if c.isAlphanum then c :: squash false rest
    else if open' then squash true rest
    else '-' :: squash true rest

def artifactName (uri : String) : String :=
  let path := if "/mark/".toList.isPrefixOf uri.toList then uri.toList.drop 6 else uri.toList
  String.ofList (squash false path ++ ".json".toList)

/-- The URI of a file: its own, or in an old file what its name says. -/
def artifactUri (name : String) (fields : List (String × JsonValue)) : String :=
  let derived := R.lower (String.ofList ("/mark/".toList ++ name.toList.take 2 ++ "/".toList ++
    (name.toList.drop 3).take (name.toList.length - 8)))
  match fields.lookup "_uri" with
  | some (.str uri) => if uri = "" then derived else R.lower uri
  | _ => derived

/-- The record a file holds. -/
def readArtifact (folder : RecordFolder) (name : String) : Option (String × JsonValue) :=
  match folder.get name with
  | some (some (.obj fields)) => some (artifactUri R name fields, .obj fields)
  | _ => none

/-- The names of the files, sorted. -/
def artifactNames (folder : RecordFolder) : List String :=
  (folder.keys.filter fun name => ".json".toList.isSuffixOf name.toList).insertionSort fun a b =>
    Text.utf16 a ≤ Text.utf16 b

def readRecordArtifacts (folder : RecordFolder) : RecordMap :=
  (artifactNames folder).foldl (fun map name =>
    match readArtifact R folder name with
    | some (uri, body) => map.set uri body
    | none => map) .empty

/-- `{ ...body, _uri, _receipt }`. -/
def artifactOf (uri : String) (body : JsonValue) (receipt : Option JsonValue) : JsonValue :=
  let fields := Keyed.write body.spread "_uri" (.str uri)
  .obj (match receipt with
    | some receipt => Keyed.write fields "_receipt" receipt
    | none => fields)

def writeRecordArtifacts (folder : RecordFolder) (records receipts : RecordMap) : RecordFolder :=
  records.entries.foldl (fun folder e =>
    folder.set (artifactName e.1) (some (artifactOf e.1 e.2 (receipts.get e.1)))) folder

/-- The receipt that a body carries. -/
def receiptIn : JsonValue → Option JsonValue
  | .obj fields => (fields.lookup "_receipt").filter JsonValue.isObject
  | _ => none

structure AssembledRecords where
  records : RecordMap
  receipts : RecordMap
  folder : RecordFolder
  ledgerError : Option String := none

/-- The folder, what the log holds over it, and all of it written back. -/
def assembleLegs (folder : RecordFolder) (bodies logReceipts : RecordMap) : AssembledRecords :=
  let fromRunDir := readRecordArtifacts R folder
  let records := bodies.entries.foldl (fun map e => keepRecord map e.1 e.2) fromRunDir
  let embedded := fromRunDir.entries.foldl (fun map e =>
    match receiptIn e.2 with
    | some receipt => map.set e.1 receipt
    | none => map) .empty
  let receipts := logReceipts.entries.foldl (fun map e => map.set e.1 e.2) embedded
  { records, receipts, folder := writeRecordArtifacts folder records receipts }

/-- A pass over rows. -/
def assembleRows (runPrefix : String) (folder : RecordFolder) (rows : List RecordRow) :
    AssembledRecords :=
  assembleLegs R folder (foldBodies R runPrefix rows) (foldReceipts R runPrefix rows).map

/-- A pass: the log is walked for its bodies and for its receipts. -/
def assembleRunRecords (runPrefix : String) (folder : RecordFolder) (file : LedgerFile) :
    AssembledRecords :=
  { assembleLegs R folder (collectRecordBodies R L runPrefix file)
      (collectRecordReceipts R L runPrefix file) with
    ledgerError := L.ledgerError runPrefix file }

/-- A pass over a log that it sees comes to one over the rows. -/
theorem assembleRunRecords_of_sees {runPrefix : String} {folder : RecordFolder}
    {text : List Char} {file : LedgerFile} (sees : L.Sees runPrefix text file) :
    assembleRunRecords R L runPrefix folder file =
      assembleRows R runPrefix folder (L.rows text) := by
  unfold assembleRunRecords collectRecordBodies collectRecordReceipts
  rw [sees.rows_eq, sees.ledgerError_eq]
  rfl

end

end Clearotron
