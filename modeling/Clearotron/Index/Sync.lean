import Clearotron.Index.Store
import Clearotron.Library.Reaches

/-!
# Syncs of the local index

A sync puts the records of bulk files into the table, one row at a time, records each file
it is through with, stamps the backfile, rebuilds the two token indexes, and stamps the
date of its newest file and then the time. Each database statement is one step, and a sync
may be killed before any of them. Dates are days and times milliseconds, from 1970 on.

`SyncHistory` is not in the code: it says what the syncs have done so far.
-/

namespace Clearotron

/-- A file of one of the two products, and the records it parses to. -/
structure BulkFile where
  name : String
  dataDate : Option Int
  records : List MarkRecord
  deriving DecidableEq, Repr

structure TableRow where
  rowid : Nat
  row : MarkRow
  deriving DecidableEq, Repr

/-- A sync under way. -/
structure SyncRun where
  backfileNames : List String
  ignoreIngested : Bool
  alreadyIngested : List String
  newest : Option Int
  /-- the files it has put rows of, as long as their date is not stamped -/
  put : List BulkFile := []
  deriving DecidableEq, Repr

inductive SyncAt
  | idle
  | files (r : SyncRun) (todo : List BulkFile)
  | rows (r : SyncRun) (f : BulkFile) (records : List MarkRecord) (todo : List BulkFile)
  | backfile (r : SyncRun)
  | text (r : SyncRun)
  | reversed (r : SyncRun)
  | date (r : SyncRun)
  | time (r : SyncRun)
  deriving DecidableEq, Repr

def SyncAt.run? : SyncAt → Option SyncRun
  | idle => none
  | files r _ | rows r _ _ _ | backfile r | text r | reversed r | date r | time r => some r

structure SyncHistory where
  /-- the rows put, and the file each came from, the last of them first -/
  puts : List (BulkFile × MarkRecord) := []
  /-- the files that were recorded as ingested -/
  filed : List BulkFile := []
  /-- the listing the backfile was stamped for -/
  listed : List String := []
  /-- the files put by syncs that went on to stamp a date -/
  dated : List BulkFile := []
  /-- the files put by syncs that were killed before -/
  lost : List BulkFile := []
  /-- a row was put since both token indexes were rebuilt -/
  pending : Bool := false
  /-- a sync that ignores the record has written it since the backfile was stamped -/
  rewritten : Bool := false
  /-- the syncs that came to their end -/
  completed : Nat := 0
  deriving DecidableEq, Repr

structure IndexState where
  hasTable : Bool := false
  mark : List TableRow := []
  markFts : List (Nat × String) := []
  markRfts : List (Nat × String) := []
  ingestedFiles : List String := []
  backfileThrough : Option Int := none
  newestDelta : Option Int := none
  syncedAt : Option Int := none
  sync : SyncAt := .idle
  history : SyncHistory := {}
  deriving DecidableEq, Repr

/-- `INSERT OR REPLACE`: the row of the serial goes, and the new one takes the next number. -/
def replaceRow (table : List TableRow) (row : MarkRow) : List TableRow :=
  table.filter (·.row.serial ≠ row.serial) ++
    [{ rowid := (table.map (·.rowid)).foldr max 0 + 1, row }]

/-- The later of the date so far and a file's. -/
def laterDate (newest dataDate : Option Int) : Option Int :=
  match newest, dataDate with
  | newest, none => newest
  | none, some d => some d
  | some n, some d => if n < d then some d else some n

namespace IndexState

variable (T : IndexText) (s : IndexState) (r : SyncRun)

/-- `createSchema`, the date of the index, and the record unless it is ignored. -/
def beginSync (files : List BulkFile) (backfileNames : List String) (ignoreIngested : Bool) :
    IndexState :=
  let run : SyncRun := {
    backfileNames, ignoreIngested
    alreadyIngested := if ignoreIngested then [] else s.ingestedFiles
    newest := s.newestDelta }
  { s with hasTable := true, sync := .files run files }

def putRow (f : BulkFile) (record : MarkRecord) (records : List MarkRecord)
    (todo : List BulkFile) : IndexState :=
  { s with
    mark := replaceRow s.mark (putRecord T record)
    sync := .rows { r with put := f :: r.put } f records todo
    history := { s.history with puts := (f, record) :: s.history.puts, pending := true } }

/-- The file counts: its date, and its name in the record. -/
def recordFile (f : BulkFile) (todo : List BulkFile) : IndexState :=
  let names := r.alreadyIngested ++ [f.name]
  { s with
    ingestedFiles := names
    sync := .files { r with alreadyIngested := names, newest := laterDate r.newest f.dataDate } todo
    history := { s.history with
      filed := f :: s.history.filed
      rewritten := s.history.rewritten || (r.ignoreIngested && s.backfileThrough.isSome) } }

/-- The stamp, once every file of the listing is in. -/
def stampBackfile (now : Int) : IndexState :=
  let wanted := r.backfileNames.filter (· ≠ "")
  if wanted ≠ [] ∧ ∀ n ∈ wanted, n ∈ r.alreadyIngested then
    { s with
      backfileThrough := some now
      sync := .text r
      history := { s.history with listed := wanted, rewritten := false } }
  else { s with sync := .text r }

def rebuildText : IndexState :=
  { s with
    markFts := s.mark.map fun row => (row.rowid, row.row.text)
    sync := .reversed r }

def rebuildReversed : IndexState :=
  { s with
    markRfts := s.mark.map fun row => (row.rowid, row.row.rtext)
    sync := .date r
    history := { s.history with pending := false } }

def stampDate : IndexState :=
  { s with
    newestDelta := if r.newest.isSome then r.newest else s.newestDelta
    sync := .time { r with put := [] }
    history := { s.history with dated := r.put ++ s.history.dated } }

def stampTime (now : Int) : IndexState :=
  { s with
    syncedAt := some now
    sync := .idle
    history := { s.history with completed := s.history.completed + 1 } }

/-- The sync ends where it is. -/
def killSync : IndexState :=
  { s with
    sync := .idle
    history := { s.history with lost := r.put ++ s.history.lost } }

/-- The next statement of the sync. -/
def advance (now : Int) : IndexState :=
  match s.sync with
  | .idle => s
  | .files r [] => { s with sync := .backfile r }
  | .files r (f :: todo) =>
    if f.name ∈ r.alreadyIngested then { s with sync := .files r todo }
    else { s with sync := .rows r f f.records todo }
  | .rows r f (record :: records) todo => s.putRow T r f record records todo
  | .rows r f [] todo =>
    if f.records = [] then { s with sync := .files r todo } else s.recordFile r f todo
  | .backfile r => s.stampBackfile r now
  | .text r => s.rebuildText r
  | .reversed r => s.rebuildReversed r
  | .date r => s.stampDate r
  | .time _ => s.stampTime now

end IndexState

inductive SyncAct
  | start (files : List BulkFile) (backfileNames : List String) (ignoreIngested : Bool)
  | next (now : Int)
  | kill
  deriving Repr

/-- What an act makes of the index; a sync starts when none is under way. -/
def IndexState.act (T : IndexText) (s : IndexState) (a : SyncAct) : Option IndexState :=
  match a, s.sync.run? with
  | .start files backfileNames ignoreIngested, none =>
    some (s.beginSync files backfileNames ignoreIngested)
  | .next now, some _ => some (s.advance T now)
  | .kill, some r => some (s.killSync r)
  | _, _ => none

def IndexState.actAll (T : IndexText) (s : IndexState) : List SyncAct → Option IndexState
  | [] => some s
  | a :: acts => (s.act T a).bind fun s' => s'.actAll T acts

def SyncStep (T : IndexText) (s s' : IndexState) : Prop := ∃ a, s.act T a = some s'

/-- The states an index is in, whatever syncs were run over it. -/
abbrev SyncReaches (T : IndexText) : IndexState → Prop := Reaches (· = {}) (SyncStep T)

/-- The first word of more than one letter. -/
def probeToken (text : String) : Option String :=
  ((text.toList.splitOnP Text.isSpace).map String.ofList).find? fun t =>
    1 < (Text.utf16 t).length

namespace IndexState

variable (T : IndexText) (s : IndexState)

/-- A token index finds a term in some row. -/
def present (index : List (Nat × String)) (term : String) : Bool :=
  index.any fun e => narrows T [term] e.2

/-- Are the token indexes built? They are asked for a word of one of the rows. -/
def assertFtsBuilt : Bool :=
  match s.mark.find? fun row => 1 < row.row.text.length with
  | none => true
  | some sample =>
    match probeToken sample.row.text with
    | none => true
    | some token => present T s.markFts token && present T s.markRfts (reverseText token)

def assertIndexReady : Bool :=
  s.hasTable && !s.mark.isEmpty && s.assertFtsBuilt T

/-- Why a count is refused, with the age in milliseconds where that is why. -/
inductive CurrencyGap
  | noSourceFile
  | noSync
  | syncLag (age : Int)
  | dataLag (age : Int)
  deriving DecidableEq, Repr

structure Freshness where
  newestDelta : Option Int
  stale : Option Bool
  reason : Option CurrencyGap
  deriving DecidableEq, Repr

def hour : Int := 3600000

def syncLagHours : Int := 24

def dataLagHours : Int := 96

/-- The time a date stands for: its midnight. -/
def dayTime (day : Int) : Int := day * 24 * hour

def freshness (now : Int) : Freshness :=
  match s.newestDelta, s.syncedAt with
  | none, _ => { newestDelta := none, stale := none, reason := some .noSourceFile }
  | some day, none => { newestDelta := some day, stale := none, reason := some .noSync }
  | some day, some synced =>
    if syncLagHours * hour < now - synced then
      { newestDelta := some day, stale := some true, reason := some (.syncLag (now - synced)) }
    else if dataLagHours * hour < now - dayTime day then
      { newestDelta := some day, stale := some true, reason := some (.dataLag (now - dayTime day)) }
    else { newestDelta := some day, stale := some false, reason := none }

/-- The rows a token index gives for the terms. -/
def narrowsTo (index : List (Nat × String)) (terms : List String) (row : TableRow) : Bool :=
  index.any fun e => e.1 = row.rowid && narrows T terms e.2

/-- The clause of a predicate; the narrowing ones read the token indexes as they stand. -/
def clause (predicate : IndexPredicate) (terms : List String) :
    Except String (TableRow → Bool) :=
  if terms = [] then .error "[uspto-local] a search predicate needs a non-empty term"
  else match predicate with
  | .wildcardPrefix => .ok fun row =>
      narrowsTo T s.markFts terms row &&
        terms.any fun t => like (some '\\') (escapeLike t ++ ['%']) row.row.text
  | .wildcardSuffix => .ok fun row =>
      narrowsTo T s.markRfts (terms.map reverseText) row &&
        terms.any fun t => like (some '\\') ('%' :: escapeLike t) row.row.text
  | _ => (predicateClause T predicate terms).map fun holds row => holds row.row

def indexCount (q : IndexQuery) : Except String Nat :=
  (s.clause T q.predicate (q.terms T)).map fun holds =>
    s.mark.countP fun row => holds row && filterClauses T q row.row

inductive CountRefusal
  | freshness (reason : Option CurrencyGap)
  | backfile
  | failed (message : String)
  deriving DecidableEq, Repr

def doCount (now : Int) (q : IndexQuery) : Except CountRefusal Nat :=
  let f := s.freshness now
  if f.stale = some true ∨ f.newestDelta = none then .error (.freshness f.reason)
  else if s.backfileThrough = none then .error .backfile
  else match s.indexCount T q with
    | .ok total => .ok total
    | .error message => .error (.failed ("uspto-local count: " ++ message))

end IndexState

end Clearotron
