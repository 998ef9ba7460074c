import Mathlib.Data.List.Sort
import Clearotron.Declinations.Ledger

/-!
# A call that declines records

A call names rows of the list it was handed by their position, each with a reason and a ground.
Each row is accepted or refused by itself. Accepted rows go into the ledger; the verdict goes
into a journal, and a record refused often enough is parked, so that a pass can finish.
-/

namespace Clearotron

namespace Declinations

variable {Facts Scope : Type}

/-- A row a pass was handed. `facts` are the classes, status, goods and members a ground is
tested against. -/
structure Row (Facts : Type) where
  kind : Option String := none
  page : Option String := none
  url : Option String := none
  uri : Option String := none
  mark : Option String := none
  owner : Option String := none
  facts : Facts

def Row.isPageRow (row : Row Facts) : Bool := row.kind = some "page" && row.page.any (· ≠ "")

/-- The key a row is decided and parked under. -/
def rowKey (row : Row Facts) : Option String :=
  if row.isPageRow then some (pageKeyPrefix ++ row.page.getD "") else row.uri

/-- `declinationKey`, none where the key reads as nothing. -/
def declinationKey (k : Option String) : Option String :=
  let s := Text.trim (k.getD "")
  if pageKeyPrefix.toList <+: s.toList then some s else normalizeRecordUri s

/-- A declination as sent; an index that is no integer is none. -/
structure Sent where
  rowIndex : Option ℤ
  reason : String
  grounds : String

structure Refused where
  rowIndex : Option ℤ
  uri : Option String
  why : String
  deriving DecidableEq

/-- A row still owed a decision. -/
structure OpenRow where
  rowIndex : ℕ
  uri : Option String
  page : Option String
  url : Option String
  mark : Option String
  owner : Option String
  deriving DecidableEq

def OpenRow.key (r : OpenRow) : Option String :=
  declinationKey (match r.page.filter (· ≠ "") with
    | some page => some (pageKeyPrefix ++ page)
    | none => r.uri)

def maxDeclinationsPerCall : ℕ := 40

def declinationReasonTokens : List String :=
  ["unrelated-goods", "off-field-not-major", "sign", "not-worth-the-line",
    "duplicate-of-delivered", "own-right"]

/-- The names every object answers to: the vocabulary is looked up as a property. -/
def inheritedNames : List String :=
  ["constructor", "hasOwnProperty", "isPrototypeOf", "propertyIsEnumerable", "toLocaleString",
    "toString", "valueOf", "__proto__", "__defineGetter__", "__defineSetter__",
    "__lookupGetter__", "__lookupSetter__"]

def isDeclinationReason (reason : String) : Bool :=
  reason ∈ declinationReasonTokens || reason ∈ inheritedNames

def overLimit : String :=
  "over the " ++ toString maxDeclinationsPerCall ++ "-row limit for one call — this row was " ++
    "not read. Send it in a further call; every row accepted here is kept."

def notAPosition (offered : ℕ) : String :=
  "row_index must be a position in the " ++ toString offered ++
    " record(s) this pass was handed (0.." ++ toString (offered - 1) ++
    "). A record you were not given is one you cannot speak about."

def alreadyDeclined : String :=
  "this row already carries a declination in this call — one decision per record."

def notAReason (reason : String) : String :=
  "\"" ++ (if reason = "" then "(none)" else reason) ++
    "\" is not a declination reason. The vocabulary is " ++
    String.intercalate " | " declinationReasonTokens ++ " — each one an omission " ++
    "synthesis-rules.md already authorises. If your ground is none of these, the record is " ++
    "not one the rules let you omit."

/-- The list a pass was handed, with the tests a ground must pass; an empty text finds nothing
wrong. -/
structure Spec (Facts Scope : Type) where
  rows : List (Row Facts)
  scope : Scope
  groundsProblem : String → String → String
  contradictionFor : String → Row Facts → Scope → String

/-- The row at a position. -/
def rowAt (rows : List (Row Facts)) (index : Option ℤ) : Option (ℕ × Row Facts) :=
  match index with
  | some (.ofNat i) => rows[i]?.map fun row => (i, row)
  | _ => none

def acceptedRow (i : ℕ) (row : Row Facts) (reason grounds : String) : Accepted where
  rowIndex := i
  uri := row.uri
  page := if row.isPageRow then row.page else none
  url := if row.isPageRow then row.url else none
  mark := row.mark
  owner := row.owner
  reason := reason
  grounds := grounds

section

variable (spec : Spec Facts Scope)

/-- One row of a call: accepted, or refused for a stated reason. -/
def judge (claimed : List ℕ) (d : Sent) : Except String Accepted :=
  match rowAt spec.rows d.rowIndex with
  | none => .error (notAPosition spec.rows.length)
  | some (i, row) =>
    if i ∈ claimed then .error alreadyDeclined
    else
      let reason := Text.trim d.reason
      if !isDeclinationReason reason then .error (notAReason reason)
      else
        let grounds := Text.trim d.grounds
        let fault := spec.groundsProblem grounds reason
        if fault ≠ "" then .error fault
        else
          let clash := spec.contradictionFor reason row spec.scope
          if clash ≠ "" then .error clash
          else .ok (acceptedRow i row reason grounds)

/-- A refusal names the row at its position, where one stands there. -/
def refusalOf (d : Sent) (why : String) : Refused :=
  ⟨d.rowIndex, (rowAt spec.rows d.rowIndex).bind fun at_ => rowKey at_.2, why⟩

structure Decided where
  accepted : List Accepted := []
  refused : List Refused := []

def Decided.take (decided : Decided) (d : Sent) : Decided :=
  match judge spec (decided.accepted.map Accepted.rowIndex) d with
  | .ok a => { decided with accepted := decided.accepted ++ [a] }
  | .error why => { decided with refused := decided.refused ++ [refusalOf spec d why] }

/-- `acceptDeclinationCall`, without what it leaves open. -/
def acceptDeclinationCall (sent : List Sent) : Decided :=
  (sent.take maxDeclinationsPerCall).foldl (Decided.take spec)
    { refused := (sent.drop maxDeclinationsPerCall).map fun d => refusalOf spec d overLimit }

/-- The rows the call left without a decision. -/
def openRows (decided : Decided) : List OpenRow :=
  spec.rows.zipIdx.filterMap fun (row, i) =>
    if i ∈ decided.accepted.map Accepted.rowIndex then none
    else some ⟨i, row.uri, if row.isPageRow then row.page else none,
      if row.isPageRow then row.url else none, row.mark, row.owner⟩

end

/-- A refusal as journalled. -/
structure RefusalLine where
  uri : String
  rowIndex : Option ℤ
  why : String
  deriving DecidableEq

/-- An accepted row as journalled. -/
structure AcceptedLine where
  uri : String
  rowIndex : ℕ
  reason : String
  deriving DecidableEq

structure Verdict where
  accepted : List AcceptedLine
  refused : List RefusalLine
  deriving DecidableEq

/-- What an append that was cut left behind the last line break. -/
inductive Tail
  | ended
  /-- a piece of a line, which does not read -/
  | piece
  /-- a whole line without its break -/
  | line (v : Verdict)
  deriving DecidableEq

/-- `verdicts.jsonl`: the lines that read, and what stands after the last line break. -/
structure Journal where
  lines : List Verdict := []
  tail : Tail := .ended
  deriving DecidableEq

namespace Journal

/-- `readDeclinationVerdicts`: a line that does not read is passed over. -/
def read (j : Journal) : List Verdict :=
  match j.tail with
  | .line v => j.lines ++ [v]
  | _ => j.lines

/-- An append; behind a line without its break it reads as one bad line with it. -/
def append (j : Journal) (v : Verdict) : Journal :=
  match j.tail with
  | .ended => { lines := j.lines ++ [v] }
  | _ => { lines := j.lines }

/-- An append cut before its line break, or before its end. -/
def cut (j : Journal) (v : Verdict) (whole : Bool) : Journal :=
  match j.tail with
  | .ended => { j with tail := if whole then .line v else .piece }
  | _ => { j with tail := .piece }

end Journal

def keyText (k : Option String) : String := (declinationKey k).getD ""

def Accepted.keySource (a : Accepted) : Option String :=
  match a.page.filter (· ≠ "") with
  | some page => some (pageKeyPrefix ++ page)
  | none => a.uri

def verdictOf (decided : Decided) : Verdict where
  accepted := decided.accepted.map fun a =>
    ⟨keyText a.keySource, a.rowIndex, Text.trim a.reason⟩
  refused := decided.refused.map fun r => ⟨keyText r.uri, r.rowIndex, Text.slice 400 r.why⟩

def parkAfterRefusals : ℕ := 30

/-- The keys refused, one for each refusal that names a record. -/
def refusedIds (verdicts : List Verdict) : List String :=
  verdicts.flatMap fun v => (v.refused.map fun r => Text.trim r.uri).filter (· ≠ "")

def refusalCountsBy (verdicts : List Verdict) : Keyed String ℕ :=
  (refusedIds verdicts).foldl (fun n k => n.set k ((n.get k).getD 0 + 1)) .empty

def parkedIds (verdicts : List Verdict) : List String :=
  (((refusalCountsBy verdicts).entries.filter fun kc => parkAfterRefusals ≤ kc.2).map
    Prod.fst).insertionSort (· ≤ ·)

structure Files where
  ledger : Held (List Entry) := .absent
  journal : Journal := {}
  deriving DecidableEq

/-- What becomes of the ledger's write. -/
inductive LedgerWrite
  | lands
  /-- it fails, or the run is killed, with the file as it was -/
  | fails
  | tears
  deriving DecidableEq

/-- What becomes of the journal's append. -/
inductive JournalWrite
  | lands
  | fails
  | cut (whole : Bool)
  deriving DecidableEq

/-- What the tool answers, of what a decision rests on. -/
structure Answer where
  accepted : ℕ
  refused : List Refused
  stillOpen : List OpenRow
  parked : List String
  parkedRefusals : List (String × ℕ)
  offered : ℕ
  recordedTotal : ℕ
  storageFailed : Bool
  verdictJournalFailed : Bool

section

variable (cited : String → List ℕ) (now : String) (spec : Spec Facts Scope) (sent : List Sent)
  (files : Files) (ledgerWrite : LedgerWrite) (journalWrite : JournalWrite)

/-- The refusals counted for the answer: those journalled, and this call's. -/
def allVerdicts : List Verdict :=
  files.journal.read ++ [verdictOf (acceptDeclinationCall spec sent)]

def ledgerAfter : Held (List Entry) :=
  let decided := acceptDeclinationCall spec sent
  if decided.accepted = [] then files.ledger
  else match ledgerWrite with
    | .lands => .holds (appendDeclinations cited now files.ledger decided.accepted)
    | .fails => files.ledger
    | .tears => .torn

def journalAfter : Journal :=
  let v := verdictOf (acceptDeclinationCall spec sent)
  match journalWrite with
  | .lands => files.journal.append v
  | .fails => files.journal
  | .cut whole => files.journal.cut v whole

/-- `recordDeclinations`, by what becomes of its two writes. -/
def recordDeclinations : Answer × Files :=
  let decided := acceptDeclinationCall spec sent
  let ledger := ledgerAfter cited now spec sent files ledgerWrite
  let stored := decided.accepted = [] || ledgerWrite = .lands
  let verdicts := allVerdicts spec sent files
  let parked := parkedIds verdicts
  let counts := refusalCountsBy verdicts
  ({ accepted := decided.accepted.length
     refused := decided.refused
     stillOpen := (openRows spec decided).filter fun r => r.key.getD "" ∉ parked
     parked := parked
     parkedRefusals := parked.map fun k => (k, (counts.get k).getD 0)
     offered := spec.rows.length
     recordedTotal := if stored then (readDeclinations ledger).count else 0
     storageFailed := !stored
     verdictJournalFailed := journalWrite ≠ .lands },
    ⟨ledger, journalAfter spec sent files journalWrite⟩)

end

end Declinations

end Clearotron
