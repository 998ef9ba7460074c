import Clearotron.Declinations.Keys
import Clearotron.Library.JsonLine
import Clearotron.Library.Utf8

/-!
# The ledger of discards

Each pass of a seam writes one row for every record it saw: that it carried the record on, or why
it did not. The rows are appended to one file, which is read line by line, and of the rows of a
record at a seam the last one stands.
-/

namespace Clearotron.Discards

open JsonLine (Fields Scalar get?)

/-- `DISCARD_SEAMS`, in the order of the pipeline. -/
inductive Seam where
  | placement
  | digest
  | synthesis
  deriving DecidableEq

def Seam.name : Seam → String
  | placement => "placement"
  | digest => "digest"
  | synthesis => "synthesis"

def discardSeams : List Seam := [.placement, .digest, .synthesis]

/-- What a pass did with a record; a discard says why. -/
inductive Verdict where
  | carried
  | discarded (reason reasonSource detail : String)
  deriving DecidableEq

def Verdict.name : Verdict → String
  | carried => "carried"
  | discarded _ _ _ => "discarded"

/-- A row of the ledger. -/
structure Row where
  seam : Seam
  stage : String
  trigger : Option String
  pass : Nat
  uri : String
  normal : normalizeRecordUri uri = some uri
  verdict : Verdict
  deriving DecidableEq

/-- The ground of a record, as far as a stage states one. -/
structure Ground where
  reason : Option String := none
  reasonSource : Option String := none
  detail : Option String := none

/-- How a pass ended: a stage whose answer is on disk is skipped. -/
inductive Outcome where
  | completed
  | incomplete
  | skipped
  deriving DecidableEq

structure Pass where
  seam : Seam
  stage : String
  trigger : Option String
  pass : Nat
  outcome : Outcome
  saw : List String
  carried : List String
  reasonFor : String → String → Option Ground
  evidence : String
  /-- when its rows are written -/
  ts : String

/-- What the ledger says of a record at a seam. -/
abbrev ByUri := String → Seam → Option Fields

def clip (s : String) : String :=
  let t := Text.tidy s
  if 300 < t.length then Text.slice 299 t ++ "…" else t

namespace Pass

variable (p : Pass)

/-- The records the pass passed on. -/
def carriedSet : List String := p.carried.filterMap normalizeRecordUri

def incompletion : Verdict :=
  .discarded (p.seam.name ++ ":stage-incomplete") "step-structural"
    (clip ("UPSTREAM ABSENCE, NOT JUDGMENT — " ++ p.stage ++ " did not complete this pass" ++
      (if p.evidence = "" then "" else " (" ++ p.evidence ++ ")") ++
      ", so whatever it left on disk is PARTIAL and a record it does not name cannot be " ++
      "distinguished between considered-and-not-selected and never reached at all"))

def dropped (ground : Option Ground) : Verdict :=
  .discarded ((ground.bind Ground.reason).getD (p.seam.name ++ ":not-selected"))
    ((ground.bind Ground.reasonSource).getD "step-silent")
    (clip ((ground.bind Ground.detail).getD (p.stage ++ " completed this pass and did not carry " ++
      "this record forward; no ground for this record was recorded")))

/-- What the pass says of a record, if it says anything. -/
def verdictOn (prior : ByUri) (rec uri : String) : Option Verdict :=
  if uri ∈ p.carriedSet then some .carried
  else if p.outcome ≠ .completed then
    if p.outcome = .skipped ∧ (prior uri p.seam).isSome = true then none else some p.incompletion
  else some (p.dropped (p.reasonFor rec uri))

def row (uri : String) (normal : normalizeRecordUri uri = some uri) (verdict : Verdict) : Row :=
  ⟨p.seam, p.stage, p.trigger, p.pass, uri, normal, verdict⟩

/-- The loop over the records the pass saw; a record is seen once. -/
def rowsFrom (prior : ByUri) : List String → List String → List Row
  | _, [] => []
  | seen, rec :: saw =>
    match is : normalizeRecordUri rec with
    | none => rowsFrom prior seen saw
    | some uri =>
      if seen.contains uri then rowsFrom prior seen saw
      else
        (p.verdictOn prior rec uri).toList.map (p.row uri (normalizeRecordUri_self is)) ++
          rowsFrom prior (uri :: seen) saw

def seamRows (prior : ByUri) : List Row := p.rowsFrom prior [] p.saw

end Pass

def Row.fields (ts : String) (r : Row) : Fields :=
  [("ts", .str ts), ("seam", .str r.seam.name), ("stage", .str r.stage),
    ("trigger", r.trigger.elim .null .str), ("pass", .num r.pass), ("uri", .str r.uri),
    ("verdict", .str r.verdict.name)] ++
    match r.verdict with
    | .carried => []
    | .discarded reason source detail =>
      [("reason", .str reason), ("reason_source", .str source), ("detail", .str detail)]

/-- A row with the time it was written at. -/
abbrev Written := String × Row

def Written.line (w : Written) : List Char := JsonLine.write (w.2.fields w.1)

/-- The text an append adds: every row on a line of its own. -/
def linesText (ws : List Written) : List Char := ws.flatMap fun w => Written.line w ++ ['\n']

/-- What folding the ledger gives. -/
structure Folded where
  rows : Nat := 0
  torn : Nat := 0
  byUri : ByUri := fun _ _ => none
  seams : List Seam := []
  passes : List String := []

/-- `String(value ?? "")` -/
def text (value : Option Scalar) (missing : String) : String :=
  match value with
  | none | some .null => missing
  | some (.num n) => toString n
  | some (.str s) => s

def seamOf (name : String) : Option Seam := discardSeams.find? (·.name = name)

def passKey (seam : Seam) (e : Fields) : String :=
  seam.name ++ ":" ++ text (get? e "stage") "" ++ ":" ++ text (get? e "pass") "0" ++ ":" ++
    text (get? e "trigger") ""

/-- The last row of a record at a seam wins. -/
def Folded.add (m : Folded) (uri : String) (seam : Seam) (e : Fields) : Folded where
  rows := m.rows + 1
  torn := m.torn
  byUri u s := if u = uri ∧ s = seam then some e else m.byUri u s
  seams := if m.seams.contains seam then m.seams else m.seams ++ [seam]
  passes := if m.passes.contains (passKey seam e) then m.passes else m.passes ++ [passKey seam e]

def foldLine (m : Folded) (ln : List Char) : Folded :=
  if ln.all Text.isSpace then m
  else
    match JsonLine.read ln with
    | none => { m with torn := m.torn + 1 }
    | some e =>
      match normalizeRecordUri (text (get? e "uri") ""), seamOf (text (get? e "seam") "") with
      | some uri, some seam => m.add uri seam e
      | _, _ => m

def foldDiscardLedger (ledgerText : List Char) : Folded :=
  (ledgerText.splitOn '\n').foldl foldLine {}

/-- The row of the first seam that discarded the record. -/
def ledgerEnding (folded : Folded) (uri : String) : Option Fields :=
  (normalizeRecordUri uri).bind fun key =>
    discardSeams.findSome? fun seam =>
      (folded.byUri key seam).filter fun e => get? e "verdict" = some (.str "discarded")

/-- The file, and the rows that were written whole. -/
structure State where
  file : List UInt8 := []
  written : List Written := []

def State.folded (s : State) : Folded := foldDiscardLedger (Utf8.decode s.file)

/-- A pass, and how many bytes of its append reach the file. -/
structure Step where
  pass : Pass
  reached : Nat

/-- The rows of a pass; only a skipped one reads the ledger. -/
def State.rows (s : State) (p : Pass) : List Row :=
  p.seamRows (if p.outcome = .skipped then s.folded.byUri else fun _ _ => none)

def State.lines (s : State) (p : Pass) : List Written := (s.rows p).map fun r => (p.ts, r)

/-- The rows whose line lies in the first bytes of an append. -/
def wholeOf : List Written → Nat → List Written
  | [], _ => []
  | w :: ws, k =>
    if (Utf8.encode (Written.line w)).length ≤ k then
      w :: wholeOf ws (k - ((Utf8.encode (Written.line w)).length + 1))
    else []

def State.next (s : State) (step : Step) : State where
  file := s.file ++ (Utf8.encode (linesText (s.lines step.pass))).take step.reached
  written := s.written ++ wholeOf (s.lines step.pass) step.reached

def run (steps : List Step) : State := steps.foldl State.next {}

/-- The last row of a record at a seam that was written whole. -/
def standing (ws : List Written) (uri : String) (seam : Seam) : Option Written :=
  ws.reverse.find? fun w => w.2.uri = uri ∧ w.2.seam = seam

end Clearotron.Discards
