import Mathlib.Logic.Function.Basic
import Clearotron.Library.Reaches
import Clearotron.Register.Text

/-!
# The what-if queue of a run

A what-if waits as a file in its run's folder. A worker lists the folder, claims a job by
renaming its file, executes it, writes a terminal record, and then sets the claim aside. A
claim whose file is old is listed again, as abandoned. Each of these is one step, and the
workers' steps stand in any order.

The last fields of the state are not in the code: they say when a job was last claimed, how
often, and which claims were taken over.
-/

namespace Clearotron

/-- `STALE_CLAIM_MS`. -/
def staleClaimMs : ℕ := 60 * 60 * 1000

/-- `ID_RE`. -/
def isWhatIfId (id : String) : Bool :=
  id.toList.take 3 = ['w', 'i', '-'] && id.toList.length = 11 &&
    (id.toList.drop 3).all fun c => c ∈ "0123456789abcdef".toList

/-- An id the server issued. -/
structure WhatIfId where
  text : String
  issued : isWhatIfId text = true
  deriving DecidableEq

structure WhatIfOp where
  runId : String
  kind : String := "stage"
  stage : String := ""
  instructions : String := ""
  deriving DecidableEq, Repr

/-- What `enqueueWhatIf` asks of an op. -/
def admitWhatIf (op : WhatIfOp) : Except String Unit :=
  if op.runId = "" then throw "enqueueWhatIf: op must carry runId and stage"
  else if op.kind = "memo" then
    if Text.trim op.instructions = "" then
      throw "enqueueWhatIf: a memo op must carry the assumption to apply"
    else pure ()
  else if op.stage = "" then throw "enqueueWhatIf: op must carry runId and stage"
  else pure ()

/-- A job's file, with the time it was written; a rename keeps that time. -/
structure Manifest where
  op : WhatIfOp
  mtime : ℕ
  deriving DecidableEq, Repr

structure TerminalRecord where
  op : Option WhatIfOp
  result : Option String
  error : Option String
  deriving DecidableEq, Repr

/-- The files of one job. -/
structure JobFiles where
  json : Option Manifest := none
  processing : Option Manifest := none
  consumed : Option Manifest := none
  done : Option TerminalRecord := none
  failed : Option TerminalRecord := none
  deriving DecidableEq, Repr

/-- The job has a terminal record. -/
def JobFiles.terminal (f : JobFiles) : Bool := f.done.isSome || f.failed.isSome

inductive WhatIfState
  | queued
  | running
  | done
  | failed
  | unknown
  deriving DecidableEq, Repr

/-- What the read tool reports of a job: the first of its files that is there. -/
def readFiles (f : JobFiles) : WhatIfState × Option TerminalRecord :=
  if f.json.isSome then (.queued, none)
  else if f.processing.isSome then (.running, none)
  else if f.done.isSome then (.done, f.done)
  else if f.failed.isSome then (.failed, f.failed)
  else (.unknown, none)

/-- An entry of a listing. -/
structure PendingEntry where
  id : WhatIfId
  stale : Bool
  /-- how often the job had been claimed when it was listed -/
  claims : ℕ
  deriving DecidableEq

inductive WorkerAt
  | idle
  | executing (id : WhatIfId) (op : WhatIfOp) (since : ℕ)
  /-- the terminal record is written: about to set the claim aside -/
  | retiring (id : WhatIfId)
  deriving DecidableEq

structure WhatIfWorker where
  listed : List PendingEntry := []
  pc : WorkerAt := .idle
  deriving DecidableEq

structure WhatIfQueue where
  now : ℕ := 0
  files : WhatIfId → JobFiles := fun _ => {}
  workers : ℕ → WhatIfWorker := fun _ => {}
  enqueued : WhatIfId → Bool := fun _ => false
  lastClaim : WhatIfId → ℕ := fun _ => 0
  claims : WhatIfId → ℕ := fun _ => 0
  /-- the claims that were taken over, each by its number -/
  takenOver : List (WhatIfId × ℕ) := []

inductive WhatIfAct
  | tick (ms : ℕ)
  | enqueue (id : WhatIfId) (op : WhatIfOp)
  /-- the worker lists the folder, whose jobs are these -/
  | list (w : ℕ) (names : List WhatIfId)
  | claim (w : ℕ) (e : PendingEntry)
  | finish (w : ℕ) (ok : Bool) (result error : Option String)
  | retire (w : ℕ)
  | crash (w : ℕ)
  | read (id : WhatIfId)

namespace WhatIfQueue

variable (s : WhatIfQueue)

def setFiles (id : WhatIfId) (f : JobFiles) : WhatIfQueue :=
  { s with files := Function.update s.files id f }

def go (w : ℕ) (pc : WorkerAt) : WhatIfQueue :=
  { s with workers := Function.update s.workers w { s.workers w with pc := pc } }

/-- The worker executes the job from now on. -/
def starts (w : ℕ) (id : WhatIfId) (op : WhatIfOp) : WhatIfQueue :=
  { s.go w (.executing id op s.now) with
    lastClaim := Function.update s.lastClaim id s.now
    claims := Function.update s.claims id (s.claims id + 1) }

/-- The entries of one job in a listing: queued, or claimed long ago by its file's time. -/
def entriesOf (id : WhatIfId) : List PendingEntry :=
  (if (s.files id).json.isSome then [{ id, stale := false, claims := s.claims id }] else []) ++
    match (s.files id).processing with
    | some m =>
      if m.mtime + staleClaimMs < s.now then [{ id, stale := true, claims := s.claims id }] else []
    | none => []

def pendingWhatIf (names : List WhatIfId) : List PendingEntry := names.flatMap s.entriesOf

def enqueueWhatIf (id : WhatIfId) (op : WhatIfOp) : WhatIfQueue :=
  { s.setFiles id { s.files id with json := some { op, mtime := s.now } } with
    enqueued := Function.update s.enqueued id true }

/-- A queued job is claimed by a rename; a stale claim is taken as it stands, and where its
file is gone the job is recorded as unreadable. -/
def claimWhatIf (w : ℕ) (e : PendingEntry) : WhatIfQueue :=
  let f := s.files e.id
  if e.stale then
    match f.processing with
    | some m =>
      { s.starts w e.id m.op with takenOver := s.takenOver ++ [(e.id, e.claims)] }
    | none =>
      s.setFiles e.id
        { f with failed := some { op := none, result := none, error := some "unreadable manifest" } }
  else
    match f.json with
    | some m => (s.setFiles e.id { f with json := none, processing := some m }).starts w e.id m.op
    | none => s

def finishWhatIf (id : WhatIfId) (ok : Bool) (r : TerminalRecord) : WhatIfQueue :=
  s.setFiles id
    (if ok then { s.files id with done := some r } else { s.files id with failed := some r })

/-- The claim's file is set aside. -/
def retireClaim (id : WhatIfId) : WhatIfQueue :=
  match (s.files id).processing with
  | some m => s.setFiles id { s.files id with processing := none, consumed := some m }
  | none => s

/-- `readWhatIf`. -/
def readWhatIf (id : String) : WhatIfState × Option TerminalRecord :=
  if issued : isWhatIfId id = true then readFiles (s.files ⟨id, issued⟩) else (.unknown, none)

def step : WhatIfAct → Option WhatIfQueue
  | .tick ms => some { s with now := s.now + ms }
  | .enqueue id op =>
    match admitWhatIf op with
    | .ok _ => some (s.enqueueWhatIf id op)
    | .error _ => none
  | .list w names =>
    if (s.workers w).pc = .idle then
      some { s with workers := Function.update s.workers w { listed := s.pendingWhatIf names } }
    else none
  | .claim w e =>
    if (s.workers w).pc = .idle ∧ e ∈ (s.workers w).listed then some (s.claimWhatIf w e) else none
  | .finish w ok result error =>
    match (s.workers w).pc with
    | .executing id op _ =>
      some ((s.finishWhatIf id ok { op := some op, result, error }).go w (.retiring id))
    | _ => none
  | .retire w =>
    match (s.workers w).pc with
    | .retiring id => some ((s.retireClaim id).go w .idle)
    | _ => none
  | .crash w => some { s with workers := Function.update s.workers w {} }
  | .read _ => some s

/-- The state after a list of steps. -/
def steps (s : WhatIfQueue) : List WhatIfAct → Option WhatIfQueue
  | [] => some s
  | a :: rest => (s.step a).bind fun s' => s'.steps rest

/-- The job a worker executes, and since when. -/
def executing (w : ℕ) : Option (WhatIfId × ℕ) :=
  match (s.workers w).pc with
  | .executing id _ since => some (id, since)
  | _ => none

end WhatIfQueue

end Clearotron
