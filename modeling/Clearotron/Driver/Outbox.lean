import Mathlib.Algebra.GroupWithZero.Nat
import Mathlib.Data.List.Sort
import Clearotron.Grants.File

/-!
# The delivery outbox of an agent

A delivery waits as a `<id>.pending` file that names the agent to wake. A wake that failed is
paced by a count of retries; a wake that went well and left a marker behind gives it a strike,
and a marker with enough strikes is set aside in the quarantine. Both counts stand in one
sidecar file. A rescan writes the marker of a run that is owed a notification again.

A marker goes by its name without `.pending`, and times are in milliseconds. What a marker has
survived and how many wakes in a row have failed is not in the code, and nothing reads it.
-/

namespace Clearotron

namespace Outbox

/-- The tunables, each of which is taken as one at least. -/
structure Tunables where
  baseSec : ℕ := 60
  capSec : ℕ := 900
  maxRetries : ℕ := 5
  giveupCooldownSec : ℕ := 3600
  noProgressMax : ℕ := 5
  base_pos : 1 ≤ baseSec := by decide
  cap_pos : 1 ≤ capSec := by decide
  retries_pos : 1 ≤ maxRetries := by decide
  giveup_pos : 1 ≤ giveupCooldownSec := by decide
  progress_pos : 1 ≤ noProgressMax := by decide

/-- What a marker's file holds: a packet, a brace that does not parse, or lines. -/
inductive Body
  | packet (agent kind : Option String)
  | torn
  | lines (first : String)
  deriving DecidableEq, Repr

def Body.who : Body → Option String
  | .packet agent _ => agent
  | .torn => none
  | .lines first => some (Text.trim first)

def Body.kind : Body → String
  | .packet _ kind => kind.getD "delivered"
  | _ => "delivered"

structure Marker where
  file : String
  body : Body
  /-- the successful wakes it has survived -/
  survived : ℕ := 0
  deriving DecidableEq, Repr

structure Status where
  runId : Option String := none
  slug : Option String := none
  codename : Option String := none
  sendPending : Bool := false
  state : Option String := none
  agent : Option String := none
  deriving DecidableEq, Repr

structure RunDir where
  leaf : String
  /-- `status.json`, where it can be read -/
  status : Option Status
  sent : Bool := false
  deriving DecidableEq, Repr

structure Sidecar where
  retries : ℕ
  markerStrikes : Keyed String ℕ := .empty
  lastReason : String
  nextDueAt : ℕ
  deriving DecidableEq

/-- What a wake printed, where it parsed. -/
structure Envelope where
  status : Option String
  stopReason : Option String
  deriving DecidableEq, Repr

structure Wake where
  code : ℕ
  json : Option Envelope
  deriving DecidableEq, Repr

inductive Outcome
  | ok
  | retry
  | giveup
  | stuck
  | quarantine
  deriving DecidableEq, Repr

structure Answer where
  outcome : Outcome
  waitSec : ℕ := 0
  retries : ℕ := 0
  reason : Option String := none
  quarantined : List String := []
  silentCleared : ℕ := 0
  deriving DecidableEq, Repr

end Outbox

/-- The outbox as one agent's wakes see it. A directory is listed by name, and the second one
is empty where it is the first. -/
structure Outbox where
  outbox : List Outbox.Marker
  legacyOutbox : List Outbox.Marker
  quarantine : List String
  /-- every run directory, in the order it is walked -/
  runs : List Outbox.RunDir
  sidecar : Option Outbox.Sidecar
  /-- the wakes that failed since the last that did not -/
  failures : ℕ
  deriving DecidableEq

namespace Outbox

/-- Why the wake failed, if it did. -/
def classifyWake (k : Wake) : Option String :=
  if k.code ≠ 0 then some ("nonzero_exit_" ++ toString k.code)
  else
    match k.json with
    | none => some "unparseable_json"
    | some json =>
      if json.status ≠ some "ok" then some ("status_" ++ json.status.getD "undefined")
      else if json.stopReason = some "error" then some "stop_reason_error"
      else none

/-- A file written into a directory: it stands where its name, with its ending, sorts, in the
place of any other file of that name. -/
def write (m : Marker) (dir : List Marker) : List Marker :=
  (dir.filter fun x => x.file ≠ m.file).orderedInsert
    (fun a b => a.file ++ ".pending" ≤ b.file ++ ".pending") m

/-- `[A-Za-z0-9._-]`. -/
def isMarkerChar (c : Char) : Bool :=
  c.isAlphanum || c = '.' || c = '_' || c = '-'

/-- A character outside the class is replaced, once for each half where it has two. -/
def sanitize (s : String) : String :=
  String.ofList (s.toList.flatMap fun c =>
    if isMarkerChar c then [c] else if c.toNat < 0x10000 then ['_'] else ['_', '_'])

/-- `/^[A-Za-z0-9_-]+$/`. -/
def isAgent (s : String) : Bool :=
  s ≠ "" && s.toList.all fun c => c.isAlphanum || c = '_' || c = '-'

def Status.legacy (st : Status) : Option String :=
  match st.slug, st.codename with
  | some slug, some codename =>
    if slug = "" ∨ codename = "" then none else some (slug ++ "-" ++ codename)
  | _, _ => none

def Status.dated (st : Status) (leaf : String) : String := st.runId.getD leaf

/-- The run goes by this id. -/
def RunDir.answersTo (r : RunDir) (id : String) : Bool :=
  r.status.any fun st => id = st.dated r.leaf || st.legacy = some id

/-- The first run that goes by the id has a `.sent`. -/
def runIsSent (runs : List RunDir) (id : String) : Bool :=
  match runs with
  | [] => false
  | r :: rest => if r.answersTo id then r.sent else runIsSent rest id

/-- The names a rescan looks for, and the first is the one it writes. -/
def RunDir.forms (r : RunDir) : List String :=
  match r.status with
  | none => []
  | some st =>
    let runId := sanitize (st.dated r.leaf)
    match st.legacy with
    | none => [runId]
    | some legacy => if sanitize legacy = runId then [runId] else [runId, sanitize legacy]

def owedTerminalStates : List String := ["delivered", "failed", "parked", "cancelled"]

section Low

variable (low : LowerCase)

def owedANotification (st : Status) : Bool :=
  st.sendPending &&
    (let terminal := low.lower (Text.trim (st.state.getD ""))
     terminal = "" || terminal ∈ owedTerminalStates)

/-- The marker a rescan would write for the run: its name, and the agent it wakes. -/
def RunDir.owes (r : RunDir) : Option (String × String) :=
  if r.sent then none
  else
    match r.status with
    | none => none
    | some st =>
      if owedANotification low st && isAgent (st.agent.getD "") then
        some (sanitize (st.dated r.leaf), st.agent.getD "")
      else none

end Low

variable (t : Tunables) (agent : String)

/-- `readSidecar(agent)?.retries ?? 0`. -/
def retries (w : Outbox) : ℕ := (w.sidecar.map Sidecar.retries).getD 0

/-- `readSidecar(agent)?.markerStrikes || {}`. -/
def strikes (w : Outbox) : Keyed String ℕ := (w.sidecar.map Sidecar.markerStrikes).getD .empty

/-- `prev[file] || 0`. -/
def strikesOf (w : Outbox) (file : String) : ℕ := (w.strikes.get file).getD 0

/-- The seconds until a wake is due. -/
def checkDue (w : Outbox) (now : ℕ) : ℕ :=
  match w.sidecar with
  | none => 0
  | some sc => (sc.nextDueAt - now + 999) / 1000

def recordSuccess (w : Outbox) : Outbox := { w with sidecar := none }

/-- The pause after this many failures. -/
def delaySec (n : ℕ) : ℕ :=
  if t.maxRetries ≤ n then t.giveupCooldownSec else min (t.baseSec * 2 ^ (n - 1)) t.capSec

def recordFailure (w : Outbox) (reason : String) (now : ℕ) : Answer × Outbox :=
  let n := w.retries + 1
  ({ outcome := if t.maxRetries ≤ n then .giveup else .retry, waitSec := delaySec t n
     retries := n },
    { w with
      sidecar := some
        { retries := n, lastReason := reason, nextDueAt := now + delaySec t n * 1000 } })

def markersForAgent (w : Outbox) : List Marker :=
  (w.outbox ++ w.legacyOutbox).filter fun m => m.body.who = some agent

inductive Fate
  | cleared
  | setAside
  | struck (n : ℕ)
  deriving DecidableEq, Repr

/-- What a successful wake makes of a marker it left behind. -/
def fate (w : Outbox) (m : Marker) : Fate :=
  if m.body.kind = "delivered" ∧ runIsSent w.runs m.file = true then .cleared
  else if t.noProgressMax ≤ w.strikesOf m.file + 1 then .setAside
  else .struck (w.strikesOf m.file + 1)

structure Settled where
  strikes : Keyed String ℕ := .empty
  quarantined : List String := []
  silentCleared : ℕ := 0
  deriving DecidableEq

def settleMarker (w : Outbox) (acc : Settled) (m : Marker) : Settled :=
  match w.fate t m with
  | .cleared => { acc with silentCleared := acc.silentCleared + 1 }
  | .setAside => { acc with quarantined := acc.quarantined ++ [m.file] }
  | .struck n => { acc with strikes := acc.strikes.set m.file n }

def settled (w : Outbox) : Settled := (w.markersForAgent agent).foldl (w.settleMarker t) {}

/-- What is left of a directory: the markers of others, and those that were struck. -/
def left (w : Outbox) (m : Marker) : Option Marker :=
  if m.body.who = some agent then
    match w.fate t m with
    | .struck _ => some { m with survived := m.survived + 1 }
    | _ => none
  else some m

def writeStrikeSidecar (w : Outbox) (strikes : Keyed String ℕ) (waitSec now : ℕ) : Outbox :=
  if strikes.entries = [] then w.recordSuccess
  else
    { w with
      sidecar := some
        { retries := w.retries, markerStrikes := strikes, lastReason := "no_progress"
          nextDueAt := now + waitSec * 1000 } }

def settleProgress (w : Outbox) (now : ℕ) : Answer × Outbox :=
  if w.markersForAgent agent = [] then ({ outcome := .ok }, w.recordSuccess)
  else
    let s := w.settled t agent
    let w' :=
      { w with
        outbox := w.outbox.filterMap (w.left t agent)
        legacyOutbox := w.legacyOutbox.filterMap (w.left t agent)
        quarantine := w.quarantine ++ s.quarantined }
    if s.strikes.entries = [] ∧ s.quarantined = [] then
      ({ outcome := .ok, silentCleared := s.silentCleared }, w'.recordSuccess)
    else
      let worst := (s.strikes.entries.map Prod.snd).foldl max 0
      let waitSec := if 0 < worst then min (t.baseSec * 2 ^ (worst - 1)) t.capSec else t.baseSec
      ({ outcome := if s.quarantined = [] then .stuck else .quarantine, waitSec
         reason := some "no_progress", quarantined := s.quarantined },
        w'.writeStrikeSidecar s.strikes waitSec now)

def settleWake (w : Outbox) (k : Wake) (now : ℕ) : Answer × Outbox :=
  match classifyWake k with
  | some reason =>
    let (answer, w') := w.recordFailure t reason now
    ({ answer with reason := some reason }, { w' with failures := w.failures + 1 })
  | none =>
    let (answer, w') := w.settleProgress t agent now
    (answer, { w' with failures := 0 })

section Low

variable (low : LowerCase)

/-- No form of the run stands in the outbox or in the quarantine. -/
def missing (w : Outbox) (r : RunDir) : Bool :=
  r.forms.all fun id => (w.outbox.all fun m => m.file ≠ id) && !w.quarantine.contains id

def redrop (acc : Outbox × List (String × String)) (r : RunDir) :
    Outbox × List (String × String) :=
  match r.owes low with
  | none => acc
  | some (runId, agent) =>
    if acc.1.missing r then
      ({ acc.1 with outbox := write { file := runId, body := .lines agent } acc.1.outbox },
        acc.2 ++ [(runId, agent)])
    else acc

def rescanOwedRuns (w : Outbox) : Outbox × List (String × String) :=
  w.runs.foldl (redrop low) (w, [])

end Low

/-- A delivery is dropped, consumed or taken out of the quarantine, the runs go on, a wake
ends, or the timer rescans. -/
inductive Act
  | drop (old : Bool) (file : String) (body : Body)
  | ack (old : Bool) (file : String)
  | takeBack (file : String)
  | runsGoOn (runs : List RunDir)
  | wake (now : ℕ) (k : Wake)
  | rescan
  deriving DecidableEq

def step (low : LowerCase) (w : Outbox) : Act → Outbox
  | .drop false file body => { w with outbox := write { file, body } w.outbox }
  | .drop true file body => { w with legacyOutbox := write { file, body } w.legacyOutbox }
  | .ack false file => { w with outbox := w.outbox.filter fun m => m.file ≠ file }
  | .ack true file => { w with legacyOutbox := w.legacyOutbox.filter fun m => m.file ≠ file }
  | .takeBack file => { w with quarantine := w.quarantine.filter fun f => f ≠ file }
  | .runsGoOn runs => { w with runs }
  | .wake now k => (w.settleWake t agent k now).2
  | .rescan => (w.rescanOwedRuns low).1

/-- No wake has been counted, and no marker has been struck. -/
def Fresh (w : Outbox) : Prop :=
  w.sidecar = none ∧ w.failures = 0 ∧ ∀ m ∈ w.outbox ++ w.legacyOutbox, m.survived = 0

end Outbox

end Clearotron
