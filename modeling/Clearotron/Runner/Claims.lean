import Mathlib.Logic.Function.Basic
import Clearotron.Library.Reaches

/-!
# Claims

Any number of runners share a queue folder. A job in it is one file, and whoever renames
that file has the job: each claim goes through a lock name that carries the claimer's
token, under which the sidecar `.processing.pid` is written before `.processing` is seen.
Every file operation is one step of one runner, and a runner may die between any two.

A runner that scans for dead claims reads the sidecar twice, once before it takes the lock
and once under it. `stray` is no file: it says that a job was woken while the runner that
parked it was still removing sidecars, or that a run ended while its marker was under
another runner's lock, after which the runner removes the sidecars all the same.
-/

namespace Clearotron

/-- A process, by the token it writes: `<pid>:<starttime>`. -/
abbrev Runner := Nat

/-- The names the job's file may have. -/
inductive Place
  | queued
  | processing
  /-- `.processing.claimed-<token>` -/
  | lock (r : Runner)
  | postponed
  | duplicate
  | failed
  | done
  | cancelled
  deriving DecidableEq, Repr

namespace Place

/-- Under this name nobody has the job. -/
def resting : Place → Bool
  | processing | lock _ => false
  | _ => true

/-- The names a runner that had the job leaves it under. -/
def settled : Place → Bool
  | processing | lock _ | queued => false
  | _ => true

/-- The names the file is renamed from. -/
def leaves : Place → Bool
  | processing | lock _ | queued | postponed => true
  | _ => false

end Place

/-- `CLAIM_SIDECAR_SUFFIXES`. -/
inductive Sidecar
  | pid
  /-- `.meta`, the run's identity -/
  | identity
  | skips
  deriving DecidableEq, Repr

def sidecars : List Sidecar := [.pid, .identity, .skips]

/-- What a claim starts from: `claimAndPrep` from the queue, `claimDuePostponed` from a park. -/
inductive Source
  | queue
  | park
  deriving DecidableEq, Repr

def Source.place : Source → Place
  | queue => .queued
  | park => .postponed

/-- What a reclaimed claim is retired to. -/
inductive RetireTo
  | queue
  | done
  | failed
  deriving DecidableEq, Repr

def RetireTo.place : RetireTo → Place
  | queue => .queued
  | done => .done
  | failed => .failed

inductive ClaimAt
  | idle
  /-- the marker is under this runner's lock -/
  | locked (src : Source)
  /-- `.pid.tmp` is written -/
  | tokenWritten (src : Source)
  /-- `.pid` is in place -/
  | covered (src : Source)
  /-- `.processing` is published: the job is prepared -/
  | holding
  | running
  /-- the marker was moved on: the sidecars `todo` are to be removed -/
  | sweeping (moved : Place) (todo : List Sidecar)
  /-- read a claim as a dead runner's -/
  | scanned
  /-- locked it, to read the claim again -/
  | took
  /-- stamped it with its own token -/
  | stamped
  /-- restored it: the claim is this runner's -/
  | tookOver
  /-- locked its claim to retire it, to read whose it is -/
  | retiring (dest : RetireTo)
  | retireSweeping (dest : RetireTo) (todo : List Sidecar)
  deriving DecidableEq, Repr

namespace ClaimAt

/-- The runner has the marker under its lock. -/
def locks : ClaimAt → Bool
  | locked _ | tokenWritten _ | covered _ | took | stamped | retiring _ | retireSweeping _ _ => true
  | _ => false

def wrote : ClaimAt → Bool
  | tokenWritten _ => true
  | _ => false

/-- The runner has the claim, and its token stands for it. -/
def covers : ClaimAt → Bool
  | covered _ | holding | running | stamped | tookOver => true
  | _ => false

/-- The runner is about to write or to remove sidecars under its lock. -/
def clears : ClaimAt → Bool
  | locked _ | tokenWritten _ | retireSweeping _ _ => true
  | _ => false

/-- The runner is removing a claim's sidecars. -/
def sweeps : ClaimAt → Bool
  | sweeping _ _ | retireSweeping _ _ => true
  | _ => false

end ClaimAt

structure ClaimFolder where
  present : Place → Bool
  side : Sidecar → Option Runner := fun _ => none
  tokenTmp : Option Runner := none
  pc : Runner → ClaimAt := fun _ => .idle
  alive : Runner → Bool := fun _ => true
  stray : Bool := false

namespace ClaimFolder

/-- One job in the queue, and nothing was done. -/
def fresh : ClaimFolder := { present := fun p => decide (p = .queued) }

/-- The file renamed: it is gone from the one name, and there under the other. -/
def move (present : Place → Bool) (src dst : Place) : Place → Bool :=
  Function.update (Function.update present src false) dst true

def go (s : ClaimFolder) (r : Runner) (pc : ClaimAt) : ClaimFolder :=
  { s with pc := Function.update s.pc r pc }

def rename (s : ClaimFolder) (src dst : Place) : ClaimFolder :=
  { s with present := move s.present src dst }

def setSide (s : ClaimFolder) (x : Sidecar) (content : Option Runner) : ClaimFolder :=
  { s with side := Function.update s.side x content }

/-- The token on the claim is no live runner's. -/
def Unclaimed (s : ClaimFolder) : Prop := ∀ t, s.side .pid = some t → s.alive t = false

end ClaimFolder

open ClaimFolder in
/-- One file operation of a live runner, or a runner's death. -/
inductive ClaimStep : ClaimFolder → ClaimFolder → Prop
  -- claimAndPrep, claimDuePostponed
  | claim {s : ClaimFolder} (r : Runner) (alive : s.alive r = true) (pc : s.pc r = .idle)
      (there : s.present .queued = true) :
      ClaimStep s ((s.rename .queued (.lock r)).go r (.locked .queue))
  | wake {s : ClaimFolder} (r : Runner) (alive : s.alive r = true) (pc : s.pc r = .idle)
      (there : s.present .postponed = true)
      (swept : ∀ w todo, s.alive w = true → s.pc w ≠ .sweeping .postponed todo) :
      ClaimStep s ((s.rename .postponed (.lock r)).go r (.locked .park))
  | wakeEarly {s : ClaimFolder} (r : Runner) (alive : s.alive r = true) (pc : s.pc r = .idle)
      (there : s.present .postponed = true) :
      ClaimStep s { (s.rename .postponed (.lock r)).go r (.locked .park) with stray := true }
  | write {s : ClaimFolder} (r : Runner) (src : Source) (alive : s.alive r = true)
      (pc : s.pc r = .locked src) :
      ClaimStep s { s.go r (.tokenWritten src) with tokenTmp := some r }
  | cover {s : ClaimFolder} (r : Runner) (src : Source) (alive : s.alive r = true)
      (pc : s.pc r = .tokenWritten src) :
      ClaimStep s { (s.setSide .pid s.tokenTmp).go r (.covered src) with tokenTmp := none }
  | abandon {s : ClaimFolder} (r : Runner) (src : Source) (alive : s.alive r = true)
      (pc : s.pc r = .locked src ∨ s.pc r = .tokenWritten src)
      (there : s.present (.lock r) = true) :
      ClaimStep s { (s.rename (.lock r) src.place).go r .idle with tokenTmp := none }
  | publish {s : ClaimFolder} (r : Runner) (src : Source) (alive : s.alive r = true)
      (pc : s.pc r = .covered src) (there : s.present (.lock r) = true) :
      ClaimStep s ((s.rename (.lock r) .processing).go r .holding)
  -- intake: refused, or parked as a duplicate
  | refuse {s : ClaimFolder} (r : Runner) (alive : s.alive r = true) (pc : s.pc r = .holding)
      (there : s.present .processing = true) :
      ClaimStep s ((s.rename .processing .failed).go r (.sweeping .failed sidecars))
  | refuseLost {s : ClaimFolder} (r : Runner) (alive : s.alive r = true) (pc : s.pc r = .holding)
      (gone : s.present .processing = false) :
      ClaimStep s { s.go r (.sweeping .failed sidecars) with stray := true }
  | duplicate {s : ClaimFolder} (r : Runner) (alive : s.alive r = true) (pc : s.pc r = .holding)
      (there : s.present .processing = true) :
      ClaimStep s ((s.rename .processing .duplicate).go r (.sweeping .duplicate sidecars))
  | duplicateLost {s : ClaimFolder} (r : Runner) (alive : s.alive r = true)
      (pc : s.pc r = .holding) (gone : s.present .processing = false) : ClaimStep s (s.go r .idle)
  -- runPrepared
  | dispatch {s : ClaimFolder} (r : Runner) (alive : s.alive r = true) (pc : s.pc r = .holding) :
      ClaimStep s ((s.setSide .identity (some r)).go r .running)
  | finish {s : ClaimFolder} (r : Runner) (dest : Place)
      (ends : dest = .done ∨ dest = .failed ∨ dest = .cancelled) (alive : s.alive r = true)
      (pc : s.pc r = .running) (there : s.present .processing = true) :
      ClaimStep s ((s.rename .processing dest).go r (.sweeping dest sidecars))
  | finishLost {s : ClaimFolder} (r : Runner) (dest : Place) (alive : s.alive r = true)
      (pc : s.pc r = .running) (gone : s.present .processing = false) :
      ClaimStep s { s.go r (.sweeping dest sidecars) with stray := true }
  -- parkPostponed
  | park {s : ClaimFolder} (r : Runner) (alive : s.alive r = true) (pc : s.pc r = .running)
      (there : s.present .processing = true) :
      ClaimStep s ((s.rename .processing .postponed).go r (.sweeping .postponed sidecars))
  | parkLost {s : ClaimFolder} (r : Runner) (alive : s.alive r = true) (pc : s.pc r = .running)
      (gone : s.present .processing = false) : ClaimStep s (s.go r .idle)
  | sweep {s : ClaimFolder} (r : Runner) (moved : Place) (x : Sidecar) (todo : List Sidecar)
      (alive : s.alive r = true) (pc : s.pc r = .sweeping moved (x :: todo)) :
      ClaimStep s ((s.setSide x none).go r (.sweeping moved todo))
  | swept {s : ClaimFolder} (r : Runner) (moved : Place) (alive : s.alive r = true)
      (pc : s.pc r = .sweeping moved []) : ClaimStep s (s.go r .idle)
  | cancelPark {s : ClaimFolder} (r : Runner) (alive : s.alive r = true) (pc : s.pc r = .idle)
      (there : s.present .postponed = true) :
      ClaimStep s ((s.rename .postponed .cancelled).go r .idle)
  -- sweepAbandonedTakeovers, takeoverClaim
  | restore {s : ClaimFolder} (r t : Runner) (alive : s.alive r = true) (pc : s.pc r = .idle)
      (dead : s.alive t = false) (there : s.present (.lock t) = true) :
      ClaimStep s ((s.rename (.lock t) .processing).go r .idle)
  | scan {s : ClaimFolder} (r : Runner) (alive : s.alive r = true) (pc : s.pc r = .idle)
      (there : s.present .processing = true) (unclaimed : s.Unclaimed) :
      ClaimStep s (s.go r .scanned)
  | take {s : ClaimFolder} (r : Runner) (alive : s.alive r = true) (pc : s.pc r = .scanned)
      (there : s.present .processing = true) :
      ClaimStep s ((s.rename .processing (.lock r)).go r .took)
  | takeLost {s : ClaimFolder} (r : Runner) (alive : s.alive r = true) (pc : s.pc r = .scanned)
      (gone : s.present .processing = false) : ClaimStep s (s.go r .idle)
  | standDown {s : ClaimFolder} (r t : Runner) (alive : s.alive r = true) (pc : s.pc r = .took)
      (claimed : s.side .pid = some t) (lives : s.alive t = true)
      (there : s.present (.lock r) = true) :
      ClaimStep s ((s.rename (.lock r) .processing).go r .idle)
  | stamp {s : ClaimFolder} (r : Runner) (alive : s.alive r = true) (pc : s.pc r = .took)
      (unclaimed : s.Unclaimed) : ClaimStep s ((s.setSide .pid (some r)).go r .stamped)
  | republish {s : ClaimFolder} (r : Runner) (alive : s.alive r = true) (pc : s.pc r = .stamped)
      (there : s.present (.lock r) = true) :
      ClaimStep s ((s.rename (.lock r) .processing).go r .tookOver)
  -- reclaimOrphanedClaims, retireClaimAndSweep
  | resume {s : ClaimFolder} (r : Runner) (alive : s.alive r = true) (pc : s.pc r = .tookOver) :
      ClaimStep s ((s.setSide .identity (some r)).go r .holding)
  | retire {s : ClaimFolder} (r : Runner) (dest : RetireTo) (alive : s.alive r = true)
      (pc : s.pc r = .tookOver) (there : s.present .processing = true) :
      ClaimStep s ((s.rename .processing (.lock r)).go r (.retiring dest))
  | retireLost {s : ClaimFolder} (r : Runner) (alive : s.alive r = true) (pc : s.pc r = .tookOver)
      (gone : s.present .processing = false) : ClaimStep s (s.go r .idle)
  | retireOwn {s : ClaimFolder} (r : Runner) (dest : RetireTo) (alive : s.alive r = true)
      (pc : s.pc r = .retiring dest) (own : ∀ t, s.side .pid = some t → t = r) :
      ClaimStep s (s.go r (.retireSweeping dest sidecars))
  | retireStandDown {s : ClaimFolder} (r t : Runner) (dest : RetireTo) (alive : s.alive r = true)
      (pc : s.pc r = .retiring dest) (other : s.side .pid = some t) (foreign : t ≠ r)
      (there : s.present (.lock r) = true) :
      ClaimStep s ((s.rename (.lock r) .processing).go r .idle)
  | retireSweep {s : ClaimFolder} (r : Runner) (dest : RetireTo) (x : Sidecar)
      (todo : List Sidecar) (alive : s.alive r = true)
      (pc : s.pc r = .retireSweeping dest (x :: todo)) :
      ClaimStep s ((s.setSide x none).go r (.retireSweeping dest todo))
  | retireMove {s : ClaimFolder} (r : Runner) (dest : RetireTo) (alive : s.alive r = true)
      (pc : s.pc r = .retireSweeping dest []) (there : s.present (.lock r) = true) :
      ClaimStep s ((s.rename (.lock r) dest.place).go r .idle)
  | crash {s : ClaimFolder} (r : Runner) :
      ClaimStep s { s with alive := Function.update s.alive r false }

end Clearotron
