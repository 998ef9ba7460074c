import Mathlib.Data.List.Basic
import Clearotron.Library.Reaches

/-!
# A job's identity

A job is one file that is renamed through a queue folder, and the codename of its run
stands beside it: in `.processing.meta` while a runner has it, in `.postponed.meta` while
it is parked. Each file operation is a step, and a crash may fall between any two. A step
that only writes a temporary file or the claimer's token changes no file that is read for
the identity: what is read of the token is whether its runner lives, and the job's runner
stands in `pc` until it dies.

`folders`, `dispatches`, `resumes` and `cut` are not files of the queue: the run folders
opened for the job, the codenames it was dispatched under, the resumes after a crash since
it was last parked, and whether a crash ever fell where the identity was not on disk.
-/

namespace Clearotron

abbrev Codename := Nat

/-- What a meta file holds. -/
structure RunIdentity where
  codename : Codename
  reclaims : Nat := 0
  deriving DecidableEq, Repr

/-- `RECLAIM_MAX`. -/
def reclaimMax : Nat := 3

/-- The name the job's file has: `.json`, `.processing.claimed-<token>`, `.processing`,
`.postponed`, or one of those it ends under. -/
inductive JobName
  | queued
  | locked
  | processing
  | postponed
  | ended
  deriving DecidableEq, Repr

/-- Where the job's live runner is, if it has one. -/
inductive RunnerAt
  | away
  /-- `.json` was renamed to the lock -/
  | claiming
  /-- about to run the job, with the identity it is resumed under -/
  | prepared (resume : Option RunIdentity)
  /-- the identity was chosen: `.processing.meta` about to be renamed into place -/
  | recording (run : RunIdentity)
  | dispatched (run : RunIdentity)
  /-- `.postponed.meta` about to be renamed into place -/
  | parking (run : RunIdentity)
  /-- the marker about to be renamed to `.postponed` -/
  | parkRecorded (run : RunIdentity)
  /-- the claim's sidecars about to be removed -/
  | sweeping
  /-- the run ended: its sidecars, then `.postponed.meta`, about to be removed -/
  | ending
  | endingPark
  /-- `.postponed` was renamed to the lock, its meta read before -/
  | waking (parked : Option RunIdentity)
  /-- `.processing.meta` about to be written from the park's meta -/
  | woken (parked : Option RunIdentity)
  /-- `.postponed.meta` about to be removed -/
  | handed (parked : Option RunIdentity)
  /-- a dead runner's `.processing` was renamed to the lock -/
  | takingOver
  /-- the claim is this runner's: about to read its meta -/
  | tookOver
  /-- the count about to be renamed into place -/
  | counting (run : RunIdentity)
  /-- the claim is locked to be retired: its sidecars about to be removed -/
  | retiring (dest : JobName)
  | retired (dest : JobName)
  deriving DecidableEq, Repr

/-- The name the job's file has while a runner is there. -/
def RunnerAt.name? : RunnerAt → Option JobName
  | away => none
  | claiming | waking _ | takingOver | retiring _ | retired _ => some .locked
  | prepared _ | recording _ | dispatched _ | parking _ | parkRecorded _ | woken _ | handed _
  | tookOver | counting _ => some .processing
  | sweeping => some .postponed
  | ending | endingPark => some .ended

/-- The identity a runner has in hand. -/
def RunnerAt.run? : RunnerAt → Option RunIdentity
  | prepared resume | waking resume | woken resume | handed resume => resume
  | recording run | dispatched run | counting run => some run
  | _ => none

/-- The two windows: a wake has the marker and has not handed the identity over, or a
reclaimed claim's sidecars are gone and its marker is not retired. -/
def RunnerAt.exposed : RunnerAt → Bool
  | waking _ | woken _ | retired _ => true
  | _ => false

structure JobState where
  name : JobName
  procMeta : Option RunIdentity := none
  parkMeta : Option RunIdentity := none
  delivered : Bool := false
  pc : RunnerAt := .away
  folders : List Codename := []
  dispatches : List Codename := []
  resumes : Nat := 0
  cut : Bool := false
  deriving DecidableEq, Repr

namespace JobState

/-- The job was queued, and nothing was done. -/
def fresh : JobState := { name := .queued }

/-- The run folder of a meta's codename is on disk. -/
def owns (s : JobState) (run : RunIdentity) : Prop := run.codename ∈ s.folders

instance (s : JobState) (run : RunIdentity) : Decidable (s.owns run) :=
  inferInstanceAs (Decidable (run.codename ∈ s.folders))

end JobState

/-- One file operation, or a crash. -/
inductive JobStep : JobState → JobState → Prop
  -- claimAndPrep
  | claim {s : JobState} (name : s.name = .queued) (free : s.pc = .away) :
      JobStep s { s with name := .locked, pc := .claiming }
  | abandon {s : JobState} (pc : s.pc = .claiming) :
      JobStep s { s with name := .queued, pc := .away }
  | publish {s : JobState} (pc : s.pc = .claiming) :
      JobStep s { s with name := .processing, pc := .prepared none }
  | refuse {s : JobState} (pc : s.pc = .prepared none) :
      JobStep s { s with name := .ended, pc := .ending }
  -- runPrepared: a fresh job's codename is minted, one no run folder has
  | mint {s : JobState} (codename : Codename) (unused : codename ∉ s.folders)
      (pc : s.pc = .prepared none) : JobStep s { s with pc := .recording { codename } }
  | resume {s : JobState} (run : RunIdentity) (pc : s.pc = .prepared (some run)) :
      JobStep s { s with pc := .recording run }
  | dispatch {s : JobState} (run : RunIdentity) (pc : s.pc = .recording run) :
      JobStep s { s with
        procMeta := some run, pc := .dispatched run, dispatches := run.codename :: s.dispatches }
  -- the run
  | openFolder {s : JobState} (run : RunIdentity) (pc : s.pc = .dispatched run)
      (unopened : ¬s.owns run) : JobStep s { s with folders := run.codename :: s.folders }
  | deliver {s : JobState} (run : RunIdentity) (pc : s.pc = .dispatched run) (opened : s.owns run) :
      JobStep s { s with delivered := true }
  | finish {s : JobState} (run : RunIdentity) (pc : s.pc = .dispatched run) :
      JobStep s { s with name := .ended, pc := .ending }
  | endSweep {s : JobState} (pc : s.pc = .ending) :
      JobStep s { s with procMeta := none, pc := .endingPark }
  | endDrop {s : JobState} (pc : s.pc = .endingPark) :
      JobStep s { s with parkMeta := none, pc := .away }
  -- parkPostponed: the count is no part of the park's meta
  | postpone {s : JobState} (run : RunIdentity) (pc : s.pc = .dispatched run) :
      JobStep s { s with pc := .parking run }
  | parkRecord {s : JobState} (run : RunIdentity) (pc : s.pc = .parking run) :
      JobStep s { s with parkMeta := some { codename := run.codename }, pc := .parkRecorded run }
  | parkMove {s : JobState} (run : RunIdentity) (pc : s.pc = .parkRecorded run) :
      JobStep s { s with name := .postponed, pc := .sweeping, resumes := 0 }
  | parkSweep {s : JobState} (pc : s.pc = .sweeping) :
      JobStep s { s with procMeta := none, pc := .away }
  -- claimDuePostponed
  | cancelPark {s : JobState} (name : s.name = .postponed) (free : s.pc = .away) :
      JobStep s { s with name := .ended, pc := .endingPark }
  | wake {s : JobState} (name : s.name = .postponed) (free : s.pc = .away) :
      JobStep s { s with name := .locked, pc := .waking s.parkMeta }
  | abandonWake {s : JobState} (parked : Option RunIdentity) (pc : s.pc = .waking parked) :
      JobStep s { s with name := .postponed, pc := .away }
  | publishWake {s : JobState} (parked : Option RunIdentity) (pc : s.pc = .waking parked) :
      JobStep s { s with name := .processing, pc := .woken parked }
  | handOff {s : JobState} (run : RunIdentity) (pc : s.pc = .woken (some run)) :
      JobStep s { s with
        procMeta := some { codename := run.codename }, pc := .handed (some run) }
  | nothingToHand {s : JobState} (pc : s.pc = .woken none) :
      JobStep s { s with pc := .handed none }
  | dropPark {s : JobState} (parked : Option RunIdentity) (pc : s.pc = .handed parked) :
      JobStep s { s with parkMeta := none, pc := .prepared parked }
  -- sweepAbandonedTakeovers, takeoverClaim
  | restore {s : JobState} (name : s.name = .locked) (free : s.pc = .away) :
      JobStep s { s with name := .processing }
  | takeOver {s : JobState} (name : s.name = .processing) (free : s.pc = .away) :
      JobStep s { s with name := .locked, pc := .takingOver }
  | publishTakeOver {s : JobState} (pc : s.pc = .takingOver) :
      JobStep s { s with name := .processing, pc := .tookOver }
  -- reclaimOrphanedClaims
  | count {s : JobState} (run : RunIdentity) (pc : s.pc = .tookOver) (known : s.procMeta = some run)
      (owned : s.owns run) (running : s.delivered = false) (within : run.reclaims < reclaimMax) :
      JobStep s { s with pc := .counting { run with reclaims := run.reclaims + 1 } }
  | reclaim {s : JobState} (run : RunIdentity) (pc : s.pc = .counting run) :
      JobStep s { s with
        procMeta := some run, pc := .prepared (some run), resumes := s.resumes + 1 }
  | retireDelivered {s : JobState} (run : RunIdentity) (pc : s.pc = .tookOver)
      (known : s.procMeta = some run) (owned : s.owns run) (delivered : s.delivered = true) :
      JobStep s { s with name := .locked, pc := .retiring .ended }
  | retireExhausted {s : JobState} (run : RunIdentity) (pc : s.pc = .tookOver)
      (known : s.procMeta = some run) (owned : s.owns run) (spent : reclaimMax ≤ run.reclaims) :
      JobStep s { s with name := .locked, pc := .retiring .ended }
  | requeue {s : JobState} (pc : s.pc = .tookOver)
      (unowned : ∀ run, s.procMeta = some run → ¬s.owns run) :
      JobStep s { s with name := .locked, pc := .retiring .queued }
  | retireSweep {s : JobState} (dest : JobName) (pc : s.pc = .retiring dest) :
      JobStep s { s with procMeta := none, pc := .retired dest }
  | retireMove {s : JobState} (dest : JobName) (pc : s.pc = .retired dest) :
      JobStep s { s with name := dest, pc := .away }
  | crash {s : JobState} (live : s.pc ≠ .away) :
      JobStep s { s with pc := .away, cut := s.cut || s.pc.exposed }

namespace JobState

variable {s s' : JobState}

/-- The runner's place says which name the job's file has. -/
def Placed (s : JobState) : Prop := ∀ name, s.pc.name? = some name → s.name = name

theorem Placed.step (h : Placed s) (step : JobStep s s') : Placed s' := by
  intro name isName
  cases step <;> simp_all [Placed, RunnerAt.name?]

/-- What a runner recorded is on disk, and only a job with a run folder is resumed. -/
structure Recorded (s : JobState) : Prop where
  dispatched : ∀ run, s.pc = .dispatched run → s.procMeta = some run
  parked : ∀ run, s.pc = .parkRecorded run → s.parkMeta = some { codename := run.codename }
  counted : ∀ run, s.pc = .counting run → s.owns run
  opened : s.resumes = 0 ∨ s.folders ≠ []
  anew : ∀ run, s.parkMeta = some run → run.reclaims = 0
  bounded : ∀ run, s.pc.run? = some run → run.reclaims ≤ reclaimMax

theorem Recorded.step (h : Recorded s) (step : JobStep s s') : Recorded s' := by
  obtain ⟨dispatched, parked, counted, opened, anew, bounded⟩ := h
  cases step
  case reclaim run pc =>
    have mem : run.codename ∈ s.folders := counted run pc
    refine ⟨by simp, by simp, by simp, .inr (List.ne_nil_of_mem mem), anew, ?_⟩
    intro run' isRun
    exact bounded run' (by rw [pc]; exact isRun)
  case wake name free =>
    refine ⟨by simp, by simp, by simp, opened, anew, ?_⟩
    intro run isRun
    rw [anew run isRun]
    exact Nat.zero_le _
  case count run pc known owned running within =>
    refine ⟨by simp, by simp, ?_, opened, anew, ?_⟩
    · intro run' isRun
      obtain rfl := RunnerAt.counting.inj isRun
      exact owned
    · intro run' isRun
      obtain rfl := Option.some.inj isRun
      exact within
  all_goals
    refine ⟨?_, ?_, ?_, ?_, ?_, ?_⟩ <;> simp_all [owns, RunnerAt.run?]

/-- The claim's meta names the codename, and counts every resume. -/
def MetaOf (s : JobState) (c : Codename) : Prop :=
  ∃ run, s.procMeta = some run ∧ run.codename = c ∧ s.resumes ≤ run.reclaims ∧
    run.reclaims ≤ reclaimMax

/-- The park's meta names the codename, and the count starts anew. -/
def ParkOf (s : JobState) (c : Codename) : Prop :=
  s.parkMeta = some { codename := c } ∧ s.resumes = 0

/-- The runner has the codename, and a count of every resume. -/
def Carries (s : JobState) (run : RunIdentity) (c : Codename) : Prop :=
  run.codename = c ∧ s.resumes ≤ run.reclaims ∧ run.reclaims ≤ reclaimMax

/-- The run's codename is known: to the runner the job has, and to the next one should that
one die where no window is open. -/
def Knows (s : JobState) (c : Codename) : Prop :=
  match s.pc with
  | .away =>
    match s.name with
    | .queued => False
    | .locked | .processing => s.MetaOf c
    | .postponed => s.ParkOf c
    | .ended => True
  | .claiming | .prepared none => False
  | .prepared (some run) | .recording run => s.Carries run c ∧ s.MetaOf c
  | .dispatched run => s.Carries run c
  | .parking run | .parkRecorded run => run.codename = c ∧ s.MetaOf c
  | .sweeping => s.ParkOf c
  | .ending | .endingPark => True
  | .waking parked | .woken parked => parked = some { codename := c } ∧ s.ParkOf c
  | .handed parked => parked = some { codename := c } ∧ s.ParkOf c ∧ s.MetaOf c
  | .takingOver | .tookOver => s.MetaOf c
  | .counting run =>
    run.codename = c ∧ s.resumes + 1 ≤ run.reclaims ∧ run.reclaims ≤ reclaimMax ∧ s.MetaOf c
  | .retiring dest => dest = .ended ∧ s.MetaOf c
  | .retired dest => dest = .ended

/-- What is kept: one run folder, and its codename known. -/
structure Kept (s : JobState) : Prop where
  one : s.folders.length ≤ 1
  few : s.resumes ≤ reclaimMax
  knows : ∀ c ∈ s.folders, s.Knows c

theorem MetaOf.of_carries {c : Codename} {run : RunIdentity} (carries : s.Carries run c)
    (known : s.procMeta = some run) : s.MetaOf c :=
  ⟨run, known, carries⟩

/-- A dead runner leaves what it knew, unless a window was open. -/
theorem Knows.crash {c : Codename} (knows : s.Knows c) (placed : s.Placed) (recorded : s.Recorded)
    (live : s.pc ≠ .away) (closed : s.pc.exposed = false) (cut : Bool) :
    Knows { s with pc := .away, cut } c := by
  have name := placed
  unfold Placed at name
  unfold Knows at knows
  cases pc : s.pc with
  | away => exact absurd pc live
  | dispatched run =>
      have isName : s.name = .processing := name _ (by rw [pc]; rfl)
      simp only [pc] at knows
      simp only [Knows, isName]
      exact MetaOf.of_carries knows (recorded.dispatched run pc)
  | prepared resume =>
      have isName : s.name = .processing := name _ (by rw [pc]; rfl)
      cases resume with
      | none => simp only [pc] at knows
      | some run =>
          simp only [pc] at knows
          simp only [Knows, isName]
          exact knows.2
  | claiming => simp only [pc] at knows
  | recording run =>
      have isName : s.name = .processing := name _ (by rw [pc]; rfl)
      simp only [pc] at knows
      simp only [Knows, isName]
      exact knows.2
  | parking run | parkRecorded run =>
      have isName : s.name = .processing := name _ (by rw [pc]; rfl)
      simp only [pc] at knows
      simp only [Knows, isName]
      exact knows.2
  | sweeping =>
      have isName : s.name = .postponed := name _ (by rw [pc]; rfl)
      simp only [pc] at knows
      simp only [Knows, isName]
      exact knows
  | ending | endingPark =>
      have isName : s.name = .ended := name _ (by rw [pc]; rfl)
      simp only [Knows, isName]
  | waking parked | woken parked | retired dest =>
      rw [pc] at closed
      cases closed
  | handed parked =>
      have isName : s.name = .processing := name _ (by rw [pc]; rfl)
      simp only [pc] at knows
      simp only [Knows, isName]
      exact knows.2.2
  | takingOver =>
      have isName : s.name = .locked := name _ (by rw [pc]; rfl)
      simp only [pc] at knows
      simp only [Knows, isName]
      exact knows
  | tookOver =>
      have isName : s.name = .processing := name _ (by rw [pc]; rfl)
      simp only [pc] at knows
      simp only [Knows, isName]
      exact knows
  | counting run =>
      have isName : s.name = .processing := name _ (by rw [pc]; rfl)
      simp only [pc] at knows
      simp only [Knows, isName]
      exact knows.2.2.2
  | retiring dest =>
      have isName : s.name = .locked := name _ (by rw [pc]; rfl)
      simp only [pc] at knows
      simp only [Knows, isName]
      exact knows.2

/-- A run folder is opened for one codename only. -/
theorem Kept.openFolder {run : RunIdentity} (kept : s.Kept) (recorded : s.Recorded)
    (pc : s.pc = .dispatched run) (unopened : ¬s.owns run) :
    Kept { s with folders := run.codename :: s.folders } := by
  have none : s.folders = [] := by
    apply List.eq_nil_iff_forall_not_mem.mpr
    intro c mem
    have knows := kept.knows c mem
    simp only [Knows, pc] at knows
    apply unopened
    show run.codename ∈ s.folders
    rw [knows.1]
    exact mem
  refine ⟨?_, kept.few, ?_⟩
  · simp [none]
  · intro c mem
    obtain rfl : c = run.codename := by simpa [none] using mem
    have resumes : s.resumes = 0 := by simpa [none] using recorded.opened
    simp only [Knows, pc]
    refine ⟨rfl, ?_, recorded.bounded run (by rw [pc]; rfl)⟩
    show s.resumes ≤ _
    omega

/-- A step that opens no run folder keeps what it keeps known. -/
theorem Kept.of_knows (kept : s.Kept) (same : s'.folders = s.folders)
    (few : s'.resumes ≤ reclaimMax) (knows : ∀ c ∈ s.folders, s.Knows c → s'.Knows c) :
    s'.Kept := by
  refine ⟨?_, few, fun c mem => ?_⟩
  · rw [same]
    exact kept.one
  · rw [same] at mem
    exact knows c mem (kept.knows c mem)

theorem Kept.step (kept : s.Kept) (placed : s.Placed) (recorded : s.Recorded)
    (step : JobStep s s') (closed : s'.cut = false) : s'.Kept := by
  cases step with
  | openFolder run pc unopened => exact kept.openFolder recorded pc unopened
  | crash live =>
      have shut : s.pc.exposed = false := (Bool.or_eq_false_iff.mp closed).2
      exact kept.of_knows rfl kept.few fun c _ old => old.crash placed recorded live shut _
  | claim name free =>
      refine kept.of_knows rfl kept.few fun c _ old => ?_
      simp only [Knows, free, name] at old
  | abandon pc | publish pc | refuse pc | mint codename unused pc =>
      refine kept.of_knows rfl kept.few fun c _ old => ?_
      simp only [Knows, pc] at old
  | resume run pc =>
      refine kept.of_knows rfl kept.few fun c _ old => ?_
      simp only [Knows, pc] at old
      exact old
  | dispatch run pc =>
      refine kept.of_knows rfl kept.few fun c _ old => ?_
      simp only [Knows, pc] at old
      exact old.1
  | deliver run pc opened =>
      refine kept.of_knows rfl kept.few fun c _ old => ?_
      simp only [Knows, pc] at old ⊢
      exact old
  | finish run pc | endSweep pc | cancelPark name free =>
      exact kept.of_knows rfl kept.few fun c _ old => trivial
  | endDrop pc =>
      have name : s.name = .ended := placed _ (by rw [pc]; rfl)
      refine kept.of_knows rfl kept.few fun c _ old => ?_
      simp only [Knows, name]
  | postpone run pc =>
      refine kept.of_knows rfl kept.few fun c _ old => ?_
      simp only [Knows, pc] at old
      exact ⟨old.1, MetaOf.of_carries old (recorded.dispatched run pc)⟩
  | parkRecord run pc =>
      refine kept.of_knows rfl kept.few fun c _ old => ?_
      simp only [Knows, pc] at old
      exact old
  | parkMove run pc =>
      refine kept.of_knows rfl (Nat.zero_le _) fun c _ old => ?_
      simp only [Knows, pc] at old
      have parked := recorded.parked run pc
      rw [old.1] at parked
      exact ⟨parked, rfl⟩
  | parkSweep pc =>
      have name : s.name = .postponed := placed _ (by rw [pc]; rfl)
      refine kept.of_knows rfl kept.few fun c _ old => ?_
      simp only [Knows, pc] at old
      simp only [Knows, name]
      exact old
  | wake name free =>
      refine kept.of_knows rfl kept.few fun c _ old => ?_
      simp only [Knows, free, name] at old
      exact ⟨old.1, old⟩
  | abandonWake parked pc =>
      refine kept.of_knows rfl kept.few fun c _ old => ?_
      simp only [Knows, pc] at old
      exact old.2
  | publishWake parked pc =>
      refine kept.of_knows rfl kept.few fun c _ old => ?_
      simp only [Knows, pc] at old
      exact old
  | handOff run pc =>
      refine kept.of_knows rfl kept.few fun c _ old => ?_
      simp only [Knows, pc] at old
      obtain ⟨isRun, park⟩ := old
      obtain rfl := Option.some.inj isRun
      exact ⟨rfl, park, _, rfl, rfl, Nat.le_of_eq park.2, Nat.zero_le _⟩
  | nothingToHand pc =>
      refine kept.of_knows rfl kept.few fun c _ old => ?_
      simp only [Knows, pc] at old
      cases old.1
  | dropPark parked pc =>
      refine kept.of_knows rfl kept.few fun c _ old => ?_
      simp only [Knows, pc] at old
      obtain ⟨rfl, park, known⟩ := old
      exact ⟨⟨rfl, Nat.le_of_eq park.2, Nat.zero_le _⟩, known⟩
  | restore name free =>
      refine kept.of_knows rfl kept.few fun c _ old => ?_
      simp only [Knows, free, name] at old ⊢
      exact old
  | takeOver name free =>
      refine kept.of_knows rfl kept.few fun c _ old => ?_
      simp only [Knows, free, name] at old
      exact old
  | publishTakeOver pc =>
      refine kept.of_knows rfl kept.few fun c _ old => ?_
      simp only [Knows, pc] at old
      exact old
  | count run pc known owned running within =>
      refine kept.of_knows rfl kept.few fun c _ old => ?_
      simp only [Knows, pc] at old
      obtain ⟨run', known', named, counted, -⟩ := old
      obtain rfl : run' = run := Option.some.inj (known'.symm.trans known)
      exact ⟨named, Nat.succ_le_succ counted, within, run', known, named, counted, Nat.le_of_lt within⟩
  | reclaim run pc =>
      have few : s.resumes + 1 ≤ reclaimMax := by
        have knows := kept.knows run.codename (recorded.counted run pc)
        simp only [Knows, pc] at knows
        exact Nat.le_trans knows.2.1 knows.2.2.1
      refine kept.of_knows rfl few fun c _ old => ?_
      simp only [Knows, pc] at old
      obtain ⟨named, counted, bounded, -⟩ := old
      exact ⟨⟨named, counted, bounded⟩, run, rfl, named, counted, bounded⟩
  | retireDelivered run pc known owned delivered =>
      refine kept.of_knows rfl kept.few fun c _ old => ?_
      simp only [Knows, pc] at old
      exact ⟨rfl, old⟩
  | retireExhausted run pc known owned spent =>
      refine kept.of_knows rfl kept.few fun c _ old => ?_
      simp only [Knows, pc] at old
      exact ⟨rfl, old⟩
  | requeue pc unowned =>
      refine kept.of_knows rfl kept.few fun c mem old => ?_
      simp only [Knows, pc] at old
      obtain ⟨run, known, named, -⟩ := old
      apply absurd _ (unowned run known)
      show run.codename ∈ s.folders
      rw [named]
      exact mem
  | retireSweep dest pc =>
      refine kept.of_knows rfl kept.few fun c _ old => ?_
      simp only [Knows, pc] at old
      exact old.1
  | retireMove dest pc =>
      refine kept.of_knows rfl kept.few fun c _ old => ?_
      simp only [Knows, pc] at old
      simp only [Knows, old]

/-- A state a job comes to, whatever is done with it and wherever its runners die. -/
abbrev Reached (s : JobState) : Prop := Reaches (· = fresh) JobStep s

theorem Reached.start : fresh.Reached := Reaches.start rfl

theorem Reached.next (run : s.Reached) (step : JobStep s s') : s'.Reached := Reaches.step run step

theorem Reached.placed (run : s.Reached) : s.Placed := by
  apply run.invariant
  · rintro s rfl name isName
    cases isName
  · exact fun _ _ h step => h.step step

theorem Reached.recorded (run : s.Reached) : s.Recorded := by
  apply run.invariant
  · rintro s rfl
    exact ⟨nofun, nofun, nofun, .inl rfl, nofun, nofun⟩
  · exact fun _ _ h step => h.step step

theorem cut_of_step (step : JobStep s s') (closed : s'.cut = false) : s.cut = false := by
  cases step
  case crash => exact (Bool.or_eq_false_iff.mp closed).1
  all_goals exact closed

theorem Reached.kept (run : s.Reached) : s.cut = false → s.Kept := by
  induction run with
  | start h =>
      intro _
      subst h
      exact ⟨Nat.zero_le _, Nat.zero_le _, nofun⟩
  | step before h ih =>
      intro closed
      have kept := ih (cut_of_step h closed)
      exact kept.step (Reached.placed before) (Reached.recorded before) h closed

/-- In every run no crash of which fell into a window: once a run folder is open there is no
other, a job that is dispatched is dispatched under its codename, a dead runner's claim names
it, and the count on that claim is no less than the resumes since the job was last parked, of
which there are no more than `RECLAIM_MAX`. -/
theorem identity_survives_crashes (run : s.Reached) (closed : s.cut = false) :
    s.folders.length ≤ 1 ∧
      (∀ c ∈ s.folders,
        (∀ run, s.pc = .dispatched run → run.codename = c ∧ s.resumes ≤ run.reclaims) ∧
          (s.pc = .away → s.name ≠ .queued ∧
            (s.name = .locked ∨ s.name = .processing →
              ∃ run, s.procMeta = some run ∧ run.codename = c ∧ s.resumes ≤ run.reclaims) ∧
            (s.name = .postponed → s.parkMeta = some { codename := c }))) ∧
      s.resumes ≤ reclaimMax := by
  have kept := Reached.kept run closed
  refine ⟨kept.one, fun c mem => ?_, kept.few⟩
  have knows := kept.knows c mem
  refine ⟨fun run pc => ?_, fun free => ⟨fun name => ?_, fun name => ?_, fun name => ?_⟩⟩
  · simp only [Knows, pc] at knows
    exact ⟨knows.1, knows.2.1⟩
  · simp only [Knows, free, name] at knows
  · have known : s.MetaOf c := by
      obtain name | name := name
      · simpa only [Knows, free, name] using knows
      · simpa only [Knows, free, name] using knows
    obtain ⟨run, known, named, counted, -⟩ := known
    exact ⟨run, known, named, counted⟩
  · simp only [Knows, free, name] at knows
    exact knows.1

/-- The runner of a job whose run folder is open dies, and the next one resumes it. -/
theorem identity_survives_a_crash :
    ∃ s : JobState, s.pc = .dispatched { codename := 1, reclaims := 1 } ∧ s.folders.length ≤ 1 ∧
      s.resumes ≤ reclaimMax := by
  have claimed := (Reached.start.next (.claim rfl rfl)).next (.publish rfl)
  have run := (claimed.next (.mint 1 nofun rfl)).next (.dispatch _ rfl)
  have died := (run.next (.openFolder _ rfl nofun)).next (.crash nofun)
  have taken := (died.next (.takeOver rfl rfl)).next (.publishTakeOver rfl)
  have counted := taken.next (.count _ rfl rfl (List.mem_cons_self ..) rfl (by decide))
  have again := ((counted.next (.reclaim _ rfl)).next (.resume _ rfl)).next (.dispatch _ rfl)
  have survives := identity_survives_crashes again rfl
  exact ⟨_, rfl, survives.1, survives.2.2⟩

/-- A dispatch that dies before its run folder is open leaves its codename to nobody; and a
wake that is cut leaves a job with a run folder to be run under another. -/
theorem a_codename_is_not_kept :
    (∃ s : JobState, s.Reached ∧ s.cut = false ∧ s.dispatches = [2, 1]) ∧
      ∃ s : JobState, s.Reached ∧ s.folders = [2, 1] := by
  have claimed := (Reached.start.next (.claim rfl rfl)).next (.publish rfl)
  have run := (claimed.next (.mint 1 nofun rfl)).next (.dispatch _ rfl)
  constructor
  · have taken := ((run.next (.crash nofun)).next (.takeOver rfl rfl)).next (.publishTakeOver rfl)
    have queued := ((taken.next (.requeue rfl fun _ _ => nofun)).next
      (.retireSweep _ rfl)).next (.retireMove _ rfl)
    have again := (queued.next (.claim rfl rfl)).next (.publish rfl)
    exact ⟨_, (again.next (.mint 2 nofun rfl)).next (.dispatch _ rfl), rfl, rfl⟩
  · have recorded := ((run.next (.openFolder _ rfl nofun)).next (.postpone _ rfl)).next
      (.parkRecord _ rfl)
    have parked := (recorded.next (.parkMove _ rfl)).next (.parkSweep rfl)
    have died := ((parked.next (.wake rfl rfl)).next (.publishWake _ rfl)).next (.crash nofun)
    have taken := (died.next (.takeOver rfl rfl)).next (.publishTakeOver rfl)
    have queued := ((taken.next (.requeue rfl nofun)).next
      (.retireSweep _ rfl)).next (.retireMove _ rfl)
    have again := (queued.next (.claim rfl rfl)).next (.publish rfl)
    have dispatched := (again.next (.mint 2 (by decide) rfl)).next (.dispatch _ rfl)
    exact ⟨_, dispatched.next (.openFolder _ rfl (by decide)), rfl⟩

end JobState

end Clearotron
