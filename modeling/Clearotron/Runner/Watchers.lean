import Mathlib.Logic.Function.Basic
import Clearotron.Library.Reaches

/-!
# Watchers of one run folder

A run parked in its folder leaves the sentinel `.postponed`. Any watcher may resume it:
it claims the sentinel by renaming it to `.resuming`, and writes its own process id to
`.resuming.pid` beside it. A claim whose watcher is gone is claimed again, by moving the
old `.resuming.pid` out of the way and creating a new one exclusively.

The folder is shared by any number of watchers. Each file operation is one step, and a
watcher may die before any of them, or in the middle of writing the id. The `version`
of the folder counts its changes, and `seen` is the version a watcher knows: the one it
last read, or the one it made. Neither is in the code; they say which interleaving a run
is.
-/

namespace Clearotron

abbrev Pid := Nat

/-- The id file beside a claim; a watcher that dies while it writes leaves it unreadable. -/
inductive ClaimSidecar
  | absent
  | torn
  | of (pid : Pid)
  deriving DecidableEq, Repr

structure RunFolder where
  postponed : Bool
  resuming : Bool
  pid : ClaimSidecar
  superseded : Bool := false
  deriving DecidableEq, Repr

/-- Where a watcher stands with the folder. -/
inductive WatcherAt
  | idle
  /-- it read the sentinel as due -/
  | due
  /-- it read the claim as abandoned -/
  | dueAgain
  /-- it read the claim as abandoned once more, to act on it -/
  | judged
  /-- the old id is out of the way -/
  | superseded
  /-- the new id is created, exclusively -/
  | created
  | cleared
  /-- the sentinel is renamed, the id not yet written -/
  | renamed
  | driving
  /-- the run parked itself again while the claim still stands -/
  | reparked
  /-- the claim is removed, its id file not yet -/
  | released
  deriving DecidableEq, Repr

/-- From the step that wins the folder to the one that removes the claim. -/
def WatcherAt.holds : WatcherAt → Bool
  | .created | .cleared | .renamed | .driving | .reparked => true
  | _ => false

/-- From the reading that a claim is abandoned to the step that takes it. -/
def WatcherAt.recovers : WatcherAt → Bool
  | .dueAgain | .judged | .superseded => true
  | _ => false

structure Watchers where
  folder : RunFolder
  pc : Pid → WatcherAt
  alive : Pid → Bool
  version : Nat := 0
  seen : Pid → Nat := fun _ => 0

inductive WatcherAct
  /-- `scanDueRunDirOrphans`; `due` is what the other markers and the clock say -/
  | scan (overAge due : Bool)
  | recheck (overAge : Bool)
  | supersede
  | create
  | clear
  | rename
  /-- the id is written, or the write fails, which the code lets pass -/
  | write (lands : Bool)
  | repark
  | release
  | removePid
  /-- the watcher dies; `tear` if in the middle of writing the id -/
  | crash (tear : Bool)
  deriving DecidableEq, Repr

namespace Watchers

/-- A claim is abandoned if the watcher its id names is dead; one with no id that can be
read is abandoned once it is over age. -/
def resumeClaimIsAbandoned (s : Watchers) (overAge : Bool) : Bool :=
  match s.folder.pid with
  | .of p => !s.alive p
  | _ => overAge

/-- A watcher goes on without changing the folder; `look` if it read it. -/
def move (s : Watchers) (w : Pid) (pc : WatcherAt) : Watchers :=
  { s with pc := Function.update s.pc w pc }

def look (s : Watchers) (w : Pid) (pc : WatcherAt) : Watchers :=
  { s with pc := Function.update s.pc w pc, seen := Function.update s.seen w s.version }

def change (s : Watchers) (w : Pid) (folder : RunFolder) (pc : WatcherAt) : Watchers :=
  { s with
    folder
    pc := Function.update s.pc w pc
    version := s.version + 1
    seen := Function.update s.seen w (s.version + 1) }

/-- Does the watcher die in the middle of writing the id? The exclusive create writes only
where no id file stands. -/
def tears (s : Watchers) (w : Pid) : Bool :=
  match s.pc w with
  | .cleared | .renamed => true
  | .superseded => s.folder.pid = .absent
  | _ => false

def die (s : Watchers) (w : Pid) (tear : Bool) : Watchers :=
  if tear && s.tears w then
    { s.change w { s.folder with pid := .torn } .idle with
      alive := Function.update s.alive w false }
  else { s with alive := Function.update s.alive w false }

/-- One file operation of one watcher. -/
def step (s : Watchers) (w : Pid) (act : WatcherAct) : Option Watchers :=
  let f := s.folder
  if !s.alive w then none
  else match act, s.pc w with
  | .scan overAge due, .idle =>
    some <|
      if !f.postponed && f.resuming && s.resumeClaimIsAbandoned overAge then s.look w .dueAgain
      else if f.postponed && !f.resuming && due then s.look w .due
      else s.look w .idle
  | .recheck overAge, .dueAgain =>
    some <| if s.resumeClaimIsAbandoned overAge then s.look w .judged else s.look w .idle
  | .supersede, .judged =>
    some <|
      if f.pid = .absent then s.move w .superseded
      else s.change w { f with pid := .absent, superseded := true } .superseded
  | .create, .superseded =>
    some <| if f.pid = .absent then s.change w { f with pid := .of w } .created else s.move w .idle
  | .clear, .created => some (s.change w { f with superseded := false } .cleared)
  | .rename, .due =>
    some <|
      if f.postponed then s.change w { f with postponed := false, resuming := true } .renamed
      else s.move w .idle
  | .write lands, .cleared =>
    some (s.change w (if lands then { f with pid := .of w } else f) .driving)
  | .write lands, .renamed =>
    some (s.change w (if lands then { f with pid := .of w } else f) .driving)
  | .repark, .driving => some (s.change w { f with postponed := true } .reparked)
  | .release, .driving => some (s.change w { f with resuming := false } .released)
  | .release, .reparked => some (s.change w { f with resuming := false } .released)
  | .removePid, .released => some (s.change w { f with pid := .absent } .idle)
  | .crash tear, _ => some (s.die w tear)
  | _, _ => none

/-- The watcher is alive and the claim on the folder is its own. -/
def Holds (s : Watchers) (w : Pid) : Prop :=
  s.alive w = true ∧ (s.pc w).holds = true

instance (s : Watchers) (w : Pid) : Decidable (s.Holds w) :=
  inferInstanceAs (Decidable (_ ∧ _))

/-- Nobody changed the folder since the watcher last read or changed it. -/
def Fresh (s : Watchers) (w : Pid) : Prop :=
  s.seen w = s.version

/-- The interleavings that do no harm: a watcher that takes the claim, or removes its id
file at the end, does so on the folder as it last saw it; no claim is judged while a live
watcher has renamed the sentinel and not yet written its id; and that id is written. -/
def Undisturbed (s : Watchers) (w : Pid) : WatcherAct → Prop
  | .recheck overAge =>
    s.resumeClaimIsAbandoned overAge = true →
      s.Fresh w ∧ ∀ w', s.alive w' = true → s.pc w' ≠ .renamed
  | .supersede => s.folder.pid ≠ .absent → s.Fresh w
  | .create => s.folder.pid = .absent → s.Fresh w
  | .rename => s.folder.postponed = true → s.Fresh w
  | .write lands => s.pc w = .renamed → lands = true
  | .removePid => s.Fresh w
  | .crash tear => tear = true → s.pc w = .superseded → s.tears w = true → s.Fresh w
  | _ => True

def UndisturbedStep (s s' : Watchers) : Prop :=
  ∃ w act, s.Undisturbed w act ∧ s.step w act = some s'

/-- No watcher has yet looked at the folder. -/
def Start (s : Watchers) : Prop :=
  ∀ w, s.pc w = .idle ∧ s.seen w ≤ s.version

/-- Where a watcher stands that acts on nothing it read before. -/
def Rests (s : Watchers) (w : Pid) : Prop :=
  s.pc w = .idle ∨ s.pc w = .dueAgain

/-- While a watcher holds the claim, the files say so, and whatever another watcher
means to do it means to do on a folder that has changed since. -/
structure Kept (s : Watchers) : Prop where
  seen_le : ∀ w, s.seen w ≤ s.version
  resuming : ∀ w, s.Holds w → s.folder.resuming = true
  sidecar : ∀ w, s.Holds w → s.pc w ≠ .renamed → s.folder.pid = .of w
  fresh : ∀ w, s.Holds w → s.Fresh w
  claimed : ∀ w, s.alive w = true → (s.pc w).recovers = true → s.Fresh w →
    s.folder.resuming = true
  alone : ∀ w other, s.Holds w → other ≠ w → s.alive other = true →
    s.Rests other ∨ s.seen other < s.version

variable {s s' : Watchers} {w other : Pid} {act : WatcherAct}

theorem Kept.start (start : s.Start) : s.Kept := by
  have none_holds : ∀ w, ¬ s.Holds w := by
    rintro w ⟨-, holds⟩
    rw [(start w).1] at holds
    cases holds
  refine ⟨fun w => (start w).2, fun w h => (none_holds w h).elim,
    fun w h => (none_holds w h).elim, fun w h => (none_holds w h).elim, ?_,
    fun w _ h => (none_holds w h).elim⟩
  intro w _ recovers
  rw [(start w).1] at recovers
  cases recovers

/-- A watcher that acts on the folder as it is acts while no other holds the claim. -/
theorem Kept.sole (kept : s.Kept) (alive : s.alive w = true) (busy : ¬ s.Rests w)
    (fresh : s.Fresh w) : ∀ other, other ≠ w → ¬ s.Holds other := by
  intro other apart holds
  obtain rests | stale := kept.alone other w holds apart.symm alive
  · exact busy rests
  · exact absurd fresh (Nat.ne_of_lt stale)

/-- Two watchers never hold the claim at once. -/
theorem Kept.one (kept : s.Kept) (holds : s.Holds w) (holds' : s.Holds other) :
    other = w := by
  by_contra apart
  refine kept.sole holds.1 ?_ (kept.fresh w holds) other apart holds'
  rintro (idle | due)
  · exact absurd holds.2 (by simp [idle, WatcherAt.holds])
  · exact absurd holds.2 (by simp [due, WatcherAt.holds])

/-- A step of one watcher that leaves the folder as it is, and by which it does not come
to hold the claim. -/
theorem Kept.quiet (kept : s.Kept) {pc : WatcherAt} {seen : Nat} (le : seen ≤ s.version)
    (plain : pc.holds = false)
    (claimed : pc.recovers = true → seen = s.version → s.folder.resuming = true)
    (behind : ∀ holder, holder ≠ w → s.Holds holder →
      pc = .idle ∨ pc = .dueAgain ∨ seen < s.version) :
    Kept { s with
      pc := Function.update s.pc w pc, seen := Function.update s.seen w seen } := by
  have held : ∀ v, Holds { s with
      pc := Function.update s.pc w pc, seen := Function.update s.seen w seen } v →
      v ≠ w ∧ s.Holds v := by
    rintro v ⟨alive, holds⟩
    by_cases own : v = w
    · subst own
      simp [plain] at holds
    · exact ⟨own, alive, by simpa [own] using holds⟩
  constructor
  · intro v
    by_cases own : v = w
    · subst own
      simpa using le
    · simpa [own] using kept.seen_le v
  · intro v h
    exact kept.resuming v (held v h).2
  · intro v h named
    obtain ⟨own, holds⟩ := held v h
    exact kept.sidecar v holds (by simpa [own] using named)
  · intro v h
    obtain ⟨own, holds⟩ := held v h
    simpa [Fresh, own] using kept.fresh v holds
  · intro v alive recovers fresh
    by_cases own : v = w
    · subst own
      exact claimed (by simpa using recovers) (by simpa [Fresh] using fresh)
    · exact kept.claimed v alive (by simpa [own] using recovers) (by simpa [Fresh, own] using fresh)
  · intro v u h apart alive
    obtain ⟨own, holds⟩ := held v h
    by_cases mover : u = w
    · subst mover
      simpa [Rests, or_assoc] using behind v own holds
    · simpa [Rests, mover] using kept.alone v u holds apart alive

theorem move_eq (s : Watchers) (w : Pid) (pc : WatcherAt) :
    s.move w pc = { s with
      pc := Function.update s.pc w pc, seen := Function.update s.seen w (s.seen w) } := by
  simp [move]

/-- A change of the folder by one watcher, made while no other holds the claim. -/
theorem Kept.change (kept : s.Kept) (sole : ∀ v, v ≠ w → ¬ s.Holds v) {folder : RunFolder}
    {pc : WatcherAt} (claim : pc.holds = true ∨ pc.recovers = true → folder.resuming = true)
    (named : pc.holds = true → pc ≠ .renamed → folder.pid = .of w) :
    (s.change w folder pc).Kept := by
  have held : ∀ v, (s.change w folder pc).Holds v → v = w ∧ pc.holds = true := by
    rintro v ⟨alive, holds⟩
    by_cases own : v = w
    · subst own
      exact ⟨rfl, by simpa [Watchers.change] using holds⟩
    · exact absurd ⟨alive, by simpa [Watchers.change, own] using holds⟩ (sole v own)
  constructor
  · intro v
    by_cases own : v = w
    · subst own
      simp [Watchers.change]
    · have before := kept.seen_le v
      simp only [Watchers.change, ne_eq, own, not_false_eq_true, Function.update_of_ne]
      omega
  · intro v h
    exact claim (.inl (held v h).2)
  · intro v h other
    obtain ⟨rfl, holds⟩ := held v h
    exact named holds (by simpa [Watchers.change] using other)
  · intro v h
    obtain ⟨rfl, -⟩ := held v h
    simp [Fresh, Watchers.change]
  · intro v _ recovers fresh
    by_cases own : v = w
    · subst own
      exact claim (.inr (by simpa [Watchers.change] using recovers))
    · have before := kept.seen_le v
      simp only [Fresh, Watchers.change, ne_eq, own, not_false_eq_true,
        Function.update_of_ne] at fresh
      omega
  · intro v u h apart alive
    obtain ⟨rfl, -⟩ := held v h
    right
    have before := kept.seen_le u
    simp only [Watchers.change, ne_eq, apart, not_false_eq_true, Function.update_of_ne]
    omega

/-- A watcher that dies holds the claim no more and means to do nothing. -/
theorem Kept.dies (kept : s.Kept) :
    Kept { s with alive := Function.update s.alive w false } := by
  have held : ∀ v, Holds { s with alive := Function.update s.alive w false } v →
      s.Holds v := by
    rintro v ⟨alive, holds⟩
    refine ⟨?_, holds⟩
    by_cases own : v = w
    · subst own
      simp at alive
    · simpa [own] using alive
  refine ⟨kept.seen_le, fun v h => kept.resuming v (held v h),
    fun v h => kept.sidecar v (held v h), fun v h => kept.fresh v (held v h), ?_, ?_⟩
  · intro v alive
    by_cases own : v = w
    · subst own
      simp at alive
    · exact kept.claimed v (by simpa [own] using alive)
  intro v u h apart alive
  refine kept.alone v u (held v h) apart ?_
  by_cases own : u = w
  · subst own
    simp at alive
  · simpa [own] using alive

/-- A claim read as abandoned is not held, unless its watcher has yet to write its id. -/
theorem Kept.not_held (kept : s.Kept) {overAge : Bool}
    (abandoned : s.resumeClaimIsAbandoned overAge = true)
    (written : ∀ v, s.alive v = true → s.pc v ≠ .renamed) (v : Pid) : ¬ s.Holds v := by
  intro holds
  have named := kept.sidecar v holds (written v holds.1)
  simp [resumeClaimIsAbandoned, named, holds.1] at abandoned

/-- What a step does: the watcher goes on and leaves the folder as it is, or it changes
the folder while no other holds the claim; and it may die. -/
inductive Moves (s : Watchers) (w : Pid) : Watchers → Prop
  | quiet {pc : WatcherAt} {seen : Nat} (le : seen ≤ s.version) (plain : pc.holds = false)
      (claimed : pc.recovers = true → seen = s.version → s.folder.resuming = true)
      (behind : ∀ holder, holder ≠ w → s.Holds holder →
        pc = .idle ∨ pc = .dueAgain ∨ seen < s.version) :
      Moves s w { s with
        pc := Function.update s.pc w pc, seen := Function.update s.seen w seen }
  | change {folder : RunFolder} {pc : WatcherAt} (sole : ∀ v, v ≠ w → ¬ s.Holds v)
      (claim : pc.holds = true ∨ pc.recovers = true → folder.resuming = true)
      (named : pc.holds = true → pc ≠ .renamed → folder.pid = .of w) :
      Moves s w (s.change w folder pc)
  | dies : Moves s w { s with alive := Function.update s.alive w false }
  | torn {folder : RunFolder} (sole : ∀ v, v ≠ w → ¬ s.Holds v) :
      Moves s w { s.change w folder .idle with alive := Function.update s.alive w false }

theorem Moves.kept (moves : Moves s w s') (kept : s.Kept) : s'.Kept := by
  cases moves with
  | quiet le plain claimed behind => exact kept.quiet le plain claimed behind
  | change sole claim named => exact kept.change sole claim named
  | dies => exact kept.dies
  | torn sole =>
      exact Kept.dies (kept.change sole (by simp [WatcherAt.holds, WatcherAt.recovers])
        (by simp [WatcherAt.holds]))

/-- Whoever moves, the claim another watcher holds stays as it is. -/
theorem Moves.untouched (moves : Moves s w s') (apart : other ≠ w) (holds : s.Holds other) :
    s'.folder = s.folder := by
  cases moves with
  | change sole _ _ => exact absurd holds (sole other apart)
  | torn sole => exact absurd holds (sole other apart)
  | _ => rfl

/-- A watcher that finds itself too late drops out. -/
theorem Moves.idles (kept : s.Kept) : Moves s w (s.move w .idle) := by
  rw [s.move_eq]
  exact .quiet (kept.seen_le w) rfl (by simp [WatcherAt.recovers]) fun _ _ _ => .inl rfl

/-- A step that begins where the watcher holds the claim changes the folder as its holder. -/
theorem Moves.own (kept : s.Kept) (holds : s.Holds w) {folder : RunFolder} {pc : WatcherAt}
    (claim : pc.holds = true ∨ pc.recovers = true → folder.resuming = true)
    (named : pc.holds = true → pc ≠ .renamed → folder.pid = .of w) :
    Moves s w (s.change w folder pc) :=
  .change (fun _ apart holds' => apart (kept.one holds holds')) claim named

theorem Moves.die (kept : s.Kept) (alive : s.alive w = true) (tear : Bool)
    (fresh : tear = true → s.pc w = .superseded → s.tears w = true → s.Fresh w) :
    Moves s w (s.die w tear) := by
  unfold Watchers.die
  split
  · next torn =>
      simp only [Bool.and_eq_true] at torn
      obtain ⟨tears, at_⟩ := torn
      refine .torn ?_
      cases pc : s.pc w <;> simp only [Watchers.tears, pc, Bool.false_eq_true] at at_
      · exact kept.sole alive (by simp [Rests, pc])
          (fresh tears pc (by simp [Watchers.tears, pc, at_]))
      · exact fun v apart holds => apart (kept.one ⟨alive, by simp [pc, WatcherAt.holds]⟩ holds)
      · exact fun v apart holds => apart (kept.one ⟨alive, by simp [pc, WatcherAt.holds]⟩ holds)
  · exact .dies

theorem Kept.moves (kept : s.Kept) (undisturbed : s.Undisturbed w act)
    (stepped : s.step w act = some s') : Moves s w s' := by
  unfold Watchers.step at stepped
  simp only at stepped
  split at stepped
  · cases stepped
  next alive =>
  have alive : s.alive w = true := by simpa using alive
  split at stepped
  · next pc =>
      -- a scan acts on nothing, and finds no sentinel due while the claim is held
      cases stepped
      split
      · next again =>
          simp only [Bool.and_eq_true] at again
          exact Moves.quiet (Nat.le_refl _) rfl (fun _ _ => again.1.2) fun _ _ _ => .inr (.inl rfl)
      · split
        · next due =>
            refine Moves.quiet (Nat.le_refl _) rfl (by simp [WatcherAt.recovers]) fun v _ holds => ?_
            simp [kept.resuming v holds] at due
        · exact Moves.quiet (Nat.le_refl _) rfl (by simp [WatcherAt.recovers])
            fun _ _ _ => .inl rfl
  · next overAge pc =>
      cases stepped
      split
      · next abandoned =>
          obtain ⟨fresh, written⟩ := undisturbed abandoned
          have resuming := kept.claimed w alive (by simp [pc, WatcherAt.recovers]) fresh
          exact Moves.quiet (Nat.le_refl _) rfl (fun _ _ => resuming) fun v _ holds =>
            absurd holds (kept.not_held abandoned written v)
      · exact Moves.quiet (Nat.le_refl _) rfl (by simp [WatcherAt.recovers])
          fun _ _ _ => .inl rfl
  · next pc =>
      cases stepped
      have busy : ¬ s.Rests w := by simp [Rests, pc]
      have recovers : (s.pc w).recovers = true := by simp [pc, WatcherAt.recovers]
      split
      · rw [s.move_eq]
        refine Moves.quiet (kept.seen_le w) rfl (fun _ => kept.claimed w alive recovers)
          fun v apart holds => .inr (.inr ?_)
        exact (kept.alone v w holds apart.symm alive).resolve_left busy
      · next here =>
          exact Moves.change (kept.sole alive busy (undisturbed here))
            (fun _ => kept.claimed w alive recovers (undisturbed here))
            (by simp [WatcherAt.holds])
  · next pc =>
      cases stepped
      have recovers : (s.pc w).recovers = true := by simp [pc, WatcherAt.recovers]
      split
      · next none =>
          exact Moves.change (kept.sole alive (by simp [Rests, pc]) (undisturbed none))
            (fun _ => kept.claimed w alive recovers (undisturbed none)) (fun _ _ => rfl)
      · exact Moves.idles kept
  · next pc =>
      cases stepped
      have holds : s.Holds w := ⟨alive, by simp [pc, WatcherAt.holds]⟩
      exact Moves.own kept holds (fun _ => kept.resuming w holds)
        (fun _ _ => kept.sidecar w holds (by simp [pc]))
  · next pc =>
      cases stepped
      split
      · next here =>
          exact Moves.change (kept.sole alive (by simp [Rests, pc]) (undisturbed here))
            (fun _ => rfl) (fun _ named => absurd rfl named)
      · exact Moves.idles kept
  · next lands pc =>
      cases stepped
      have holds : s.Holds w := ⟨alive, by simp [pc, WatcherAt.holds]⟩
      refine Moves.own kept holds (fun _ => ?_) (fun _ _ => ?_)
      · split <;> exact kept.resuming w holds
      · split
        · rfl
        · exact kept.sidecar w holds (by simp [pc])
  · next lands pc =>
      cases stepped
      have holds : s.Holds w := ⟨alive, by simp [pc, WatcherAt.holds]⟩
      have lands : lands = true := undisturbed pc
      subst lands
      exact Moves.own kept holds (fun _ => kept.resuming w holds) (fun _ _ => rfl)
  · next pc =>
      cases stepped
      have holds : s.Holds w := ⟨alive, by simp [pc, WatcherAt.holds]⟩
      exact Moves.own kept holds (fun _ => kept.resuming w holds)
        (fun _ _ => kept.sidecar w holds (by simp [pc]))
  · next pc =>
      cases stepped
      exact Moves.own kept ⟨alive, by simp [pc, WatcherAt.holds]⟩
        (by simp [WatcherAt.holds, WatcherAt.recovers]) (by simp [WatcherAt.holds])
  · next pc =>
      cases stepped
      exact Moves.own kept ⟨alive, by simp [pc, WatcherAt.holds]⟩
        (by simp [WatcherAt.holds, WatcherAt.recovers]) (by simp [WatcherAt.holds])
  · next pc =>
      cases stepped
      exact Moves.change (kept.sole alive (by simp [Rests, pc]) undisturbed)
        (by simp [WatcherAt.holds, WatcherAt.recovers]) (by simp [WatcherAt.holds])
  · cases stepped
    exact Moves.die kept alive _ undisturbed
  · cases stepped

/-- What a run folder promises its watchers. -/
structure OneDriver (s : Watchers) : Prop where
  /-- no two live watchers hold the claim -/
  one : ∀ w other, s.Holds w → s.Holds other → other = w
  /-- nobody renames away, overwrites or removes the claim of another live watcher -/
  untouched : ∀ w act s' other, s.Undisturbed w act → s.step w act = some s' →
    other ≠ w → s.Holds other → s'.folder = s.folder

/-- In every run no change of the folder comes between a watcher's look and its act on
it, at most one live watcher drives the run. -/
theorem one_live_watcher (reached : Reaches Start UndisturbedStep s) : s.OneDriver := by
  have kept : s.Kept := by
    refine reached.invariant (fun _ start => Kept.start start) ?_
    rintro t t' kept ⟨w, act, undisturbed, stepped⟩
    exact (kept.moves undisturbed stepped).kept kept
  refine ⟨fun w other holds holds' => kept.one holds holds', ?_⟩
  intro w act s' other undisturbed stepped apart holds
  exact (kept.moves undisturbed stepped).untouched apart holds

/-- A folder whose claim a dead watcher left, before anyone looks. -/
def abandonedClaim : Watchers where
  folder := { postponed := false, resuming := true, pid := .of 0 }
  pc _ := .idle
  alive w := w != 0

/-- Several watchers' steps in turn, none where a step is not theirs to take. -/
def runActs (s : Watchers) (acts : List (Pid × WatcherAct)) : Option Watchers :=
  acts.foldlM (fun s act => s.step act.1 act.2) s

/-- A watcher finds the claim abandoned twice, moves the dead watcher's id out of the way, and
takes the claim. -/
theorem one_live_watcher_abandonedClaim :
    ∃ s, abandonedClaim.runActs [(1, .scan false true), (1, .recheck false), (1, .supersede),
        (1, .create), (1, .clear), (1, .write true)] = some s ∧ s.Holds 1 ∧ s.OneDriver := by
  refine ⟨_, rfl, by decide, one_live_watcher (.follow (s := abandonedClaim)
    (.start fun _ => ⟨rfl, Nat.le_refl _⟩) ?_)⟩
  refine .head ⟨1, .scan false true, trivial, rfl⟩ <| .head ⟨1, .recheck false, ?_, rfl⟩ <|
    .head ⟨1, .supersede, fun _ => rfl, rfl⟩ <| .head ⟨1, .create, fun _ => rfl, rfl⟩ <|
    .head ⟨1, .clear, trivial, rfl⟩ <| .head ⟨1, .write true, ?_, rfl⟩ .refl
  · refine fun _ => ⟨rfl, fun w _ renamed => ?_⟩
    change (abandonedClaim.look 1 .dueAgain).pc w = .renamed at renamed
    by_cases own : w = 1
    · subst own
      cases renamed
    · simp [look, own, abandonedClaim] at renamed
  · exact fun _ => rfl

/-- Two watchers read a dead watcher's claim as abandoned. One takes it, then the other
moves the new id out of the way and takes it too. -/
theorem both_watchers_drive :
    ∃ acts s, abandonedClaim.runActs acts = some s ∧ s.Holds 1 ∧ s.Holds 2 :=
  ⟨[(1, .scan false true), (2, .scan false true), (1, .recheck false), (2, .recheck false),
      (1, .supersede), (1, .create), (2, .supersede), (2, .create)], _, rfl,
    by decide, by decide⟩

end Watchers

end Clearotron
