import Mathlib.Data.List.Perm.Subperm
import Mathlib.Data.List.Nodup
import Mathlib.Logic.Function.Basic
import Clearotron.Library.Reaches

/-!
# The slot lock

Processes that share a folder take one of `cap` slots each, a slot being a file created
exclusively. Before it tries, a process reads every slot file there is: it counts the
live holders, notes whether one carries its own tag, and removes the slots of dead
holders, each under a mutex file of its own.

A caller is one call that wants a slot, or only wants to count; several may belong to one
process, and they all die with it. Each file operation is one step. `created` counts the
slots created under a tag, and `seen` what a caller's count was when it listed the
folder; neither is in the code, they say which interleaving a run is.
-/

namespace Clearotron

abbrev Caller := Nat

/-- Who calls, and how. -/
structure SlotUse where
  cap : Nat
  /-- no slot file has a number as high as this -/
  bound : Nat
  within : cap ≤ bound
  process : Caller → Nat
  tag : Caller → Option String
  /-- it wants a slot, and not only to know how many are free -/
  acquires : Caller → Bool

/-- A census under way: the slot files still to be read, and what was read so far. -/
structure Census where
  todo : List Nat
  live : Nat := 0
  tagHeld : Bool := false
  deriving DecidableEq, Repr

inductive SlotAt
  | idle
  | census (c : Census)
  /-- slot `i` was read as dead: about to create its mutex -/
  | locking (i : Nat) (c : Census)
  /-- the mutex was there -/
  | blocked (i : Nat) (c : Census)
  /-- the mutex was read as a dead process's -/
  | clearing (i : Nat) (c : Census)
  /-- the mutex is this caller's: about to read the slot again -/
  | verifying (i : Nat) (c : Census)
  | removing (i : Nat) (c : Census)
  | unlocking (i : Nat) (c : Census)
  /-- about to create slot `i`, or the next one that is free -/
  | creating (i : Nat)
  | holding (i : Nat)
  /-- read its own token in its slot: about to remove it -/
  | releasing (i : Nat)
  deriving DecidableEq, Repr

namespace SlotAt

/-- The slot the caller has. -/
def slot? : SlotAt → Option Nat
  | holding i | releasing i => some i
  | _ => none

/-- The slot whose mutex the caller has. -/
def locked? : SlotAt → Option Nat
  | verifying i _ | removing i _ | unlocking i _ => some i
  | _ => none

/-- The slot the caller is about to remove as a dead holder's. -/
def removing? : SlotAt → Option Nat
  | removing i _ => some i
  | _ => none

/-- The census has read slot `i` as held under the caller's tag, or is yet to read it. -/
def Covers (pc : SlotAt) (i : Nat) : Prop :=
  match pc with
  | census c | locking _ c | blocked _ c | clearing _ c | verifying _ c | removing _ c
  | unlocking _ c => i ∈ c.todo ∨ c.tagHeld = true
  | creating _ => False
  | idle | holding _ | releasing _ => True

end SlotAt

structure SlotFolder where
  slots : Nat → Option Caller
  mutex : Nat → Option Caller := fun _ => none
  pc : Caller → SlotAt := fun _ => .idle
  dead : Nat → Bool := fun _ => false
  created : String → Nat := fun _ => 0
  seen : Caller → Nat := fun _ => 0

inductive SlotAct
  | list (names : List Nat)
  | read
  | lock
  | readMutex
  | clear
  | verify
  | remove
  | unlock
  | decide
  | create
  | readOwn
  | release
  deriving DecidableEq, Repr

namespace SlotFolder

variable (U : SlotUse)

/-- Is the caller's process alive? -/
def alive (s : SlotFolder) (a : Caller) : Bool :=
  !s.dead (U.process a)

def tagCount (s : SlotFolder) (a : Caller) : Nat :=
  match U.tag a with
  | none => 0
  | some t => s.created t

def go (s : SlotFolder) (a : Caller) (pc : SlotAt) : SlotFolder :=
  { s with pc := Function.update s.pc a pc }

def setSlot (s : SlotFolder) (i : Nat) (content : Option Caller) : SlotFolder :=
  { s with slots := Function.update s.slots i content }

def setMutex (s : SlotFolder) (i : Nat) (content : Option Caller) : SlotFolder :=
  { s with mutex := Function.update s.mutex i content }

/-- A slot read in a census: a live holder is counted, a dead one's slot is to be removed. -/
def readSlot (s : SlotFolder) (a : Caller) (i : Nat) (c : Census) : SlotAt :=
  match s.slots i with
  | none => .census c
  | some h =>
    if s.alive U h then
      .census { c with
        live := c.live + 1
        tagHeld := c.tagHeld || (U.tag a).isSome && U.tag h == U.tag a }
    else .locking i c

/-- One file operation of one caller. -/
def step (s : SlotFolder) (a : Caller) (act : SlotAct) : Option SlotFolder :=
  if !s.alive U a then none
  else match act, s.pc a with
  | .list names, .idle =>
    if ∀ i < U.bound, (s.slots i).isSome → i ∈ names then
      some { s.go a (.census { todo := names }) with
        seen := Function.update s.seen a (s.tagCount U a) }
    else none
  | .read, .census ⟨i :: todo, live, tagHeld⟩ =>
    some (s.go a (s.readSlot U a i ⟨todo, live, tagHeld⟩))
  | .lock, .locking i c =>
    some <|
      if s.mutex i = none then (s.setMutex i (some a)).go a (.verifying i c)
      else s.go a (.blocked i c)
  | .readMutex, .blocked i c =>
    some <| match s.mutex i with
      | none => s.go a (.census c)
      | some m => if s.alive U m then s.go a (.census c) else s.go a (.clearing i c)
  | .clear, .clearing i c => some ((s.setMutex i none).go a (.census c))
  | .verify, .verifying i c =>
    some <| match s.slots i with
      | none => s.go a (.unlocking i c)
      | some h => if s.alive U h then s.go a (.unlocking i c) else s.go a (.removing i c)
  | .remove, .removing i c => some ((s.setSlot i none).go a (.unlocking i c))
  | .unlock, .unlocking i c => some ((s.setMutex i none).go a (.census c))
  | .decide, .census ⟨[], live, tagHeld⟩ =>
    some <|
      if U.acquires a && live < U.cap && !tagHeld then s.go a (.creating 0) else s.go a .idle
  | .create, .creating i =>
    some <|
      if U.cap ≤ i then s.go a .idle
      else if s.slots i = none then
        { (s.setSlot i (some a)).go a (.holding i) with
          created := match U.tag a with
            | none => s.created
            | some t => Function.update s.created t (s.created t + 1) }
      else s.go a (.creating (i + 1))
  | .readOwn, .holding i =>
    some <| if s.slots i = some a then s.go a (.releasing i) else s.go a .idle
  | .release, .releasing i => some ((s.setSlot i none).go a .idle)
  | _, _ => none

/-- A process dies, and every caller in it. -/
def crash (s : SlotFolder) (process : Nat) : SlotFolder :=
  { s with dead := Function.update s.dead process true }

/-- The caller is alive and has slot `i`. -/
def Holds (s : SlotFolder) (a : Caller) (i : Nat) : Prop :=
  s.alive U a = true ∧ (s.pc a).slot? = some i

instance (s : SlotFolder) (a : Caller) (i : Nat) : Decidable (s.Holds U a i) :=
  inferInstanceAs (Decidable (_ ∧ _))

/-- No slot was created under the caller's tag since it listed the folder. -/
def Current (s : SlotFolder) (a : Caller) : Prop :=
  s.seen a = s.tagCount U a

/-- The interleavings that do no harm: a mutex removed as a dead process's is still that,
and a caller with a tag creates its slot on a census no slot of its tag was created after. -/
def Undisturbed (s : SlotFolder) (a : Caller) : SlotAct → Prop
  | .clear => ∀ i c m, s.pc a = .clearing i c → s.mutex i = some m → s.alive U m = false
  | .create => U.tag a ≠ none → s.Current U a
  | _ => True

inductive UndisturbedStep : SlotFolder → SlotFolder → Prop
  | act {s s' : SlotFolder} (a : Caller) (act : SlotAct) (undisturbed : s.Undisturbed U a act)
      (stepped : s.step U a act = some s') : UndisturbedStep s s'
  | crash {s : SlotFolder} (process : Nat) : UndisturbedStep s (s.crash process)

/-- Nobody has called yet; slots and mutexes of the dead may lie about. -/
def Start (s : SlotFolder) : Prop :=
  ∀ a, s.pc a = .idle ∧ s.seen a ≤ s.tagCount U a

/-- The files stand for what their owners believe, and a census misses no holder of its
tag unless one came after it. -/
structure Kept (s : SlotFolder) : Prop where
  slot : ∀ a i, s.Holds U a i → i < U.cap ∧ s.slots i = some a
  lock : ∀ a i, s.alive U a = true → (s.pc a).locked? = some i → s.mutex i = some a
  doomed : ∀ a i, s.alive U a = true → (s.pc a).removing? = some i →
    ∃ h, s.slots i = some h ∧ s.alive U h = false
  seen_le : ∀ a, s.seen a ≤ s.tagCount U a
  tags : ∀ a b i j, s.Holds U a i → s.Holds U b j → U.tag a ≠ none → U.tag b = U.tag a → b = a
  census : ∀ a b i, s.alive U a = true → s.Current U a → s.Holds U b i → U.tag a ≠ none →
    U.tag b = U.tag a → (s.pc a).Covers i

variable {U} {s s' : SlotFolder} {a b : Caller} {act : SlotAct} {i : Nat}

theorem not_holds_of_idle (idle : s.pc a = .idle) : ¬ s.Holds U a i := by
  rintro ⟨-, has⟩
  rw [idle] at has
  cases has

theorem Kept.start (start : s.Start U) : s.Kept U := by
  have nobody : ∀ a i, ¬ s.Holds U a i := fun a i => not_holds_of_idle (start a).1
  refine ⟨fun a i h => (nobody a i h).elim, ?_, ?_, fun a => (start a).2,
    fun a _ i _ h => (nobody a i h).elim, fun _ b i _ _ h => (nobody b i h).elim⟩
  · intro a i _ has
    rw [(start a).1] at has
    cases has
  · intro a i _ has
    rw [(start a).1] at has
    cases has

/-- The folder and one caller after a step that creates no slot. -/
def leave (s : SlotFolder) (a : Caller) (slots mutex : Nat → Option Caller) (pc : SlotAt)
    (seen : Nat) : SlotFolder :=
  { s with
    slots
    mutex
    pc := Function.update s.pc a pc
    seen := Function.update s.seen a seen }

/-- A step that creates no slot: what it changes concerns no other live caller. -/
theorem Kept.leaves (kept : s.Kept U) (alive : s.alive U a = true) {slots mutex : Nat → Option Caller}
    {pc : SlotAt} {seen : Nat}
    (slot : ∀ b i, b ≠ a → s.Holds U b i → slots i = s.slots i)
    (own : ∀ i, pc.slot? = some i → (s.pc a).slot? = some i ∧ slots i = s.slots i)
    (lock : ∀ b i, b ≠ a → s.alive U b = true → (s.pc b).locked? = some i → mutex i = s.mutex i)
    (ownLock : ∀ i, pc.locked? = some i → mutex i = some a)
    (doomed : ∀ b i, b ≠ a → s.alive U b = true → (s.pc b).removing? = some i →
      slots i = s.slots i)
    (ownDoomed : ∀ i, pc.removing? = some i → ∃ h, slots i = some h ∧ s.alive U h = false)
    (le : seen ≤ s.tagCount U a)
    (covers : ∀ b i, seen = s.tagCount U a → b ≠ a → s.Holds U b i → U.tag a ≠ none →
      U.tag b = U.tag a → pc.Covers i) :
    (s.leave a slots mutex pc seen).Kept U := by
  have held : ∀ b i, (s.leave a slots mutex pc seen).Holds U b i →
      s.Holds U b i ∧ slots i = s.slots i := by
    rintro b i ⟨lives, has⟩
    by_cases mine : b = a
    · subst mine
      obtain ⟨has', same⟩ := own i (by simpa [leave] using has)
      exact ⟨⟨lives, has'⟩, same⟩
    · have holds : s.Holds U b i := ⟨lives, by simpa [leave, mine] using has⟩
      exact ⟨holds, slot b i mine holds⟩
  constructor
  · intro b i holds
    obtain ⟨before, same⟩ := held b i holds
    exact ⟨(kept.slot b i before).1, same.trans (kept.slot b i before).2⟩
  · intro b i lives has
    by_cases mine : b = a
    · subst mine
      exact ownLock i (by simpa [leave] using has)
    · have has' : (s.pc b).locked? = some i := by simpa [leave, mine] using has
      exact (lock b i mine lives has').trans (kept.lock b i lives has')
  · intro b i lives has
    by_cases mine : b = a
    · subst mine
      exact ownDoomed i (by simpa [leave] using has)
    · have has' : (s.pc b).removing? = some i := by simpa [leave, mine] using has
      obtain ⟨h, content, gone⟩ := kept.doomed b i lives has'
      exact ⟨h, (doomed b i mine lives has').trans content, gone⟩
  · intro b
    by_cases mine : b = a
    · subst mine
      simpa [leave, tagCount] using le
    · simpa [leave, mine, tagCount] using kept.seen_le b
  · intro b b' i j holds holds' tagged same
    exact kept.tags b b' i j (held b i holds).1 (held b' j holds').1 tagged same
  · intro b b' i lives current holds tagged same
    have before := (held b' i holds).1
    by_cases mine : b = a
    · subst mine
      by_cases self : b' = b
      · subst self
        have has : pc.slot? = some i := by simpa [leave] using holds.2
        cases pc <;> simp_all [leave, SlotAt.slot?, SlotAt.Covers]
      · have covered := covers b' i (by simpa [leave, Current, tagCount] using current) self before tagged
          same
        simpa [leave] using covered
    · have covered := kept.census b b' i lives (by simpa [leave, Current, tagCount, mine] using current)
        before tagged same
      simpa [leave, mine] using covered

theorem go_eq (s : SlotFolder) (a : Caller) (pc : SlotAt) :
    s.go a pc = s.leave a s.slots s.mutex pc (s.seen a) := by
  simp [go, leave]

/-- A step that changes no file. -/
theorem Kept.goes (kept : s.Kept U) (alive : s.alive U a = true) {pc : SlotAt}
    (own : ∀ i, pc.slot? = some i → (s.pc a).slot? = some i)
    (ownLock : ∀ i, pc.locked? = some i → s.mutex i = some a)
    (ownDoomed : ∀ i, pc.removing? = some i → ∃ h, s.slots i = some h ∧ s.alive U h = false)
    (covers : ∀ b i, (s.pc a).Covers i → s.Holds U b i → U.tag a ≠ none → U.tag b = U.tag a →
      pc.Covers i) : (s.go a pc).Kept U := by
  rw [go_eq]
  refine kept.leaves alive (fun _ _ _ _ => rfl) (fun i has => ⟨own i has, rfl⟩)
    (fun _ _ _ _ _ => rfl) ownLock (fun _ _ _ _ _ => rfl) ownDoomed (kept.seen_le a) ?_
  intro b i current _ holds tagged same
  exact covers b i (kept.census a b i alive current holds tagged same) holds tagged same

/-- A step that changes no file, to where the caller has neither a slot nor a mutex. -/
theorem Kept.passes (kept : s.Kept U) (alive : s.alive U a = true) {pc : SlotAt}
    (slotless : pc.slot? = none) (unlocked : pc.locked? = none) (harmless : pc.removing? = none)
    (covers : ∀ j, (s.pc a).Covers j → pc.Covers j) : (s.go a pc).Kept U :=
  kept.goes alive (by simp [slotless]) (by simp [unlocked]) (by simp [harmless])
    fun _ j covered _ _ _ => covers j covered

/-- A step that creates or removes a mutex no other live caller relies on. -/
theorem Kept.setsMutex (kept : s.Kept U) (alive : s.alive U a = true) {content : Option Caller}
    {pc : SlotAt} (sole : ∀ b, b ≠ a → s.alive U b = true → (s.pc b).locked? ≠ some i)
    (slotless : pc.slot? = none) (harmless : pc.removing? = none)
    (ownLock : ∀ j, pc.locked? = some j → j = i ∧ content = some a)
    (covers : ∀ j, (s.pc a).Covers j → pc.Covers j) :
    ((s.setMutex i content).go a pc).Kept U := by
  have same : (s.setMutex i content).go a pc =
      s.leave a s.slots (Function.update s.mutex i content) pc (s.seen a) := by
    simp [setMutex, go, leave]
  rw [same]
  refine kept.leaves alive (fun _ _ _ _ => rfl) (by simp [slotless]) ?_ ?_ (fun _ _ _ _ _ => rfl)
    (by simp [harmless]) (kept.seen_le a) ?_
  · intro b j apart alive' has
    refine Function.update_of_ne ?_ _ _
    rintro rfl
    exact sole b apart alive' has
  · intro j has
    obtain ⟨rfl, rfl⟩ := ownLock j has
    simp
  · intro b j current _ holds tagged same
    exact covers j (kept.census a b j alive current holds tagged same)

/-- A step that removes a slot no other live caller has or is about to remove. -/
theorem Kept.removesSlot (kept : s.Kept U) (alive : s.alive U a = true) {pc : SlotAt}
    (sole : ∀ b, b ≠ a → ¬ s.Holds U b i)
    (undoomed : ∀ b, b ≠ a → s.alive U b = true → (s.pc b).removing? ≠ some i)
    (slotless : pc.slot? = none) (harmless : pc.removing? = none)
    (ownLock : ∀ j, pc.locked? = some j → (s.pc a).locked? = some j)
    (covers : ∀ j, (s.pc a).Covers j → pc.Covers j) :
    ((s.setSlot i none).go a pc).Kept U := by
  have same : (s.setSlot i none).go a pc =
      s.leave a (Function.update s.slots i none) s.mutex pc (s.seen a) := by
    simp [setSlot, go, leave]
  rw [same]
  refine kept.leaves alive ?_ (by simp [slotless]) (fun _ _ _ _ _ => rfl)
    (fun j has => kept.lock a j alive (ownLock j has)) ?_ (by simp [harmless]) (kept.seen_le a) ?_
  · intro b j apart holds
    refine Function.update_of_ne ?_ _ _
    rintro rfl
    exact sole b apart holds
  · intro b j apart alive' removing
    refine Function.update_of_ne ?_ _ _
    rintro rfl
    exact undoomed b apart alive' removing
  · intro b j current _ holds tagged same
    exact covers j (kept.census a b j alive current holds tagged same)

/-- Only the mutex's owner stands between creating and removing it. -/
theorem Kept.sole_lock (kept : s.Kept U) (alive : s.alive U a = true)
    (has : (s.pc a).locked? = some i) (alive' : s.alive U b = true)
    (has' : (s.pc b).locked? = some i) : b = a := by
  have own := kept.lock a i alive has
  rw [kept.lock b i alive' has'] at own
  exact Option.some.inj own

theorem locked_of_removing {pc : SlotAt} (removing : pc.removing? = some i) :
    pc.locked? = some i := by
  cases pc <;> simp_all [SlotAt.removing?, SlotAt.locked?]

/-- A process that dies leaves its files, and nobody relies on them to be its own. -/
theorem Kept.crash (kept : s.Kept U) (process : Nat) : (s.crash process).Kept U := by
  have alive_of : ∀ b, (s.crash process).alive U b = true → s.alive U b = true := by
    intro b lives
    by_cases here : U.process b = process
    · simp [SlotFolder.alive, SlotFolder.crash, here] at lives
    · simpa [SlotFolder.alive, SlotFolder.crash, here] using lives
  have dead_of : ∀ b, s.alive U b = false → (s.crash process).alive U b = false := by
    intro b gone
    by_cases here : U.process b = process
    · simp [SlotFolder.alive, SlotFolder.crash, here]
    · simpa [SlotFolder.alive, SlotFolder.crash, here] using gone
  have held : ∀ b i, (s.crash process).Holds U b i → s.Holds U b i :=
    fun b i ⟨lives, has⟩ => ⟨alive_of b lives, has⟩
  refine ⟨fun b i h => kept.slot b i (held b i h), fun b i lives => kept.lock b i (alive_of b lives),
    ?_, kept.seen_le, fun b b' i j h h' => kept.tags b b' i j (held b i h) (held b' j h'),
    fun b b' i lives current h => kept.census b b' i (alive_of b lives) current (held b' i h)⟩
  intro b i lives has
  obtain ⟨h, content, gone⟩ := kept.doomed b i (alive_of b lives) has
  exact ⟨h, content, dead_of h gone⟩

/-- Slot `i` created by a caller whose census is current, if it has a tag. -/
theorem Kept.creates (kept : s.Kept U) (alive : s.alive U a = true) (at_ : s.pc a = .creating i)
    (low : i < U.cap) (free : s.slots i = none) (current : U.tag a ≠ none → s.Current U a) :
    Kept U { (s.setSlot i (some a)).go a (.holding i) with
      created := match U.tag a with
        | none => s.created
        | some t => Function.update s.created t (s.created t + 1) } := by
  generalize next : ({ (s.setSlot i (some a)).go a (.holding i) with
      created := match U.tag a with
        | none => s.created
        | some t => Function.update s.created t (s.created t + 1) } : SlotFolder) = s'
  have slots : s'.slots = Function.update s.slots i (some a) := by subst next; rfl
  have mutex : s'.mutex = s.mutex := by subst next; rfl
  have pc : s'.pc = Function.update s.pc a (.holding i) := by subst next; rfl
  have seen : s'.seen = s.seen := by subst next; rfl
  have lives : ∀ b, s'.alive U b = s.alive U b := by subst next; exact fun _ => rfl
  have counts : ∀ b, s'.tagCount U b = s.tagCount U b +
      (if U.tag a ≠ none ∧ U.tag b = U.tag a then 1 else 0) := by
    intro b
    subst next
    cases tagA : U.tag a with
    | none => cases tagB : U.tag b <;> simp [tagCount, tagB]
    | some t =>
        cases tagB : U.tag b with
        | none => simp [tagCount, tagB]
        | some t' =>
            by_cases same : t' = t
            · subst same
              simp [tagCount, tagB]
            · simp [tagCount, tagB, same]
  have elsewhere : ∀ b j, s.Holds U b j → j ≠ i := by
    rintro b j holds rfl
    have content := (kept.slot b j holds).2
    rw [free] at content
    cases content
  have held : ∀ b j, s'.Holds U b j → b = a ∧ j = i ∨ b ≠ a ∧ s.Holds U b j := by
    rintro b j ⟨alive', has⟩
    rw [pc] at has
    by_cases mine : b = a
    · subst mine
      exact .inl ⟨rfl, by simpa [SlotAt.slot?, eq_comm] using has⟩
    · exact .inr ⟨mine, (lives b) ▸ alive', by simpa [mine] using has⟩
  -- the caller saw no holder of its tag, and none has come since
  have alone : ∀ b j, U.tag a ≠ none → U.tag b = U.tag a → ¬ s.Holds U b j := by
    intro b j tagged same holds
    have covered := kept.census a b j alive (current tagged) holds tagged same
    rw [at_] at covered
    exact covered
  constructor
  · intro b j holds
    obtain ⟨rfl, rfl⟩ | ⟨-, before⟩ := held b j holds
    · exact ⟨low, by simp [slots]⟩
    · refine ⟨(kept.slot b j before).1, ?_⟩
      rw [slots, Function.update_of_ne (elsewhere b j before)]
      exact (kept.slot b j before).2
  · intro b j alive' has
    rw [pc] at has
    rw [mutex]
    by_cases mine : b = a
    · subst mine
      simp [SlotAt.locked?] at has
    · exact kept.lock b j ((lives b) ▸ alive') (by simpa [mine] using has)
  · intro b j alive' has
    rw [pc] at has
    by_cases mine : b = a
    · subst mine
      simp [SlotAt.removing?] at has
    · obtain ⟨h, content, gone⟩ :=
        kept.doomed b j ((lives b) ▸ alive') (by simpa [mine] using has)
      have apart : j ≠ i := by
        rintro rfl
        rw [free] at content
        cases content
      exact ⟨h, by rw [slots, Function.update_of_ne apart, content], by rw [lives, gone]⟩
  · intro b
    have before := kept.seen_le b
    rw [seen, counts]
    omega
  · intro b b' j j' holds holds' tagged same
    obtain ⟨rfl, -⟩ | ⟨-, before⟩ := held b j holds
    · obtain ⟨rfl, -⟩ | ⟨-, before'⟩ := held b' j' holds'
      · rfl
      · exact absurd before' (alone b' j' tagged same)
    · obtain ⟨rfl, -⟩ | ⟨-, before'⟩ := held b' j' holds'
      · exact absurd before (alone b j (same ▸ tagged) same.symm)
      · exact kept.tags b b' j j' before before' tagged same
  · intro b b' j alive' fresh holds tagged same
    have before := kept.seen_le b
    have fresh' : s.seen b = s.tagCount U b +
        (if U.tag a ≠ none ∧ U.tag b = U.tag a then 1 else 0) := by
      rw [← counts b, ← seen]
      exact fresh
    by_cases mine : b = a
    · subst mine
      rw [pc]
      simp [SlotAt.Covers]
    · have other : ¬ (U.tag a ≠ none ∧ U.tag b = U.tag a) := by
        intro both
        simp only [both, ne_eq, not_false_eq_true, and_self, if_true] at fresh'
        omega
      obtain ⟨rfl, -⟩ | ⟨-, holds'⟩ := held b' j holds
      · exact absurd ⟨same ▸ tagged, same.symm⟩ other
      · simp only [other, if_false, Nat.add_zero] at fresh'
        have covered := kept.census b b' j ((lives b) ▸ alive') fresh' holds' tagged same
        rw [pc]
        simpa [mine] using covered

/-- The listing names every slot a live holder has. -/
theorem Kept.list (kept : s.Kept U) (alive : s.alive U a = true) {names : List Nat}
    (whole : ∀ i < U.bound, (s.slots i).isSome → i ∈ names) :
    Kept U { s.go a (.census { todo := names }) with
      seen := Function.update s.seen a (s.tagCount U a) } := by
  refine kept.leaves alive (fun _ _ _ _ => rfl) (by simp [SlotAt.slot?])
    (fun _ _ _ _ _ => rfl) (by simp [SlotAt.locked?]) (fun _ _ _ _ _ => rfl)
    (by simp [SlotAt.removing?]) (Nat.le_refl _) ?_
  intro b i _ _ holds _ _
  obtain ⟨low, content⟩ := kept.slot b i holds
  exact .inl (whole i (Nat.lt_of_lt_of_le low U.within) (by simp [content]))

/-- A slot without a live holder is no slot the census has to cover. -/
theorem Kept.covers_rest (kept : s.Kept U) {todo : List Nat} {tagHeld : Bool} {j : Nat}
    (covered : j ∈ i :: todo ∨ tagHeld = true) (holds : s.Holds U b j)
    (empty : ∀ h, s.slots i = some h → s.alive U h = false) : j ∈ todo ∨ tagHeld = true := by
  obtain listed | held := covered
  · refine .inl ((List.mem_cons.mp listed).resolve_left ?_)
    rintro rfl
    have gone := empty b (kept.slot b j holds).2
    rw [holds.1] at gone
    cases gone
  · exact .inr held

/-- A live holder's slot is counted, and its tag noted. -/
theorem Kept.reads_live (kept : s.Kept U) (alive : s.alive U a = true) {todo : List Nat}
    {live : Nat} {tagHeld : Bool} (pc : s.pc a = .census ⟨i :: todo, live, tagHeld⟩) {h : Caller}
    (content : s.slots i = some h) :
    (s.go a (.census ⟨todo, live + 1,
      tagHeld || (U.tag a).isSome && U.tag h == U.tag a⟩)).Kept U := by
  refine kept.goes alive (by simp [SlotAt.slot?]) (by simp [SlotAt.locked?])
    (by simp [SlotAt.removing?]) fun b j covered holds tagged same => ?_
  rw [pc] at covered
  obtain listed | held := covered
  · obtain rfl | later := List.mem_cons.mp listed
    · have owner : h = b := by
        rw [(kept.slot b j holds).2] at content
        exact (Option.some.inj content).symm
      subst owner
      exact .inr (by simp [same, Option.isSome_iff_ne_none, tagged])
    · exact .inl later
  · exact .inr (by simp [show tagHeld = true from held])

theorem Kept.read (kept : s.Kept U) (alive : s.alive U a = true) {todo : List Nat} {live : Nat}
    {tagHeld : Bool} (pc : s.pc a = .census ⟨i :: todo, live, tagHeld⟩) :
    (s.go a (s.readSlot U a i ⟨todo, live, tagHeld⟩)).Kept U := by
  unfold readSlot
  cases content : s.slots i with
  | none =>
      refine kept.goes alive (by simp [SlotAt.slot?]) (by simp [SlotAt.locked?])
        (by simp [SlotAt.removing?]) fun b j covered holds _ _ => ?_
      rw [pc] at covered
      exact kept.covers_rest covered holds (by simp [content])
  | some h =>
      by_cases lives : s.alive U h = true
      · simp only [lives, if_true]
        exact kept.reads_live alive pc content
      · simp only [lives, Bool.false_eq_true, if_false]
        refine kept.goes alive (by simp [SlotAt.slot?]) (by simp [SlotAt.locked?])
          (by simp [SlotAt.removing?]) fun b j covered holds _ _ => ?_
        rw [pc] at covered
        exact kept.covers_rest covered holds (by simpa [content] using lives)

theorem Kept.locks (kept : s.Kept U) (alive : s.alive U a = true) {c : Census}
    (pc : s.pc a = .locking i c) :
    Kept U (if s.mutex i = none then (s.setMutex i (some a)).go a (.verifying i c)
      else s.go a (.blocked i c)) := by
  split
  · next free =>
      refine kept.setsMutex alive (fun b _ alive' has => ?_) rfl rfl ?_ ?_
      · rw [kept.lock b i alive' has] at free
        cases free
      · intro j has
        exact ⟨(Option.some.inj has).symm, rfl⟩
      · rw [pc]
        exact fun _ covered => covered
  · exact kept.passes alive rfl rfl rfl (by rw [pc]; exact fun _ covered => covered)

theorem Kept.readMutex (kept : s.Kept U) (alive : s.alive U a = true) {c : Census}
    (pc : s.pc a = .blocked i c) :
    Kept U (match s.mutex i with
      | none => s.go a (.census c)
      | some m => if s.alive U m then s.go a (.census c) else s.go a (.clearing i c)) := by
  have covers : ∀ j, (s.pc a).Covers j → (SlotAt.census c).Covers j := by
    rw [pc]
    exact fun _ covered => covered
  split
  · exact kept.passes alive rfl rfl rfl covers
  · split
    · exact kept.passes alive rfl rfl rfl covers
    · exact kept.passes alive rfl rfl rfl covers

/-- A mutex removed as a dead process's, while it is still that. -/
theorem Kept.clears (kept : s.Kept U) (alive : s.alive U a = true) {c : Census}
    (pc : s.pc a = .clearing i c) (stale : ∀ m, s.mutex i = some m → s.alive U m = false) :
    ((s.setMutex i none).go a (.census c)).Kept U := by
  refine kept.setsMutex alive (fun b _ alive' has => ?_) rfl rfl (by simp [SlotAt.locked?]) ?_
  · rw [stale b (kept.lock b i alive' has)] at alive'
    cases alive'
  · rw [pc]
    exact fun _ covered => covered

/-- The slot read again under the mutex. -/
theorem Kept.verifies (kept : s.Kept U) (alive : s.alive U a = true) {c : Census}
    (pc : s.pc a = .verifying i c) :
    Kept U (match s.slots i with
      | none => s.go a (.unlocking i c)
      | some h => if s.alive U h then s.go a (.unlocking i c) else s.go a (.removing i c)) := by
  have own : s.mutex i = some a := kept.lock a i alive (by rw [pc]; rfl)
  have covers : ∀ j, (s.pc a).Covers j → (SlotAt.unlocking i c).Covers j := by
    rw [pc]
    exact fun _ covered => covered
  have unlocks : (s.go a (.unlocking i c)).Kept U := by
    refine kept.goes alive (by simp [SlotAt.slot?]) ?_ (by simp [SlotAt.removing?])
      fun _ j covered _ _ _ => covers j covered
    rintro j ⟨⟩
    exact own
  split
  · exact unlocks
  · next h content =>
      split
      · exact unlocks
      · next gone =>
          refine kept.goes alive (by simp [SlotAt.slot?]) ?_ ?_
            fun _ j covered _ _ _ => covers j covered
          · rintro j ⟨⟩
            exact own
          · rintro j ⟨⟩
            exact ⟨h, content, by simpa using gone⟩

/-- A dead holder's slot removed under the mutex: no live caller has it. -/
theorem Kept.removes (kept : s.Kept U) (alive : s.alive U a = true) {c : Census}
    (pc : s.pc a = .removing i c) : ((s.setSlot i none).go a (.unlocking i c)).Kept U := by
  have locked : (s.pc a).locked? = some i := by
    rw [pc]
    rfl
  obtain ⟨h, content, gone⟩ := kept.doomed a i alive (by rw [pc]; rfl)
  refine kept.removesSlot alive (fun b _ holds => ?_) (fun b apart alive' removing => ?_) rfl rfl
    ?_ ?_
  · have own := (kept.slot b i holds).2
    rw [content] at own
    cases own
    exact absurd holds.1 (by simp [gone])
  · exact apart (kept.sole_lock alive locked alive' (locked_of_removing removing))
  · rintro j ⟨⟩
    exact locked
  · rw [pc]
    exact fun _ covered => covered

theorem Kept.unlocks (kept : s.Kept U) (alive : s.alive U a = true) {c : Census}
    (pc : s.pc a = .unlocking i c) : ((s.setMutex i none).go a (.census c)).Kept U := by
  have locked : (s.pc a).locked? = some i := by
    rw [pc]
    rfl
  refine kept.setsMutex alive (fun b apart alive' has => ?_) rfl rfl (by simp [SlotAt.locked?]) ?_
  · exact apart (kept.sole_lock alive locked alive' has)
  · rw [pc]
    exact fun _ covered => covered

/-- A caller goes on to create a slot only where its census found none of its tag. -/
theorem Kept.decides (kept : s.Kept U) (alive : s.alive U a = true) {live : Nat} {tagHeld : Bool}
    (pc : s.pc a = .census ⟨[], live, tagHeld⟩) :
    Kept U (if U.acquires a && live < U.cap && !tagHeld then s.go a (.creating 0)
      else s.go a .idle) := by
  split
  · next admitted =>
      simp only [Bool.and_eq_true, Bool.not_eq_true'] at admitted
      refine kept.passes alive rfl rfl rfl ?_
      rw [pc]
      rintro j (listed | held)
      · cases listed
      · rw [admitted.2] at held
        cases held
  · exact kept.passes alive rfl rfl rfl fun _ _ => trivial

/-- The slots are tried in turn. -/
theorem Kept.triesSlot (kept : s.Kept U) (alive : s.alive U a = true) (pc : s.pc a = .creating i)
    (current : U.tag a ≠ none → s.Current U a) :
    Kept U (if U.cap ≤ i then s.go a .idle
      else if s.slots i = none then
        { (s.setSlot i (some a)).go a (.holding i) with
          created := match U.tag a with
            | none => s.created
            | some t => Function.update s.created t (s.created t + 1) }
      else s.go a (.creating (i + 1))) := by
  split
  · exact kept.passes alive rfl rfl rfl fun _ _ => trivial
  · next low =>
      split
      · next free => exact kept.creates alive pc (Nat.lt_of_not_le low) free current
      · refine kept.passes alive rfl rfl rfl ?_
        rw [pc]
        exact fun _ covered => covered

theorem Kept.readsOwn (kept : s.Kept U) (alive : s.alive U a = true) (pc : s.pc a = .holding i) :
    Kept U (if s.slots i = some a then s.go a (.releasing i) else s.go a .idle) := by
  split
  · refine kept.goes alive ?_ (by simp [SlotAt.locked?]) (by simp [SlotAt.removing?])
      fun _ _ _ _ _ _ => trivial
    rintro j ⟨⟩
    rw [pc]
    rfl
  · exact kept.passes alive rfl rfl rfl fun _ _ => trivial

/-- A caller removes its own slot, which nobody else has or is about to remove. -/
theorem Kept.releases (kept : s.Kept U) (alive : s.alive U a = true)
    (pc : s.pc a = .releasing i) : ((s.setSlot i none).go a .idle).Kept U := by
  have holds : s.Holds U a i := ⟨alive, by rw [pc]; rfl⟩
  have own := (kept.slot a i holds).2
  refine kept.removesSlot alive (fun b apart holds' => ?_) (fun b _ alive' removing => ?_) rfl
    rfl (by simp [SlotAt.locked?]) fun _ _ => trivial
  · have content := (kept.slot b i holds').2
    rw [own] at content
    exact apart (Option.some.inj content).symm
  · obtain ⟨h, content, gone⟩ := kept.doomed b i alive' removing
    rw [own] at content
    cases content
    rw [alive] at gone
    cases gone

theorem alive_of_step (stepped : s.step U a act = some s') : s.alive U a = true := by
  unfold SlotFolder.step at stepped
  split at stepped
  · cases stepped
  · next lives => simpa using lives

theorem Kept.step (kept : s.Kept U) (undisturbed : s.Undisturbed U a act)
    (stepped : s.step U a act = some s') : s'.Kept U := by
  have alive := alive_of_step stepped
  simp only [SlotFolder.step, alive, Bool.not_true, Bool.false_eq_true, if_false] at stepped
  cases act with
  | list names =>
      cases pc : s.pc a with
      | idle =>
          simp only [pc] at stepped
          split at stepped
          · next whole => exact Option.some.inj stepped ▸ kept.list alive whole
          · cases stepped
      | _ => simp [pc] at stepped
  | read =>
      cases pc : s.pc a with
      | census c =>
          obtain ⟨_ | ⟨i, todo⟩, live, tagHeld⟩ := c
          · simp [pc] at stepped
          · simp only [pc, Option.some.injEq] at stepped
            exact stepped ▸ kept.read alive pc
      | _ => simp [pc] at stepped
  | lock =>
      cases pc : s.pc a with
      | locking i c =>
          simp only [pc, Option.some.injEq] at stepped
          exact stepped ▸ kept.locks alive pc
      | _ => simp [pc] at stepped
  | readMutex =>
      cases pc : s.pc a with
      | blocked i c =>
          simp only [pc, Option.some.injEq] at stepped
          exact stepped ▸ kept.readMutex alive pc
      | _ => simp [pc] at stepped
  | clear =>
      cases pc : s.pc a with
      | clearing i c =>
          simp only [pc, Option.some.injEq] at stepped
          exact stepped ▸ kept.clears alive pc fun m => undisturbed i c m pc
      | _ => simp [pc] at stepped
  | verify =>
      cases pc : s.pc a with
      | verifying i c =>
          simp only [pc, Option.some.injEq] at stepped
          exact stepped ▸ kept.verifies alive pc
      | _ => simp [pc] at stepped
  | remove =>
      cases pc : s.pc a with
      | removing i c =>
          simp only [pc, Option.some.injEq] at stepped
          exact stepped ▸ kept.removes alive pc
      | _ => simp [pc] at stepped
  | unlock =>
      cases pc : s.pc a with
      | unlocking i c =>
          simp only [pc, Option.some.injEq] at stepped
          exact stepped ▸ kept.unlocks alive pc
      | _ => simp [pc] at stepped
  | decide =>
      cases pc : s.pc a with
      | census c =>
          obtain ⟨_ | ⟨i, todo⟩, live, tagHeld⟩ := c
          · simp only [pc, Option.some.injEq] at stepped
            exact stepped ▸ kept.decides alive pc
          · simp [pc] at stepped
      | _ => simp [pc] at stepped
  | create =>
      cases pc : s.pc a with
      | creating i =>
          simp only [pc, Option.some.injEq] at stepped
          exact stepped ▸ kept.triesSlot alive pc undisturbed
      | _ => simp [pc] at stepped
  | readOwn =>
      cases pc : s.pc a with
      | holding i =>
          simp only [pc, Option.some.injEq] at stepped
          exact stepped ▸ kept.readsOwn alive pc
      | _ => simp [pc] at stepped
  | release =>
      cases pc : s.pc a with
      | releasing i =>
          simp only [pc, Option.some.injEq] at stepped
          exact stepped ▸ kept.releases alive pc
      | _ => simp [pc] at stepped

/-- A step moves nobody but its caller. -/
theorem step_frame (stepped : s.step U a act = some s') :
    s'.dead = s.dead ∧ ∀ b, b ≠ a → s'.pc b = s.pc b := by
  unfold SlotFolder.step at stepped
  split at stepped
  · cases stepped
  · have frame : ∀ (t : SlotFolder) (pc : SlotAt), t.dead = s.dead → t.pc = s.pc →
        (t.go a pc).dead = s.dead ∧ ∀ b, b ≠ a → (t.go a pc).pc b = s.pc b := by
      intro t pc dead same
      refine ⟨dead, fun b apart => ?_⟩
      simp [go, apart, same]
    split at stepped <;> (try split at stepped) <;> cases stepped <;> (repeat' split) <;>
      exact frame _ _ rfl rfl

variable (U)

/-- What the slot folder promises. -/
structure Bounded (s : SlotFolder) : Prop where
  /-- there are never more live holders than slots -/
  cap : ∀ holders : List Caller, holders.Nodup → (∀ a ∈ holders, ∃ i, s.Holds U a i) →
    holders.length ≤ U.cap
  /-- a tag has one live holder at most -/
  tags : ∀ a b i j, s.Holds U a i → s.Holds U b j → U.tag a ≠ none → U.tag b = U.tag a → b = a
  /-- nobody removes the slot of another live holder -/
  own : ∀ a act s' b i, s.Undisturbed U a act → s.step U a act = some s' → b ≠ a →
    s.Holds U b i → s'.slots i = s.slots i

variable {U}

theorem Kept.holders_le (kept : s.Kept U) (holders : List Caller) (nodup : holders.Nodup)
    (hold : ∀ a ∈ holders, ∃ i, s.Holds U a i) : holders.length ≤ U.cap := by
  let slotOf : Caller → Nat := fun a => ((s.pc a).slot?).getD 0
  have holds : ∀ a ∈ holders, s.Holds U a (slotOf a) := by
    intro a mem
    obtain ⟨i, holds⟩ := hold a mem
    have same : slotOf a = i := by simp [slotOf, holds.2]
    exact same ▸ holds
  have distinct : (holders.map slotOf).Nodup := by
    refine List.Nodup.map_on (fun a here b there same => ?_) nodup
    have content := (kept.slot a _ (holds a here)).2
    rw [same, (kept.slot b _ (holds b there)).2] at content
    exact (Option.some.inj content).symm
  have low : holders.map slotOf ⊆ List.range U.cap := by
    intro i mem
    obtain ⟨a, here, rfl⟩ := List.mem_map.mp mem
    exact List.mem_range.mpr (kept.slot a _ (holds a here)).1
  have bound := (distinct.subperm low).length_le
  simpa using bound

/-- In every run no mutex of a live process is removed as a dead one's, and no slot of its
tag is created between a caller's census and its own slot, the slots bound the fleet. -/
theorem slots_bound_the_fleet (reached : Reaches (Start U) (UndisturbedStep U) s) :
    s.Bounded U := by
  have kept : s.Kept U := by
    refine reached.invariant (fun _ start => Kept.start start) ?_
    rintro t t' kept (⟨a, act, undisturbed, stepped⟩ | ⟨process⟩)
    · exact kept.step undisturbed stepped
    · exact kept.crash process
  refine ⟨kept.holders_le, kept.tags, ?_⟩
  intro a act s' b i undisturbed stepped apart holds
  obtain ⟨dead, others⟩ := step_frame stepped
  have holds' : s'.Holds U b i := by
    refine ⟨?_, ?_⟩
    · simpa [SlotFolder.alive, dead] using holds.1
    · rw [others b apart]
      exact holds.2
  rw [((kept.step undisturbed stepped).slot b i holds').2, (kept.slot b i holds).2]

/-- Several callers' steps in turn, none where a step is not theirs to take. -/
def runActs (U : SlotUse) (s : SlotFolder) (acts : List (Caller × SlotAct)) :
    Option SlotFolder :=
  acts.foldlM (fun s act => s.step U act.1 act.2) s

/-- Callers of a process each, who all want a slot. -/
def slotUse (cap : Nat) (tag : Option String) : SlotUse where
  cap
  bound := cap
  within := Nat.le_refl _
  process := id
  tag _ := tag
  acquires _ := true

/-- Slot 0 is a dead holder's, and so is the mutex a reclaimer left beside it. -/
def deadSlot : SlotFolder where
  slots i := if i = 0 then some 8 else none
  mutex i := if i = 0 then some 9 else none
  dead process := process = 8 ∨ process = 9

/-- The steps of one caller, in order. -/
def stepsOf (a : Caller) (acts : List SlotAct) : List (Caller × SlotAct) :=
  acts.map fun act => (a, act)

/-- A caller removes the dead reclaimer's mutex and finds no slot free; it reads the folder
again, removes the dead holder's slot under a mutex of its own, and takes that slot. -/
theorem slots_bound_the_fleet_deadSlot :
    ∃ s, deadSlot.runActs (slotUse 1 none) (stepsOf 1 [.list [0], .read, .lock, .readMutex, .clear,
        .decide, .create, .create, .list [0], .read, .lock, .verify, .remove, .unlock, .decide,
        .create]) = some s ∧
      s.Holds (slotUse 1 none) 1 0 ∧ s.Bounded (slotUse 1 none) := by
  refine ⟨_, rfl, by decide, slots_bound_the_fleet (.follow (s := deadSlot)
    (.start fun _ => ⟨rfl, Nat.le_refl _⟩) ?_)⟩
  refine .head (.act 1 (.list [0]) trivial rfl) <| .head (.act 1 .read trivial rfl) <|
    .head (.act 1 .lock trivial rfl) <| .head (.act 1 .readMutex trivial rfl) <|
    .head (.act 1 .clear ?_ rfl) <| .head (.act 1 .decide trivial rfl) <|
    .head (.act 1 .create ?_ rfl) <| .head (.act 1 .create ?_ rfl) <|
    .head (.act 1 (.list [0]) trivial rfl) <| .head (.act 1 .read trivial rfl) <|
    .head (.act 1 .lock trivial rfl) <| .head (.act 1 .verify trivial rfl) <|
    .head (.act 1 .remove trivial rfl) <| .head (.act 1 .unlock trivial rfl) <|
    .head (.act 1 .decide trivial rfl) <| .head (.act 1 .create ?_ rfl) .refl
  · -- the mutex is the dead process 9's
    rintro _ _ _ ⟨⟩ ⟨⟩
    rfl
  all_goals exact fun tagged => absurd rfl tagged

/-- Two callers read a crashed reclaimer's mutex as dead. One removes it and takes the mutex
anew, then the other removes that one too; both are now to remove the dead slot, and the
second removes the slot the first has created since: two hold the one slot there is. And
two callers of one tag who both list the folder before either creates a slot both get one. -/
theorem slots_overrun :
    (∃ acts s, deadSlot.runActs (slotUse 1 none) acts = some s ∧
      s.Holds (slotUse 1 none) 1 0 ∧ s.Holds (slotUse 1 none) 2 0) ∧
    (∃ acts s, runActs (slotUse 2 (some "agent")) { slots := fun _ => none } acts = some s ∧
      s.Holds (slotUse 2 (some "agent")) 1 0 ∧ s.Holds (slotUse 2 (some "agent")) 2 1) := by
  constructor
  · refine ⟨stepsOf 1 [.list [0], .read, .lock, .readMutex] ++
      stepsOf 2 [.list [0], .read, .lock, .readMutex] ++
      stepsOf 1 [.clear, .decide, .create, .create, .list [0], .read, .lock, .verify] ++
      stepsOf 2 [.clear, .decide, .create, .create, .list [0], .read, .lock, .verify] ++
      stepsOf 1 [.remove, .unlock, .decide, .create] ++
      stepsOf 2 [.remove, .unlock, .decide, .create], _, rfl, ?_, ?_⟩ <;> decide
  · refine ⟨stepsOf 1 [.list []] ++ stepsOf 2 [.list []] ++ stepsOf 1 [.decide, .create] ++
      stepsOf 2 [.decide, .create, .create], _, rfl, ?_, ?_⟩ <;> decide

end SlotFolder

end Clearotron
