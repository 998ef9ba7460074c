import Mathlib.Data.List.Nodup
import Clearotron.WhatIf.Queue

/-!
# Runs of the what-if queue

A claim keeps the time its job was queued, a takeover renames nothing, and a terminal record
is written before the claim is set aside. So a worker may take a job from one who has just
claimed it, two may take it at once, and a job may be executed after it was answered. Nothing
of this happens while every step is sound: then each job has one worker until its claim is
old, and one answer, which is read.
-/

namespace Clearotron

namespace WhatIfQueue

variable {s s' : WhatIfQueue} {w : ℕ} {id : WhatIfId}

/-- The step does not meet one of the queue's gaps: no id is minted twice, an old claim is
taken while it is the one that was listed, is as old as it looks and has no answer, a job is
answered once, and no one reads between an answer and the retiring of its claim. -/
def Sound (s : WhatIfQueue) : WhatIfAct → Prop
  | .enqueue id _ =>
    (s.files id).json = none ∧ (s.files id).processing = none ∧ (s.files id).terminal = false
  | .claim _ e =>
    e.stale = true →
      (s.files e.id).processing.isSome = true ∧ s.claims e.id = e.claims ∧
        s.lastClaim e.id + staleClaimMs < s.now ∧ (s.files e.id).terminal = false
  | .finish w _ _ _ => ∀ job ∈ s.executing w, (s.files job.1).terminal = false
  | .read id =>
    (s.files id).terminal = true →
      (s.files id).json = none ∧ (s.files id).processing = none
  | _ => True

instance : ∀ a, Decidable (s.Sound a)
  | .tick _ | .list .. | .retire _ | .crash _ => .isTrue trivial
  | .enqueue id _ =>
    inferInstanceAs (Decidable ((s.files id).json = none ∧ (s.files id).processing = none ∧
      (s.files id).terminal = false))
  | .claim _ e =>
    inferInstanceAs (Decidable (e.stale = true →
      (s.files e.id).processing.isSome = true ∧ s.claims e.id = e.claims ∧
        s.lastClaim e.id + staleClaimMs < s.now ∧ (s.files e.id).terminal = false))
  | .finish w _ _ _ =>
    inferInstanceAs (Decidable (∀ job ∈ s.executing w, (s.files job.1).terminal = false))
  | .read id =>
    inferInstanceAs (Decidable ((s.files id).terminal = true →
      (s.files id).json = none ∧ (s.files id).processing = none))

/-- One sound step. -/
def SoundStep (s s' : WhatIfQueue) : Prop := ∃ a, s.Sound a ∧ s.step a = some s'

/-- The worker is at this job. -/
def At (s : WhatIfQueue) (w : ℕ) (id : WhatIfId) : Prop :=
  (∃ since, s.executing w = some (id, since)) ∨ (s.workers w).pc = .retiring id

/-- What the folder and its workers agree on, of one job. -/
structure JobKept (s : WhatIfQueue) (id : WhatIfId) : Prop where
  queued : (s.files id).json.isSome = true →
    (s.files id).processing = none ∧ (s.files id).terminal = false
  answered : (s.files id).done = none ∨ (s.files id).failed = none
  held : ∀ w, s.At w id → (s.files id).json = none ∧
    ((s.files id).processing.isSome = true ∨ (s.files id).terminal = true)
  retires : ∀ w, (s.workers w).pc = .retiring id → (s.files id).terminal = true
  since : ∀ w t, s.executing w = some (id, t) → t ≤ s.lastClaim id
  apart : ∀ w w' t t', w ≠ w' → s.executing w = some (id, t) → s.executing w' = some (id, t') →
    t + staleClaimMs < t' ∨ t' + staleClaimMs < t
  past : s.lastClaim id ≤ s.now
  waits : s.enqueued id = true → (s.files id).json.isSome = true ∨
    (s.files id).processing.isSome = true ∨ (s.files id).terminal = true
  taken : ∀ g, (id, g) ∈ s.takenOver → g < s.claims id

/-- What holds of the folder and its workers along a sound run. -/
structure Kept (s : WhatIfQueue) : Prop where
  job : ∀ id, s.JobKept id
  once : s.takenOver.Nodup

/-- A step that does not touch the job, but that some worker may leave it. -/
structure Leaves (s s' : WhatIfQueue) (id : WhatIfId) : Prop where
  files : s'.files id = s.files id
  enqueued : s'.enqueued id = s.enqueued id
  lastClaim : s'.lastClaim id = s.lastClaim id
  claims : s'.claims id = s.claims id
  taken : ∀ g, (id, g) ∈ s'.takenOver → (id, g) ∈ s.takenOver
  executing : ∀ w t, s'.executing w = some (id, t) → s.executing w = some (id, t)
  retiring : ∀ w, (s'.workers w).pc = .retiring id → (s.workers w).pc = .retiring id
  now : s.now ≤ s'.now

namespace JobKept

theorem of_leaves (kept : s.JobKept id) (leaves : Leaves s s' id) : s'.JobKept id := by
  have at' {w : ℕ} (here : s'.At w id) : s.At w id := by
    obtain ⟨t, runs⟩ | retires := here
    · exact .inl ⟨t, leaves.executing w t runs⟩
    · exact .inr (leaves.retiring w retires)
  constructor
  · rw [leaves.files]
    exact kept.queued
  · rw [leaves.files]
    exact kept.answered
  · intro w here
    rw [leaves.files]
    exact kept.held w (at' here)
  · intro w retires
    rw [leaves.files]
    exact kept.retires w (leaves.retiring w retires)
  · intro w t runs
    rw [leaves.lastClaim]
    exact kept.since w t (leaves.executing w t runs)
  · intro w w' t t' ne runs runs'
    exact kept.apart w w' t t' ne (leaves.executing w t runs) (leaves.executing w' t' runs')
  · rw [leaves.lastClaim]
    exact kept.past.trans leaves.now
  · rw [leaves.enqueued, leaves.files]
    exact kept.waits
  · intro g old
    rw [leaves.claims]
    exact kept.taken g (leaves.taken g old)

end JobKept

section Fields

variable {f : JobFiles} {pc : WorkerAt} {op : WhatIfOp}

@[simp] theorem setFiles_files : (s.setFiles id f).files = Function.update s.files id f := rfl

@[simp] theorem go_files : (s.go w pc).files = s.files := rfl

@[simp] theorem go_workers :
    (s.go w pc).workers = Function.update s.workers w { s.workers w with pc } := rfl

theorem executing_congr {v : ℕ} (same : (s'.workers v).pc = (s.workers v).pc) :
    s'.executing v = s.executing v := by
  unfold executing
  rw [same]

theorem executing_eq_some {since : ℕ} :
    s.executing w = some (id, since) ↔ ∃ op, (s.workers w).pc = .executing id op since := by
  unfold executing
  cases (s.workers w).pc <;> simp

theorem retireClaim_workers : (s.retireClaim id).workers = s.workers := by
  unfold retireClaim
  split <;> rfl

theorem retireClaim_takenOver : (s.retireClaim id).takenOver = s.takenOver := by
  unfold retireClaim
  split <;> rfl

/-- One worker is replaced, and the others are where they were. -/
theorem pc_update (x : WhatIfWorker) (v : ℕ) :
    (Function.update s.workers w x v).pc = if v = w then x.pc else (s.workers v).pc := by
  by_cases same : v = w
  · simp [same]
  · simp [same]

theorem pc_go (v : ℕ) :
    ((s.go w pc).workers v).pc = if v = w then pc else (s.workers v).pc := pc_update _ v

/-- Whoever executes a job was at it before, or is the worker that was replaced. -/
theorem executing_update {x : WhatIfWorker} {v t : ℕ}
    (runs : executing { s with workers := Function.update s.workers w x } v = some (id, t)) :
    (v = w ∧ ∃ op, x.pc = .executing id op t) ∨ (v ≠ w ∧ s.executing v = some (id, t)) := by
  obtain ⟨op, at'⟩ := executing_eq_some.mp runs
  rw [pc_update] at at'
  split at at'
  · rename_i same
    exact .inl ⟨same, op, at'⟩
  · rename_i ne
    exact .inr ⟨ne, executing_eq_some.mpr ⟨op, at'⟩⟩

end Fields

namespace Leaves

variable {s₁ : WhatIfQueue} {f : JobFiles} {pc : WorkerAt} {op : WhatIfOp} {j : WhatIfId}

theorem refl : Leaves s s id where
  files := rfl
  enqueued := rfl
  lastClaim := rfl
  claims := rfl
  taken _ old := old
  executing _ _ runs := runs
  retiring _ retires := retires
  now := le_rfl

theorem trans (first : Leaves s s₁ id) (second : Leaves s₁ s' id) : Leaves s s' id where
  files := second.files.trans first.files
  enqueued := second.enqueued.trans first.enqueued
  lastClaim := second.lastClaim.trans first.lastClaim
  claims := second.claims.trans first.claims
  taken g old := first.taken g (second.taken g old)
  executing w t runs := first.executing w t (second.executing w t runs)
  retiring w retires := first.retiring w (second.retiring w retires)
  now := first.now.trans second.now

theorem setFiles (ne : id ≠ j) : Leaves s (s.setFiles j f) id where
  files := Function.update_of_ne ne _ _
  enqueued := rfl
  lastClaim := rfl
  claims := rfl
  taken _ old := old
  executing _ _ runs := runs
  retiring _ retires := retires
  now := le_rfl

/-- A worker that turns to something else. -/
theorem worker {x : WhatIfWorker} (runs : ∀ op t, x.pc ≠ .executing id op t)
    (retires : x.pc ≠ .retiring id) :
    Leaves s { s with workers := Function.update s.workers w x } id where
  files := rfl
  enqueued := rfl
  lastClaim := rfl
  claims := rfl
  taken _ old := old
  executing v t there := by
    obtain ⟨_, op, at'⟩ | ⟨_, before⟩ := executing_update there
    · exact (runs op t at').elim
    · exact before
  retiring v there := by
    rw [pc_update] at there
    split at there
    · exact (retires there).elim
    · exact there
  now := le_rfl

theorem go (runs : ∀ op t, pc ≠ .executing id op t) (retires : pc ≠ .retiring id) :
    Leaves s (s.go w pc) id := worker runs retires

theorem starts (ne : id ≠ j) : Leaves s (s.starts w j op) id := by
  have goes : Leaves s (s.go w (.executing j op s.now)) id :=
    .go (fun _ _ same => ne (WorkerAt.executing.inj same).1.symm) (fun same => by cases same)
  exact goes.trans
    { files := rfl
      enqueued := rfl
      lastClaim := Function.update_of_ne ne _ _
      claims := Function.update_of_ne ne _ _
      taken := fun _ old => old
      executing := fun _ _ runs => runs
      retiring := fun _ retires => retires
      now := le_rfl }

end Leaves

namespace JobKept

variable {op : WhatIfOp} {m : Manifest}

/-- A queued job has no worker. -/
theorem alone (kept : s.JobKept id) (queued : (s.files id).json.isSome = true) (w : ℕ) :
    ¬ s.At w id := by
  intro here
  rw [(kept.held w here).1] at queued
  cases queued

theorem enqueueWhatIf (kept : s.JobKept id)
    (free : (s.files id).processing = none) (open' : (s.files id).terminal = false) :
    (s.enqueueWhatIf id op).JobKept id := by
  have files : (s.enqueueWhatIf id op).files id =
      { s.files id with json := some { op, mtime := s.now } } := Function.update_self ..
  have nobody (w : ℕ) : ¬ s.At w id := by
    intro here
    obtain held | answered := (kept.held w here).2
    · rw [free] at held
      cases held
    · rw [open'] at answered
      cases answered
  constructor
  · intro _
    rw [files]
    exact ⟨free, open'⟩
  · rw [files]
    exact kept.answered
  · intro w here
    exact (nobody w here).elim
  · intro w retires
    exact (nobody w (.inr retires)).elim
  · exact kept.since
  · exact kept.apart
  · exact kept.past
  · intro _
    rw [files]
    exact .inl rfl
  · exact kept.taken

/-- The job's file is under its claimed name. -/
theorem claimed (kept : s.JobKept id) (queued : (s.files id).json = some m) :
    (s.setFiles id { s.files id with json := none, processing := some m }).JobKept id := by
  have json : (s.files id).json.isSome = true := by rw [queued]; rfl
  have files : (s.setFiles id { s.files id with json := none, processing := some m }).files id =
      { s.files id with json := none, processing := some m } := Function.update_self ..
  constructor
  · rw [files]
    intro isSome
    cases isSome
  · rw [files]
    exact kept.answered
  · intro w here
    exact (kept.alone json w here).elim
  · intro w retires
    exact (kept.alone json w (.inr retires)).elim
  · exact kept.since
  · exact kept.apart
  · exact kept.past
  · intro _
    rw [files]
    exact .inr (.inl rfl)
  · exact kept.taken

/-- A worker starts a claimed job while everyone else at it has been for long. -/
theorem starts (kept : s.JobKept id) (json : (s.files id).json = none)
    (held : (s.files id).processing.isSome = true)
    (old : ∀ v t, s.executing v = some (id, t) → t + staleClaimMs < s.now) :
    (s.starts w id op).JobKept id := by
  have pc (v : ℕ) : ((s.starts w id op).workers v).pc =
      if v = w then .executing id op s.now else (s.workers v).pc := pc_go v
  have last : (s.starts w id op).lastClaim id = s.now := Function.update_self ..
  have runs {v t : ℕ} (there : (s.starts w id op).executing v = some (id, t)) :
      v = w ∧ t = s.now ∨ v ≠ w ∧ s.executing v = some (id, t) := by
    obtain ⟨same, o, at'⟩ | before := executing_update there
    · exact .inl ⟨same, (WorkerAt.executing.inj at').2.2.symm⟩
    · exact .inr before
  constructor
  · exact kept.queued
  · exact kept.answered
  · intro _ _
    exact ⟨json, .inl held⟩
  · intro v retires
    rw [pc] at retires
    split at retires
    · cases retires
    · exact kept.retires v retires
  · intro v t there
    rw [last]
    obtain ⟨_, rfl⟩ | ⟨_, there⟩ := runs there
    · exact le_rfl
    · exact (kept.since v t there).trans kept.past
  · intro v v' t t' ne there there'
    obtain ⟨isW, now⟩ | ⟨_, before⟩ := runs there
    · obtain ⟨isW', _⟩ | ⟨_, before'⟩ := runs there'
      · exact (ne (isW.trans isW'.symm)).elim
      · exact .inr (now ▸ old v' t' before')
    · obtain ⟨_, now'⟩ | ⟨_, before'⟩ := runs there'
      · exact .inl (now' ▸ old v t before)
      · exact kept.apart v v' t t' ne before before'
  · exact last.le
  · intro _
    exact .inr (.inl held)
  · intro g taken
    have claims : (s.starts w id op).claims id = s.claims id + 1 := Function.update_self ..
    rw [claims]
    exact (kept.taken g taken).trans (Nat.lt_succ_self _)

/-- The job is answered, and its worker about to retire the claim. -/
theorem finished (kept : s.JobKept id) {t : ℕ} {ok : Bool} {r : TerminalRecord}
    (runs : s.executing w = some (id, t)) (open' : (s.files id).terminal = false) :
    ((s.finishWhatIf id ok r).go w (.retiring id)).JobKept id := by
  have files : ((s.finishWhatIf id ok r).go w (.retiring id)).files id =
      if ok then { s.files id with done := some r } else { s.files id with failed := some r } :=
    Function.update_self ..
  have none_of : (s.files id).done = none ∧ (s.files id).failed = none := by
    simpa [JobFiles.terminal] using open'
  have terminal : (((s.finishWhatIf id ok r).go w (.retiring id)).files id).terminal = true := by
    rw [files]
    cases ok <;> simp [JobFiles.terminal]
  have json : (((s.finishWhatIf id ok r).go w (.retiring id)).files id).json = none := by
    rw [files]
    have before := (kept.held w (.inl ⟨t, runs⟩)).1
    cases ok <;> exact before
  have other {v u : ℕ}
      (there : ((s.finishWhatIf id ok r).go w (.retiring id)).executing v = some (id, u)) :
      s.executing v = some (id, u) := by
    obtain ⟨_, o, at'⟩ | ⟨_, before⟩ := executing_update there
    · cases at'
    · exact before
  constructor
  · intro isSome
    rw [json] at isSome
    cases isSome
  · rw [files]
    cases ok
    · exact .inl none_of.1
    · exact .inr none_of.2
  · intro _ _
    exact ⟨json, .inr terminal⟩
  · intro _ _
    exact terminal
  · intro v u there
    exact kept.since v u (other there)
  · intro v v' u u' ne there there'
    exact kept.apart v v' u u' ne (other there) (other there')
  · exact kept.past
  · intro _
    exact .inr (.inr terminal)
  · exact kept.taken

/-- A claim is set aside once its job has an answer. -/
theorem retireClaim (kept : s.JobKept id) (answered : (s.files id).terminal = true) :
    (s.retireClaim id).JobKept id := by
  unfold WhatIfQueue.retireClaim
  split
  · rename_i m held
    have files : (s.setFiles id
        { s.files id with processing := none, consumed := some m }).files id =
        { s.files id with processing := none, consumed := some m } := Function.update_self ..
    constructor
    · rw [files]
      intro queued
      exact ⟨rfl, (kept.queued queued).2⟩
    · rw [files]
      exact kept.answered
    · intro w here
      rw [files]
      exact ⟨(kept.held w here).1, .inr answered⟩
    · intro _ _
      rw [files]
      exact answered
    · exact kept.since
    · exact kept.apart
    · exact kept.past
    · intro _
      rw [files]
      exact .inr (.inr answered)
    · exact kept.taken
  · exact kept

end JobKept

section Inversion

variable {op : WhatIfOp} {names : List WhatIfId} {e : PendingEntry} {ok : Bool}
  {result error : Option String}

theorem step_enqueue (next : s.step (.enqueue id op) = some s') : s' = s.enqueueWhatIf id op := by
  simp only [step] at next
  split at next
  · exact (Option.some.inj next).symm
  · cases next

theorem step_list (next : s.step (.list w names) = some s') :
    s' = { s with workers := Function.update s.workers w { listed := s.pendingWhatIf names } } := by
  simp only [step] at next
  split at next
  · exact (Option.some.inj next).symm
  · cases next

theorem step_claim (next : s.step (.claim w e) = some s') :
    (s.workers w).pc = .idle ∧ s' = s.claimWhatIf w e := by
  simp only [step] at next
  split at next
  · rename_i may
    exact ⟨may.1, (Option.some.inj next).symm⟩
  · cases next

theorem step_finish (next : s.step (.finish w ok result error) = some s') :
    ∃ id op since, (s.workers w).pc = .executing id op since ∧
      s' = (s.finishWhatIf id ok { op := some op, result, error }).go w (.retiring id) := by
  simp only [step] at next
  split at next
  · rename_i id op since runs
    exact ⟨id, op, since, runs, (Option.some.inj next).symm⟩
  · cases next

theorem step_retire (next : s.step (.retire w) = some s') :
    ∃ id, (s.workers w).pc = .retiring id ∧ s' = (s.retireClaim id).go w .idle := by
  simp only [step] at next
  split at next
  · rename_i id retires
    exact ⟨id, retires, (Option.some.inj next).symm⟩
  · cases next

/-- A claim takes over an old claim, or records that it is gone, or takes a queued job, or
comes too late. -/
theorem claim_cases (w : ℕ) (e : PendingEntry) :
    (e.stale = true ∧ ∃ m, (s.files e.id).processing = some m ∧ s.claimWhatIf w e =
        { s.starts w e.id m.op with takenOver := s.takenOver ++ [(e.id, e.claims)] }) ∨
      (e.stale = true ∧ (s.files e.id).processing = none ∧
        ∃ f, s.claimWhatIf w e = s.setFiles e.id f) ∨
      (∃ m, (s.files e.id).json = some m ∧ s.claimWhatIf w e =
        (s.setFiles e.id { s.files e.id with json := none, processing := some m }).starts
          w e.id m.op) ∨
      s.claimWhatIf w e = s := by
  unfold claimWhatIf
  cases stale : e.stale with
  | true =>
    cases held : (s.files e.id).processing with
    | some m => exact .inl ⟨rfl, m, rfl, by simp [held]⟩
    | none => exact .inr (.inl ⟨rfl, rfl, _, by simp [held]; rfl⟩)
  | false =>
    cases queued : (s.files e.id).json with
    | some m => exact .inr (.inr (.inl ⟨m, rfl, by simp [queued]⟩))
    | none => exact .inr (.inr (.inr (by simp [queued])))

end Inversion

/-- The job a step is about. -/
def about (s : WhatIfQueue) : WhatIfAct → Option WhatIfId
  | .enqueue id _ => some id
  | .claim _ e => some e.id
  | .finish w .. => (s.executing w).map Prod.fst
  | .retire w =>
    match (s.workers w).pc with
    | .retiring id => some id
    | _ => none
  | _ => none

/-- A step leaves the jobs it is not about. -/
theorem leaves_of_step {a : WhatIfAct} (next : s.step a = some s') (ne : s.about a ≠ some id) :
    Leaves s s' id := by
  cases a with
  | tick ms =>
    obtain rfl := Option.some.inj next
    exact ⟨rfl, rfl, rfl, rfl, fun _ old => old, fun _ _ runs => runs, fun _ retires => retires,
      Nat.le_add_right ..⟩
  | enqueue j op =>
    have other : id ≠ j := fun same => ne (congrArg some same.symm)
    obtain rfl := step_enqueue next
    exact ⟨Function.update_of_ne other _ _, Function.update_of_ne other _ _, rfl, rfl,
      fun _ old => old, fun _ _ runs => runs, fun _ retires => retires, le_rfl⟩
  | list v names =>
    obtain rfl := step_list next
    exact .worker (fun _ _ same => by cases same) (fun same => by cases same)
  | claim v e =>
    have other : id ≠ e.id := fun same => ne (congrArg some same.symm)
    obtain ⟨-, rfl⟩ := step_claim next
    obtain ⟨-, m, -, claims⟩ | ⟨-, -, f, claims⟩ | ⟨m, -, claims⟩ | claims := s.claim_cases v e
    · rw [claims]
      have starts : Leaves s (s.starts v e.id m.op) id := .starts other
      refine starts.trans ⟨rfl, rfl, rfl, rfl, ?_, fun _ _ runs => runs, fun _ retires => retires,
        le_rfl⟩
      intro g taken
      obtain old | new := List.mem_append.mp taken
      · exact old
      · cases List.mem_singleton.mp new
        exact (other rfl).elim
    · rw [claims]
      exact .setFiles other
    · rw [claims]
      exact (Leaves.setFiles other).trans (.starts other)
    · rw [claims]
      exact .refl
  | finish v ok result error =>
    obtain ⟨j, op, since, runs, rfl⟩ := step_finish next
    have other : id ≠ j := by
      rintro rfl
      exact ne (congrArg (Option.map Prod.fst) (executing_eq_some.mpr ⟨op, runs⟩))
    have files : Leaves s (s.finishWhatIf j ok { op := some op, result, error }) id :=
      .setFiles other
    exact files.trans
      (.go (fun _ _ same => by cases same) fun same => other (WorkerAt.retiring.inj same).symm)
  | retire v =>
    obtain ⟨j, retires, rfl⟩ := step_retire next
    have other : id ≠ j := by
      rintro rfl
      exact ne (by simp [about, retires])
    have files : Leaves s (s.retireClaim j) id := by
      unfold retireClaim
      split
      · exact .setFiles other
      · exact .refl
    exact files.trans (.go (fun _ _ same => by cases same) fun same => by cases same)
  | crash v =>
    obtain rfl := Option.some.inj next
    exact .worker (fun _ _ same => by cases same) (fun same => by cases same)
  | read j =>
    obtain rfl := Option.some.inj next
    exact .refl

namespace JobKept

variable {e : PendingEntry} {op : WhatIfOp}

/-- The job of a takeover. -/
theorem takeOver (kept : s.JobKept e.id)
    (held : (s.files e.id).processing.isSome = true) (listed : s.claims e.id = e.claims)
    (old : s.lastClaim e.id + staleClaimMs < s.now) :
    JobKept { s.starts w e.id op with takenOver := s.takenOver ++ [(e.id, e.claims)] } e.id := by
  have json : (s.files e.id).json = none := by
    cases queued : (s.files e.id).json with
    | none => rfl
    | some m =>
      rw [(kept.queued (by rw [queued]; rfl)).1] at held
      cases held
  have starts : (s.starts w e.id op).JobKept e.id := by
    refine kept.starts json held fun v t runs => ?_
    exact (Nat.add_le_add_right (kept.since v t runs) _).trans_lt old
  refine ⟨starts.queued, starts.answered, starts.held, starts.retires, starts.since, starts.apart,
    starts.past, starts.waits, fun g taken => ?_⟩
  obtain before | new := List.mem_append.mp taken
  · exact starts.taken g before
  · have claims : (s.starts w e.id op).claims e.id = s.claims e.id + 1 := Function.update_self ..
    have isNew : g = e.claims := (Prod.mk.inj (List.mem_singleton.mp new)).2
    show g < (s.starts w e.id op).claims e.id
    omega

/-- A sound step keeps the job it is about. -/
theorem of_about {a : WhatIfAct} (kept : s.JobKept id) (sound : s.Sound a)
    (next : s.step a = some s') (about : s.about a = some id) : s'.JobKept id := by
  cases a with
  | tick ms => cases about
  | enqueue j op =>
    obtain rfl := Option.some.inj about
    obtain rfl := step_enqueue next
    exact kept.enqueueWhatIf sound.2.1 sound.2.2
  | list v names => cases about
  | claim v e =>
    obtain rfl := Option.some.inj about
    obtain ⟨-, rfl⟩ := step_claim next
    obtain ⟨stale, m, -, claims⟩ | ⟨stale, gone, -⟩ | ⟨m, queued, claims⟩ | claims :=
      s.claim_cases v e
    · obtain ⟨held, listed, old, -⟩ := sound stale
      rw [claims]
      exact kept.takeOver held listed old
    · obtain ⟨held, -⟩ := sound stale
      rw [gone] at held
      cases held
    · rw [claims]
      have isSome : (s.files e.id).json.isSome = true := by rw [queued]; rfl
      refine (kept.claimed queued).starts ?_ ?_ fun u t runs => ?_
      · simp
      · simp
      · exact (kept.alone isSome u (.inl ⟨t, runs⟩)).elim
    · rw [claims]
      exact kept
  | finish v ok result error =>
    obtain ⟨j, op, since, runs, rfl⟩ := step_finish next
    have runs' : s.executing v = some (j, since) := executing_eq_some.mpr ⟨op, runs⟩
    obtain rfl : j = id := Option.some.inj ((congrArg (Option.map Prod.fst) runs').symm.trans about)
    exact kept.finished runs' (sound (j, since) runs')
  | retire v =>
    obtain ⟨j, retires, rfl⟩ := step_retire next
    obtain rfl : j = id := by simpa [WhatIfQueue.about, retires] using about
    have retired := kept.retireClaim (kept.retires v retires)
    refine retired.of_leaves (.go (fun _ _ same => ?_) fun same => ?_) <;> cases same
  | crash v => cases about
  | read j => cases about

end JobKept

namespace Kept

/-- At the start the folder is empty and every worker idle. -/
theorem first : Kept {} where
  job id :=
    { queued := fun queued => by cases queued
      answered := .inl rfl
      held := fun w here => by obtain ⟨t, runs⟩ | retires := here <;> simp_all [executing]
      retires := fun w retires => by cases retires
      since := fun w t runs => by cases runs
      apart := fun w w' t t' _ runs => by cases runs
      past := le_rfl
      waits := fun waits => by cases waits
      taken := fun g taken => by cases taken }
  once := .nil

/-- A sound step takes over no claim twice. -/
theorem once_of_step {a : WhatIfAct} (kept : s.Kept) (sound : s.Sound a)
    (next : s.step a = some s') : s'.takenOver.Nodup := by
  cases a with
  | tick ms =>
    obtain rfl := Option.some.inj next
    exact kept.once
  | enqueue j op =>
    obtain rfl := step_enqueue next
    exact kept.once
  | list v names =>
    obtain rfl := step_list next
    exact kept.once
  | claim v e =>
    obtain ⟨-, rfl⟩ := step_claim next
    obtain ⟨stale, m, -, claims⟩ | ⟨-, -, f, claims⟩ | ⟨m, -, claims⟩ | claims := s.claim_cases v e
    · obtain ⟨-, listed, -, -⟩ := sound stale
      rw [claims]
      refine List.Nodup.append kept.once (List.nodup_singleton _) fun p old new => ?_
      obtain rfl := List.mem_singleton.mp new
      exact absurd ((kept.job e.id).taken e.claims old) (by omega)
    all_goals
      rw [claims]
      exact kept.once
  | finish v ok result error =>
    obtain ⟨j, op, since, -, rfl⟩ := step_finish next
    exact kept.once
  | retire v =>
    obtain ⟨j, -, rfl⟩ := step_retire next
    show (s.retireClaim j).takenOver.Nodup
    rw [retireClaim_takenOver]
    exact kept.once
  | crash v =>
    obtain rfl := Option.some.inj next
    exact kept.once
  | read j =>
    obtain rfl := Option.some.inj next
    exact kept.once

theorem of_step {a : WhatIfAct} (kept : s.Kept) (sound : s.Sound a) (next : s.step a = some s') :
    s'.Kept where
  job id := by
    by_cases about : s.about a = some id
    · exact (kept.job id).of_about sound next about
    · exact (kept.job id).of_leaves (leaves_of_step next about)
  once := kept.once_of_step sound next

end Kept

/-- The folder and its workers agree all along a sound run. -/
theorem kept_of_reaches (reached : Reaches (· = {}) SoundStep s) : s.Kept :=
  reached.invariant (fun _ start => start ▸ Kept.first)
    fun _ _ kept ⟨_, sound, next⟩ => kept.of_step sound next

/-- A worker begins no job that has an answer. -/
theorem open_of_begins {a : WhatIfAct} (kept : s.Kept) (sound : s.Sound a)
    (next : s.step a = some s') {t : ℕ} (runs : s'.executing w = some (id, t))
    (before : s.executing w = none) : (s.files id).terminal = false := by
  by_cases about : s.about a = some id
  · cases a with
    | claim v e =>
      obtain rfl := Option.some.inj about
      obtain ⟨-, rfl⟩ := step_claim next
      obtain ⟨stale, m, -, claims⟩ | ⟨stale, gone, -⟩ | ⟨m, queued, claims⟩ | claims :=
        s.claim_cases v e
      · exact (sound stale).2.2.2
      · obtain ⟨held, -⟩ := sound stale
        rw [gone] at held
        cases held
      · exact ((kept.job e.id).queued (by rw [queued]; rfl)).2
      · rw [claims, before] at runs
        cases runs
    | tick ms => cases about
    | enqueue j op =>
      obtain rfl := step_enqueue next
      exact absurd (before.symm.trans runs) (by simp)
    | list v names => cases about
    | finish v ok result error =>
      obtain ⟨j, op, since, -, rfl⟩ := step_finish next
      obtain ⟨_, o, at'⟩ | ⟨_, there⟩ := executing_update runs
      · cases at'
      · exact absurd (before.symm.trans there) (by simp)
    | retire v =>
      obtain ⟨j, retires, rfl⟩ := step_retire next
      obtain rfl : j = id := by simpa [WhatIfQueue.about, retires] using about
      obtain ⟨_, o, at'⟩ | ⟨_, there⟩ := executing_update runs
      · cases at'
      · rw [executing_congr (congrArg WhatIfWorker.pc (congrFun s.retireClaim_workers w))] at there
        exact absurd (before.symm.trans there) (by simp)
    | crash v => cases about
    | read j => cases about
  · rw [(leaves_of_step next about).executing w t runs] at before
    cases before

/-- An answer stays as it was given. -/
theorem answer_of_step {a : WhatIfAct} (sound : s.Sound a) (next : s.step a = some s')
    (answered : (s.files id).terminal = true) :
    (s'.files id).done = (s.files id).done ∧ (s'.files id).failed = (s.files id).failed := by
  by_cases about : s.about a = some id
  · cases a with
    | tick ms => cases about
    | enqueue j op =>
      obtain rfl := Option.some.inj about
      rw [sound.2.2] at answered
      cases answered
    | list v names => cases about
    | claim v e =>
      obtain rfl := Option.some.inj about
      obtain ⟨-, rfl⟩ := step_claim next
      obtain ⟨-, m, -, claims⟩ | ⟨stale, gone, -⟩ | ⟨m, -, claims⟩ | claims := s.claim_cases v e
      · rw [claims]
        exact ⟨rfl, rfl⟩
      · obtain ⟨held, -⟩ := sound stale
        rw [gone] at held
        cases held
      · rw [claims]
        simp [starts]
      · rw [claims]
        exact ⟨rfl, rfl⟩
    | finish v ok result error =>
      obtain ⟨j, op, since, runs, rfl⟩ := step_finish next
      have runs' : s.executing v = some (j, since) := executing_eq_some.mpr ⟨op, runs⟩
      obtain rfl : j = id :=
        Option.some.inj ((congrArg (Option.map Prod.fst) runs').symm.trans about)
      rw [sound (j, since) runs'] at answered
      cases answered
    | retire v =>
      obtain ⟨j, retires, rfl⟩ := step_retire next
      obtain rfl : j = id := by simpa [WhatIfQueue.about, retires] using about
      show ((s.retireClaim j).files j).done = _ ∧ ((s.retireClaim j).files j).failed = _
      unfold retireClaim
      split <;> simp
    | crash v => cases about
    | read j => cases about
  · rw [(leaves_of_step next about).files]
    exact ⟨rfl, rfl⟩

/-- The read tool finds the one answer there is. -/
theorem readWhatIf_of_sound (kept : s.JobKept id) (sound : s.Sound (.read id)) {r : TerminalRecord} :
    ((s.files id).done = some r → s.readWhatIf id.text = (.done, some r)) ∧
      ((s.files id).failed = some r → s.readWhatIf id.text = (.failed, some r)) := by
  have reads : s.readWhatIf id.text = readFiles (s.files id) := by
    unfold readWhatIf
    rw [dif_pos id.issued]
  constructor
  · intro done
    obtain ⟨json, processing⟩ := sound (by simp [JobFiles.terminal, done])
    rw [reads]
    simp [readFiles, json, processing, done]
  · intro failed
    obtain ⟨json, processing⟩ := sound (by simp [JobFiles.terminal, failed])
    have notDone : (s.files id).done = none := by
      obtain none | none := kept.answered
      · exact none
      · rw [failed] at none
        cases none
    rw [reads]
    simp [readFiles, json, processing, notDone, failed]

/-- In a sound run a job has one worker until its claim is old, no claim is taken over twice,
no answered job is begun again, every job is queued, claimed or answered, and its answer
stays and is read. -/
theorem one_worker_and_one_answer (reached : Reaches (· = {}) SoundStep s) :
    (∀ id w w' t t', w ≠ w' → s.executing w = some (id, t) → s.executing w' = some (id, t') →
      min t t' + staleClaimMs < s.now) ∧
    s.takenOver.Nodup ∧
    (∀ a s', s.Sound a → s.step a = some s' → ∀ w id t, s'.executing w = some (id, t) →
      s.executing w = none → (s.files id).terminal = false) ∧
    (∀ id, s.enqueued id = true → (s.files id).json.isSome = true ∨
      (s.files id).processing.isSome = true ∨ (s.files id).terminal = true) ∧
    (∀ a s', s.Sound a → s.step a = some s' → ∀ id, (s.files id).terminal = true →
      (s'.files id).done = (s.files id).done ∧ (s'.files id).failed = (s.files id).failed) ∧
    ∀ id r, s.Sound (.read id) →
      ((s.files id).done = some r → s.readWhatIf id.text = (.done, some r)) ∧
        ((s.files id).failed = some r → s.readWhatIf id.text = (.failed, some r)) := by
  have kept := kept_of_reaches reached
  refine ⟨fun id w w' t t' ne runs runs' => ?_, kept.once, ?_, fun id => (kept.job id).waits, ?_, ?_⟩
  · have past := (kept.job id).past
    have since := (kept.job id).since w t runs
    have since' := (kept.job id).since w' t' runs'
    obtain first | first := (kept.job id).apart w w' t t' ne runs runs'
    · have older : min t t' ≤ t := Nat.min_le_left ..
      omega
    · have older : min t t' ≤ t' := Nat.min_le_right ..
      omega
  · intro a s' sound next w id t runs before
    exact open_of_begins kept sound next runs before
  · intro a s' sound next id answered
    exact answer_of_step sound next answered
  · intro id r sound
    exact readWhatIf_of_sound (kept.job id) sound

/-- Every step of the run is sound. -/
def soundSteps (s : WhatIfQueue) : List WhatIfAct → Bool
  | [] => true
  | a :: rest => decide (s.Sound a) && (s.step a).all fun s' => s'.soundSteps rest

theorem reaches_of_soundSteps {acts : List WhatIfAct} (reached : Reaches (· = {}) SoundStep s)
    (sound : s.soundSteps acts = true) (next : s.steps acts = some s') :
    Reaches (· = {}) SoundStep s' := by
  induction acts generalizing s with
  | nil => exact Option.some.inj next ▸ reached
  | cons a rest ih =>
    obtain ⟨u, first, then'⟩ := Option.bind_eq_some_iff.mp next
    simp only [soundSteps, first, Bool.and_eq_true, decide_eq_true_eq, Option.all_some] at sound
    exact ih (.step reached ⟨a, sound.1, first⟩) sound.2 then'

/-- A job of a run. -/
def sampleId : WhatIfId := ⟨"wi-00000000", by decide +kernel⟩

/-- The job is queued and claimed, its worker does not come back, and another takes it over. -/
def handover : List WhatIfAct :=
  [.enqueue sampleId { runId := "r", stage := "search" }, .list 1 [sampleId],
    .claim 1 ⟨sampleId, false, 0⟩, .tick (staleClaimMs + 1), .list 2 [sampleId],
    .claim 2 ⟨sampleId, true, 1⟩]

theorem handover_runs : (steps {} handover).isSome = true := by decide +kernel

theorem one_worker_and_one_answer_handover :
    ∃ s, steps {} handover = some s ∧ s.executing 1 = some (sampleId, 0) ∧
      s.executing 2 = some (sampleId, staleClaimMs + 1) ∧
      min 0 (staleClaimMs + 1) + staleClaimMs < s.now ∧ s.takenOver.Nodup := by
  obtain ⟨s, runs⟩ := Option.isSome_iff_exists.mp handover_runs
  have first : (steps {} handover).map (·.executing 1) = some (some (sampleId, 0)) := by
    decide +kernel
  have second :
      (steps {} handover).map (·.executing 2) = some (some (sampleId, staleClaimMs + 1)) := by
    decide +kernel
  rw [runs] at first second
  have main := one_worker_and_one_answer
    (reaches_of_soundSteps (.start rfl) (by decide +kernel) runs)
  exact ⟨s, runs, Option.some.inj first, Option.some.inj second,
    main.1 sampleId 1 2 0 (staleClaimMs + 1) (by decide) (Option.some.inj first)
      (Option.some.inj second), main.2.1⟩

/-- A job that waited in the queue is taken from the worker who has just claimed it. -/
def longWait : List WhatIfAct :=
  [.enqueue sampleId { runId := "r", stage := "search" }, .tick (staleClaimMs + 1),
    .list 1 [sampleId], .claim 1 ⟨sampleId, false, 0⟩, .list 2 [sampleId],
    .claim 2 ⟨sampleId, true, 1⟩]

/-- Two workers find the same old claim. -/
def bothTakeOver : List WhatIfAct :=
  [.enqueue sampleId { runId := "r", stage := "search" }, .list 1 [sampleId],
    .claim 1 ⟨sampleId, false, 0⟩, .tick (staleClaimMs + 1), .list 2 [sampleId],
    .list 3 [sampleId], .claim 2 ⟨sampleId, true, 1⟩, .claim 3 ⟨sampleId, true, 1⟩]

/-- The answer is written, and the worker gone before the claim is set aside. -/
def answered : List WhatIfAct :=
  [.enqueue sampleId { runId := "r", stage := "search" }, .list 1 [sampleId],
    .claim 1 ⟨sampleId, false, 0⟩, .finish 1 true (some "memo") none, .crash 1,
    .tick (staleClaimMs + 1), .list 2 [sampleId]]

theorem two_workers_at_one_job :
    (steps {} longWait).map (fun s => (s.executing 1, s.executing 2, s.now)) =
        some (some (sampleId, staleClaimMs + 1), some (sampleId, staleClaimMs + 1),
          staleClaimMs + 1) ∧
      (steps {} bothTakeOver).map (·.takenOver) = some [(sampleId, 1), (sampleId, 1)] ∧
      (steps {} answered).map
        (fun s => ((s.files sampleId).terminal, (s.readWhatIf "wi-00000000").1)) =
        some (true, .running) ∧
      ((steps {} (answered ++ [.claim 2 ⟨sampleId, true, 1⟩])).bind (·.executing 2)) =
        some (sampleId, staleClaimMs + 1) := by
  decide +kernel

end WhatIfQueue

end Clearotron
