import Mathlib.Data.List.Nodup
import Mathlib.Logic.Function.Basic
import Clearotron.Library.Reaches
import Clearotron.Runner.Matters

/-!
# Runs of admission on one queue

Jobs are admitted, crash and are claimed again, end with or without success, and are sent again.
A drop reads the ledger and writes it back later, so that another runner may append in between.
What each account has been charged is kept beside the ledger: the jobs that were admitted, with
the time of their rows.
-/

namespace Clearotron.Matters

/-- Where a job that was admitted stands. -/
inductive Stage
  | running
  | crashed
  | succeeded
  | failed
  deriving DecidableEq, Repr

/-- A drop that has read the ledger and not yet written it. -/
structure Drop where
  msgId : String
  rows : List MatterRow
  deriving DecidableEq

structure State where
  ledger : Ledger := []
  /-- the jobs that were admitted, with the time of their rows -/
  admitted : List (Job × Nat) := []
  stage : String → Option Stage := fun _ => none
  drops : List Drop := []

/-- A deployment: the name it goes by, the caps of its accounts, and the jobs of the queue. -/
structure Deployment where
  brand : String
  caps : String → Option RunCaps
  jobs : List Job
  distinct : (jobs.map Job.msgId).Nodup

namespace Deployment

variable (D : Deployment)

/-- The caps of the account a job resolves to. -/
def capsOf (job : Job) : Option RunCaps := job.account.bind D.caps

/-- Admission of a job, in a state, beside these markers. -/
def admission (s : State) (job : Job) (markers : List QueuedJob) (now dupNow : Nat) : Admission :=
  admitJob D.brand (D.capsOf job) ⟨markers, s.ledger⟩ job now dupNow

/-- What one of the runners does next. -/
inductive Event
  /-- a job is claimed for the first time, again after a crash, or again after it failed -/
  | claim (job : Job) (markers : List QueuedJob) (now dupNow : Nat)
  | crash (msgId : String)
  | succeed (msgId : String)
  /-- a run fails or is cancelled, and its drop reads the ledger -/
  | fail (msgId : String)
  | write (drop : Drop)
  /-- the runner dies before its drop is written -/
  | lose (drop : Drop)

/-- What an admitted job leaves. -/
def charge (s : State) (job : Job) (ledger : Ledger) (ts : Nat) : State :=
  { s with
    ledger
    admitted := if job.msgId ∈ s.admitted.map (·.1.msgId) then s.admitted else s.admitted ++ [(job, ts)]
    stage := Function.update s.stage job.msgId (some .running) }

def setStage (s : State) (msgId : String) (stage : Stage) : State :=
  { s with stage := Function.update s.stage msgId (some stage) }

def isLive (s : State) (msgId : String) : Bool := s.stage msgId ∈ [some .running, some .crashed]

def step (s : State) : Event → Option State
  | .claim job markers now dupNow =>
    if job ∈ D.jobs ∧ s.stage job.msgId ∉ [some .running, some .succeeded] then
      match D.admission s job markers now dupNow with
      | .admitted ledger => some (charge s job ledger dupNow)
      | _ => some s
    else none
  | .crash msgId => if s.stage msgId = some .running then some (setStage s msgId .crashed) else none
  | .succeed msgId => if s.stage msgId = some .running then some (setStage s msgId .succeeded) else none
  | .fail msgId =>
    if isLive s msgId then
      some { setStage s msgId .failed with drops := ⟨msgId, readMatterLedger s.ledger⟩ :: s.drops }
    else none
  | .write drop =>
    if drop ∈ s.drops then
      some { s with ledger := dropMatter drop.msgId drop.rows, drops := s.drops.erase drop }
    else none
  | .lose drop => if drop ∈ s.drops then some { s with drops := s.drops.erase drop } else none

/-- The lane a job is charged to. -/
def lane (job : Job) : Option Lane :=
  job.key.map fun account => ⟨account, job.organisation⟩

/-- A lane of the job's is not full with the job's own row among those counted. -/
structure NotFullOfItself (s : State) (job : Job) (now : Nat) : Prop where
  today : ∀ l ∈ lane job, ∀ row ∈ readMatterLedger s.ledger, row.msgId = job.msgId →
    l.countsToday now row = true →
      (effectiveCaps (D.capsOf job)).dailyRuns ≠ some (l.today now (readMatterLedger s.ledger))
  month : ∀ l ∈ lane job, ∀ row ∈ readMatterLedger s.ledger, row.msgId = job.msgId →
    l.countsThisMonth now row = true →
      (effectiveCaps (D.capsOf job)).monthlyRuns ≠ some (l.thisMonth now (readMatterLedger s.ledger))

/-- A row is dated on the day and in the month the caps were counted on, or on the first one
its lane has a row in. -/
structure DatedAsCounted (s : State) (job : Job) (now dupNow : Nat) : Prop where
  day : dayOf dupNow = dayOf now ∨
    ∀ l ∈ lane job, l.today dupNow (readMatterLedger s.ledger) = 0
  month : monthOf dupNow = monthOf now ∨
    ∀ l ∈ lane job, l.thisMonth dupNow (readMatterLedger s.ledger) = 0

/-- Nothing goes wrong at this step: a job that failed is not sent again, a job is not counted
against itself, a row is dated as it was counted, and a drop is written to the ledger it read. -/
def Plain (s : State) : Event → Prop
  | .claim job _ now dupNow =>
    s.stage job.msgId ≠ some .failed ∧ D.NotFullOfItself s job now ∧ DatedAsCounted s job now dupNow
  | .write drop => drop.rows = readMatterLedger s.ledger
  | .lose _ => False
  | _ => True

/-- The states a run reaches by plain steps. -/
abbrev PlainRun : State → Prop := Reaches (· = {}) fun s s' => ∃ e, D.Plain s e ∧ D.step s e = some s'

/-- Is the row of this message id marked? The job has failed, and its drop is written. -/
def isMarked (s : State) (msgId : String) : Bool :=
  s.stage msgId = some .failed && !s.drops.any (·.msgId = msgId)

/-- Each job that was admitted is charged once, to its own account. -/
structure Charged (s : State) : Prop where
  /-- one row for each job, written for that job -/
  rows : readMatterLedger s.ledger =
    s.admitted.map fun jt => { jt.1.entry jt.2 with failed := isMarked s jt.1.msgId }
  once : (s.admitted.map (·.1.msgId)).Nodup
  jobs : ∀ jt ∈ s.admitted, jt.1 ∈ D.jobs
  /-- a row reads as failed exactly when its job's last run has ended without success -/
  failed : ∀ row ∈ readMatterLedger s.ledger, (∀ d ∈ s.drops, d.msgId ≠ row.msgId) →
    (row.failed = true ↔ s.stage row.msgId = some .failed)
  /-- the client-started runs of a lane and a day that were admitted and have not failed -/
  daily : ∀ l : Lane, ∀ cap now, (effectiveCaps (D.caps l.account)).dailyRuns = some cap →
    s.admitted.countP (fun jt => jt.1.clientPrincipal && l.holds jt.1.key jt.1.chargedTo &&
      dayOf jt.2 = dayOf now && s.stage jt.1.msgId ≠ some .failed) ≤ cap
  /-- the runs of a lane and a month that were admitted -/
  monthly : ∀ l : Lane, ∀ cap now, (effectiveCaps (D.caps l.account)).monthlyRuns = some cap →
    s.admitted.countP (fun jt => l.holds jt.1.key jt.1.chargedTo && monthOf jt.2 = monthOf now) ≤ cap

/-- The ledger without the rows of a message id. -/
def withoutOwn (ledger : Ledger) (msgId : String) : Ledger :=
  ledger.filter fun line => line.all (·.msgId ≠ msgId)

/-- What a step owes: a drop leaves the rows of other jobs, and a job that was admitted before is
refused only where it would be without its own row. -/
structure Fair (s : State) (e : Event) (s' : State) : Prop where
  drop : ∀ d, e = .write d → ∀ row : MatterRow, row.msgId ≠ d.msgId →
    (row ∈ readMatterLedger s'.ledger ↔ row ∈ readMatterLedger s.ledger)
  refusal : ∀ job markers now dupNow, e = .claim job markers now dupNow →
    (checkRunCaps D.brand job.account (D.capsOf job) [⟨markers, s.ledger⟩] job.tagged now
      job.clientPrincipal job.organisation).isSome →
    (checkRunCaps D.brand job.account (D.capsOf job) [⟨markers, withoutOwn s.ledger job.msgId⟩]
      job.tagged now job.clientPrincipal job.organisation).isSome

variable {D} {s s' : State} {job : Job} {l l' : Lane} {rows : List MatterRow} {now dupNow : Nat}

theorem mem_lane_of_holds (held : l.holds job.key job.chargedTo = true) :
    (⟨l.account, job.organisation⟩ : Lane) ∈ lane job := by
  have keyed : job.key = some l.account := by
    simp only [Lane.holds, Bool.and_eq_true, decide_eq_true_eq] at held
    exact held.1
  unfold lane
  rw [keyed]
  rfl

/-- A row more stays below a cap where there was room for it. -/
theorem countP_concat_le {counts : MatterRow → Bool} {row : MatterRow} {cap : Nat}
    (before : rows.countP counts ≤ cap) (room : counts row = true → rows.countP counts + 1 ≤ cap) :
    (rows ++ [row]).countP counts ≤ cap := by
  rw [List.countP_append, List.countP_singleton]
  by_cases counted : counts row = true
  · rw [if_pos counted]
    exact room counted
  · rw [if_neg counted]
    exact before

/-- A lane that holds a job's row is the one its caps are counted in. -/
theorem holds_eq (is : lane job = some l) (held : l'.holds job.key job.chargedTo = true) :
    l'.account = l.account ∧ l'.holds = l.holds := by
  obtain ⟨account, keyed, rfl⟩ := Option.map_eq_some_iff.mp is
  simp only [Lane.holds, Job.chargedTo, keyed, Bool.and_eq_true, Bool.or_eq_true,
    decide_eq_true_eq, Option.some.injEq] at held
  obtain ⟨rfl, other | same⟩ := held
  · refine ⟨rfl, ?_⟩
    funext key organisation
    simp [Lane.holds, other]
  · refine ⟨rfl, ?_⟩
    funext key organisation
    by_cases generic : l'.account = "generic"
    · rw [if_pos generic] at same
      simp [Lane.holds, same]
    · simp [Lane.holds, generic]

theorem today_eq (holds : l'.holds = l.holds) : l'.today = l.today := by
  funext now rows
  unfold Lane.today Lane.countsToday
  rw [holds]

theorem thisMonth_eq (holds : l'.holds = l.holds) : l'.thisMonth = l.thisMonth := by
  funext now rows
  unfold Lane.thisMonth Lane.countsThisMonth
  rw [holds]

theorem today_day (same : dayOf dupNow = dayOf now) : l.today dupNow = l.today now := by
  funext rows
  unfold Lane.today Lane.countsToday
  rw [same]

theorem thisMonth_month (same : monthOf dupNow = monthOf now) :
    l.thisMonth dupNow = l.thisMonth now := by
  funext rows
  unfold Lane.thisMonth Lane.countsThisMonth
  rw [same]

/-- What the caps leave room for where they refuse nothing. -/
theorem room_of_passes {markers : List QueuedJob} {ledger : Ledger} {account : String}
    (keyed : job.key = some account)
    (passes : checkRunCaps D.brand job.account (D.capsOf job) [⟨markers, ledger⟩] job.tagged now
      job.clientPrincipal job.organisation = none) :
    (∀ cap, (effectiveCaps (D.capsOf job)).dailyRuns = some cap → job.clientPrincipal = true →
        (⟨account, job.organisation⟩ : Lane).today now (readMatterLedger ledger) + 1 ≤ cap) ∧
      ∀ cap, (effectiveCaps (D.capsOf job)).monthlyRuns = some cap →
        (⟨account, job.organisation⟩ : Lane).thisMonth now (readMatterLedger ledger) + 1 ≤ cap := by
  have none' := (not_congr checkRunCaps_isSome).mp (Option.not_isSome_iff_eq_none.mpr passes)
  refine ⟨fun cap is client => ?_, fun cap is => ?_⟩
  · by_contra beyond
    refine none' ⟨account, keyed, .inr (.inl (dailyRefusal_isSome.mpr ⟨client, cap, is, ?_⟩))⟩
    rw [ledgerRows_singleton]
    exact Nat.not_le.mp beyond
  · by_contra beyond
    refine none' ⟨account, keyed, .inr (.inr (monthlyRefusal_isSome.mpr ⟨cap, is, ?_⟩))⟩
    rw [ledgerRows_singleton]
    exact Nat.not_le.mp beyond

/-- What an admission that passes has found. -/
theorem admission_passes {markers : List QueuedJob} {ledger : Ledger}
    (is : D.admission s job markers now dupNow = .admitted ledger) :
    ledger = recordMatter s.ledger (job.entry dupNow) ∧
      checkRunCaps D.brand job.account (D.capsOf job) [⟨markers, s.ledger⟩] job.tagged now
        job.clientPrincipal job.organisation = none := by
  unfold admission admitJob at is
  split at is
  · cases is
  · rename_i room
    dsimp only at is
    split at is
    · cases is
    · exact ⟨(Admission.admitted.inj is).symm, room⟩

theorem isMarked_eq_false {id : String} (live : s.stage id ≠ some .failed) : isMarked s id = false := by
  simp [isMarked, live]

/-- The row of a job that was admitted. -/
def rowOf (s : State) (jt : Job × Nat) : MatterRow :=
  { jt.1.entry jt.2 with failed := isMarked s jt.1.msgId }

variable (D) in
/-- The ledger is what was charged, and no lane is over its caps. -/
structure Inv (s : State) : Prop where
  ledger : s.ledger = (s.admitted.map (rowOf s)).map some
  once : (s.admitted.map (·.1.msgId)).Nodup
  jobs : ∀ jt ∈ s.admitted, jt.1 ∈ D.jobs
  staged : ∀ id, s.stage id ≠ none ↔ id ∈ s.admitted.map (·.1.msgId)
  dropped : ∀ d ∈ s.drops, s.stage d.msgId = some .failed
  dropsOnce : (s.drops.map Drop.msgId).Nodup
  today : ∀ l : Lane, ∀ cap now, (effectiveCaps (D.caps l.account)).dailyRuns = some cap →
    l.today now (readMatterLedger s.ledger) ≤ cap
  month : ∀ l : Lane, ∀ cap now, (effectiveCaps (D.caps l.account)).monthlyRuns = some cap →
    l.thisMonth now (readMatterLedger s.ledger) ≤ cap

theorem inv_initial : D.Inv {} := by
  constructor <;> simp [readMatterLedger, Lane.today, Lane.thisMonth]

namespace Inv

variable (h : D.Inv s)

include h

theorem readLedger : readMatterLedger s.ledger = s.admitted.map (rowOf s) := by
  rw [h.ledger, readMatterLedger_map_some]

/-- A step that admits nothing and marks nothing, and keeps the ledger. -/
theorem restage (stage : String → Option Stage) (drops : List Drop)
    (same : ∀ id, isMarked { s with stage, drops } id = isMarked s id)
    (staged : ∀ id, stage id ≠ none ↔ s.stage id ≠ none)
    (dropped : ∀ d ∈ drops, stage d.msgId = some .failed)
    (dropsOnce : (drops.map Drop.msgId).Nodup) : D.Inv { s with stage, drops } where
  ledger := by
    rw [h.ledger]
    exact congrArg (List.map some) <| List.map_congr_left fun jt _ =>
      congrArg (fun failed => { jt.1.entry jt.2 with failed }) (same jt.1.msgId).symm
  once := h.once
  jobs := h.jobs
  staged id := (staged id).trans (h.staged id)
  dropped := dropped
  dropsOnce := dropsOnce
  today := h.today
  month := h.month

/-- A job that is live, or has ended with success, has no drop under way. -/
theorem no_drop {id : String} (live : s.stage id ≠ some .failed) : ∀ d ∈ s.drops, d.msgId ≠ id := by
  rintro d mem rfl
  exact live (h.dropped d mem)

theorem setStage {id : String} {stage : Stage} (live : s.stage id ≠ some .failed)
    (staged : s.stage id ≠ none) (sound : stage ≠ .failed) : D.Inv (setStage s id stage) := by
  refine h.restage _ s.drops (fun id' => ?_) (fun id' => ?_) (fun d mem => ?_) h.dropsOnce
  · by_cases own : id' = id
    · subst own
      rw [isMarked_eq_false live]
      simp [isMarked, sound]
    · simp [isMarked, Function.update_of_ne own]
  · by_cases own : id' = id
    · subst own
      simp [staged]
    · rw [Function.update_of_ne own]
  · rw [Function.update_of_ne (h.no_drop live d mem)]
    exact h.dropped d mem

theorem fail {id : String} (live : s.stage id ≠ some .failed) (staged : s.stage id ≠ none)
    (read : List MatterRow) :
    D.Inv { Deployment.setStage s id .failed with drops := ⟨id, read⟩ :: s.drops } := by
  refine h.restage (Function.update s.stage id (some .failed)) _ (fun id' => ?_) (fun id' => ?_)
    (fun d mem => ?_) ?_
  · by_cases own : id' = id
    · subst own
      rw [isMarked_eq_false live]
      simp [isMarked]
    · simp [isMarked, Function.update_of_ne own, Ne.symm own]
  · by_cases own : id' = id
    · subst own
      simp [staged]
    · rw [Function.update_of_ne own]
  · obtain rfl | mem := List.mem_cons.mp mem
    · exact Function.update_self ..
    · rw [Function.update_of_ne (h.no_drop live d mem)]
      exact h.dropped d mem
  · rw [List.map_cons, List.nodup_cons]
    refine ⟨fun mem => ?_, h.dropsOnce⟩
    obtain ⟨d, there, same⟩ := List.mem_map.mp mem
    exact h.no_drop live d there same

theorem mark_rows {d : Drop} (mem : d ∈ s.drops) (id : String) :
    isMarked { s with drops := s.drops.erase d } id = (decide (id = d.msgId) || isMarked s id) := by
  have others : (s.drops.erase d).any (·.msgId = id) = true ↔
      id ≠ d.msgId ∧ s.drops.any (·.msgId = id) = true := by
    have nodup : s.drops.Nodup := List.Nodup.of_map _ h.dropsOnce
    simp only [List.any_eq_true, decide_eq_true_eq, nodup.mem_erase_iff]
    constructor
    · rintro ⟨d', ⟨ne, there⟩, rfl⟩
      exact ⟨fun same => ne (List.inj_on_of_nodup_map h.dropsOnce there mem same), d', there, rfl⟩
    · rintro ⟨other, d', there, rfl⟩
      exact ⟨d', ⟨fun same => other (same ▸ rfl), there⟩, rfl⟩
  unfold isMarked
  by_cases own : id = d.msgId
  · subst own
    have none' : (s.drops.erase d).any (·.msgId = d.msgId) = false := by
      rw [Bool.eq_false_iff]
      exact fun some' => (others.mp some').1 rfl
    simp [h.dropped d mem, none']
  · have same : (s.drops.erase d).any (·.msgId = id) = s.drops.any (·.msgId = id) := by
      rw [Bool.eq_iff_iff, others]
      exact and_iff_right own
    simp [own, same]

theorem write {d : Drop} (mem : d ∈ s.drops) (unchanged : d.rows = readMatterLedger s.ledger) :
    D.Inv { s with ledger := dropMatter d.msgId d.rows, drops := s.drops.erase d } := by
  have marked : dropMatter d.msgId d.rows =
      (s.admitted.map (rowOf { s with drops := s.drops.erase d })).map some := by
    unfold dropMatter markFailed
    rw [unchanged, h.readLedger]
    refine congrArg (List.map some) ?_
    rw [List.map_map]
    refine List.map_congr_left fun jt _ => ?_
    unfold rowOf
    rw [h.mark_rows mem]
    by_cases own : jt.1.msgId = d.msgId
    · simp [Job.entry, own]
    · simp [Job.entry, own]
  have erased : (s.drops.erase d).Sublist s.drops := List.erase_sublist
  refine ⟨marked, h.once, h.jobs, h.staged, fun d' there => h.dropped d' (List.mem_of_mem_erase there),
    h.dropsOnce.sublist (erased.map _), fun l cap now is => ?_, fun l cap now is => ?_⟩
  · refine le_trans ?_ (h.today l cap now is)
    unfold dropMatter markFailed Lane.today
    rw [readMatterLedger_map_some, unchanged, List.countP_map]
    refine List.countP_mono_left fun e _ counted => ?_
    dsimp only [Function.comp] at counted
    split at counted
    · simp [Lane.countsToday] at counted
    · exact counted
  · refine le_trans ?_ (h.month l cap now is)
    unfold dropMatter markFailed Lane.thisMonth
    rw [readMatterLedger_map_some, unchanged, List.countP_map]
    refine List.countP_mono_left fun e _ counted => ?_
    dsimp only [Function.comp] at counted
    split at counted
    · exact counted
    · exact counted

theorem ids : (readMatterLedger s.ledger).map MatterRow.msgId = s.admitted.map (·.1.msgId) := by
  rw [h.readLedger, List.map_map]
  rfl

theorem recordMatter_eq (ts : Nat) : recordMatter s.ledger (job.entry ts) =
    if job.msgId ∈ s.admitted.map (·.1.msgId) then s.ledger else s.ledger ++ [some (job.entry ts)] := by
  have there : ((readMatterLedger s.ledger).any (·.msgId = job.msgId)) = true ↔
      job.msgId ∈ s.admitted.map (·.1.msgId) := by
    rw [← h.ids]
    simp [List.any_eq_true, List.mem_map]
  unfold recordMatter
  refine if_congr ?_ rfl rfl
  exact (and_iff_right job.named).trans there

/-- One more row of a day leaves the lane within its cap. -/
theorem today_concat {cap : Nat} (dated : DatedAsCounted s job now dupNow)
    (room : ∀ l ∈ lane job, ∀ cap, (effectiveCaps (D.caps l.account)).dailyRuns = some cap →
      job.clientPrincipal = true → l.today now (readMatterLedger s.ledger) + 1 ≤ cap)
    (is : (effectiveCaps (D.caps l.account)).dailyRuns = some cap) (now' : Nat) :
    l.today now' (readMatterLedger s.ledger ++ [job.entry dupNow]) ≤ cap := by
  refine countP_concat_le (h.today l cap now' is) fun counted => ?_
  rw [Job.countsToday_entry, Bool.and_eq_true, Bool.and_eq_true, decide_eq_true_eq] at counted
  obtain ⟨⟨held, client⟩, day⟩ := counted
  have own := mem_lane_of_holds held
  have same := today_eq (holds_eq own held).2
  have left := room _ own cap is client
  change l.today now' _ + 1 ≤ cap
  rw [← today_day day]
  obtain asCounted | first := dated.day
  · rw [today_day asCounted, same]
    exact left
  · rw [same, first _ own]
    omega

/-- One more row of a month leaves the lane within its cap. -/
theorem month_concat {cap : Nat} (dated : DatedAsCounted s job now dupNow)
    (room : ∀ l ∈ lane job, ∀ cap, (effectiveCaps (D.caps l.account)).monthlyRuns = some cap →
      l.thisMonth now (readMatterLedger s.ledger) + 1 ≤ cap)
    (is : (effectiveCaps (D.caps l.account)).monthlyRuns = some cap) (now' : Nat) :
    l.thisMonth now' (readMatterLedger s.ledger ++ [job.entry dupNow]) ≤ cap := by
  refine countP_concat_le (h.month l cap now' is) fun counted => ?_
  rw [Job.countsThisMonth_entry, Bool.and_eq_true, decide_eq_true_eq] at counted
  obtain ⟨held, month⟩ := counted
  have own := mem_lane_of_holds held
  have same := thisMonth_eq (holds_eq own held).2
  have left := room _ own cap is
  change l.thisMonth now' _ + 1 ≤ cap
  rw [← thisMonth_month month]
  obtain asCounted | first := dated.month
  · rw [thisMonth_month asCounted, same]
    exact left
  · rw [same, first _ own]
    omega

theorem claim {markers : List QueuedJob} {ledger : Ledger} (mem : job ∈ D.jobs)
    (unfailed : s.stage job.msgId ≠ some .failed) (dated : DatedAsCounted s job now dupNow)
    (is : D.admission s job markers now dupNow = .admitted ledger) :
    D.Inv (charge s job ledger dupNow) := by
  obtain ⟨rfl, none'⟩ := admission_passes is
  have room (l : Lane) (own : l ∈ lane job) :
      (∀ cap, (effectiveCaps (D.capsOf job)).dailyRuns = some cap → job.clientPrincipal = true →
        (⟨l.account, job.organisation⟩ : Lane).today now (readMatterLedger s.ledger) + 1 ≤ cap) ∧
      ∀ cap, (effectiveCaps (D.capsOf job)).monthlyRuns = some cap →
        (⟨l.account, job.organisation⟩ : Lane).thisMonth now (readMatterLedger s.ledger) + 1 ≤ cap := by
    obtain ⟨account, keyed, rfl⟩ := Option.map_eq_some_iff.mp own
    exact room_of_passes keyed none'
  have laneIs (l : Lane) (own : l ∈ lane job) :
      l = ⟨l.account, job.organisation⟩ ∧ D.capsOf job = D.caps l.account := by
    obtain ⟨account, keyed, rfl⟩ := Option.map_eq_some_iff.mp own
    refine ⟨rfl, ?_⟩
    unfold capsOf
    rw [(Option.filter_eq_some_iff.mp keyed).1]
    rfl
  unfold charge
  rw [h.recordMatter_eq]
  by_cases there : job.msgId ∈ s.admitted.map (·.1.msgId)
  · rw [if_pos there, if_pos there]
    exact h.setStage unfailed ((h.staged _).mpr there) (by simp)
  · rw [if_neg there, if_neg there]
    have unstaged : s.stage job.msgId = none := by
      by_contra staged
      exact there ((h.staged _).mp staged)
    have keeps : ∀ jt ∈ s.admitted, jt.1.msgId ≠ job.msgId := fun jt mem same =>
      there (List.mem_map.mpr ⟨jt, mem, same⟩)
    refine ⟨?_, ?_, ?_, ?_, ?_, h.dropsOnce, ?_, ?_⟩
    · dsimp only
      rw [h.ledger, List.map_append, List.map_append]
      refine congrArg₂ (· ++ ·) (congrArg (List.map some) (List.map_congr_left fun jt mem => ?_)) ?_
      · refine congrArg (fun failed => { jt.1.entry jt.2 with failed }) ?_
        simp [isMarked, Function.update_of_ne (keeps jt mem)]
      · simp [rowOf, isMarked, Job.entry]
    · dsimp only
      rw [List.map_append, List.nodup_append]
      refine ⟨h.once, by simp, ?_⟩
      rintro _ mem _ new rfl
      obtain ⟨jt, mem, same⟩ := List.mem_map.mp mem
      exact keeps jt mem (same.trans (by simpa using new))
    · intro jt mem'
      obtain mem' | new := List.mem_append.mp mem'
      · exact h.jobs jt mem'
      · obtain rfl := List.mem_singleton.mp new
        exact mem
    · intro id
      dsimp only
      rw [List.map_append, List.mem_append]
      by_cases own : id = job.msgId
      · subst own
        simp
      · rw [Function.update_of_ne own, h.staged]
        simp [own]
    · intro d mem'
      dsimp only
      rw [Function.update_of_ne (h.no_drop unfailed d mem')]
      exact h.dropped d mem'
    · intro l cap now' capped
      rw [readMatterLedger_append]
      refine h.today_concat dated (fun l own cap capped client => ?_) capped now'
      rw [(laneIs l own).1]
      exact (room l own).1 cap ((laneIs l own).2 ▸ capped) client
    · intro l cap now' capped
      rw [readMatterLedger_append]
      refine h.month_concat dated (fun l own cap capped => ?_) capped now'
      rw [(laneIs l own).1]
      exact (room l own).2 cap ((laneIs l own).2 ▸ capped)

/-- A plain step keeps the ledger what was charged. -/
theorem step {e : Event} (plain : D.Plain s e) (is : D.step s e = some s') : D.Inv s' := by
  cases e with
  | claim job markers now dupNow =>
    obtain ⟨unfailed, -, dated⟩ := plain
    unfold Deployment.step at is
    dsimp only at is
    split at is
    · rename_i may
      split at is
      · rename_i ledger passes
        obtain rfl := Option.some.inj is
        exact h.claim may.1 unfailed dated passes
      · obtain rfl := Option.some.inj is
        exact h
    · cases is
  | crash id =>
    unfold Deployment.step at is
    dsimp only at is
    split at is
    · rename_i running
      obtain rfl := Option.some.inj is
      exact h.setStage (by simp [running]) (by simp [running]) (by simp)
    · cases is
  | succeed id =>
    unfold Deployment.step at is
    dsimp only at is
    split at is
    · rename_i running
      obtain rfl := Option.some.inj is
      exact h.setStage (by simp [running]) (by simp [running]) (by simp)
    · cases is
  | fail id =>
    unfold Deployment.step at is
    dsimp only at is
    split at is
    · rename_i live
      obtain rfl := Option.some.inj is
      unfold isLive at live
      have live : s.stage id = some .running ∨ s.stage id = some .crashed := by simpa using live
      refine h.fail ?_ ?_ _
      · obtain running | crashed := live
        · simp [running]
        · simp [crashed]
      · obtain running | crashed := live
        · simp [running]
        · simp [crashed]
    · cases is
  | write d =>
    unfold Deployment.step at is
    dsimp only at is
    split at is
    · rename_i mem
      obtain rfl := Option.some.inj is
      exact h.write mem plain
    · cases is
  | lose d => exact plain.elim

theorem failed_iff {row : MatterRow} (mem : row ∈ readMatterLedger s.ledger)
    (written : ∀ d ∈ s.drops, d.msgId ≠ row.msgId) :
    row.failed = true ↔ s.stage row.msgId = some .failed := by
  rw [h.readLedger] at mem
  obtain ⟨jt, -, rfl⟩ := List.mem_map.mp mem
  have none' : s.drops.any (·.msgId = jt.1.msgId) = false := by
    rw [List.any_eq_false]
    intro d there same
    exact written d there (of_decide_eq_true same)
  simp [rowOf, isMarked, none']

/-- A job that counts against the day, and has not failed, has a row that does. -/
theorem daily_le (l : Lane) (now : Nat) :
    s.admitted.countP (fun jt => jt.1.clientPrincipal && l.holds jt.1.key jt.1.chargedTo &&
        dayOf jt.2 = dayOf now && s.stage jt.1.msgId ≠ some .failed) ≤
      l.today now (readMatterLedger s.ledger) := by
  unfold Lane.today
  rw [h.readLedger, List.countP_map]
  refine List.countP_mono_left fun jt _ counted => ?_
  rw [Bool.and_eq_true, Bool.and_eq_true, Bool.and_eq_true, decide_eq_true_eq,
    decide_eq_true_eq] at counted
  obtain ⟨⟨⟨client, held⟩, day⟩, unfailed⟩ := counted
  have unmarked : isMarked s jt.1.msgId = false := isMarked_eq_false unfailed
  have same : rowOf s jt = jt.1.entry jt.2 := by
    unfold rowOf
    rw [unmarked]
    rfl
  rw [Function.comp_apply, same, Job.countsToday_entry, client, held, decide_eq_true day]
  rfl

theorem monthly_eq (l : Lane) (now : Nat) :
    s.admitted.countP (fun jt => l.holds jt.1.key jt.1.chargedTo && monthOf jt.2 = monthOf now) =
      l.thisMonth now (readMatterLedger s.ledger) := by
  unfold Lane.thisMonth
  rw [h.readLedger, List.countP_map]
  refine List.countP_congr fun jt _ => ?_
  have same : l.countsThisMonth now (rowOf s jt) = l.countsThisMonth now (jt.1.entry jt.2) := rfl
  rw [Function.comp_apply, same, Job.countsThisMonth_entry]

theorem charged : D.Charged s where
  rows := h.readLedger
  once := h.once
  jobs := h.jobs
  failed _ mem := h.failed_iff mem
  daily l cap now is := (h.daily_le l now).trans (h.today l cap now is)
  monthly l cap now is := (h.monthly_eq l now).trans_le (h.month l cap now is)

omit h in
theorem readMatterLedger_withoutOwn (ledger : Ledger) (msgId : String) :
    readMatterLedger (withoutOwn ledger msgId) =
      (readMatterLedger ledger).filter (·.msgId ≠ msgId) := by
  induction ledger with
  | nil => rfl
  | cons line rest ih =>
    unfold readMatterLedger withoutOwn at ih ⊢
    cases line with
    | none => simpa using ih
    | some row =>
      by_cases own : row.msgId = msgId
      · simpa [own] using ih
      · simpa [own] using ih

omit h in
/-- Where no row of a message id counts, the count is the same without them. -/
theorem countP_without {rows : List MatterRow} {p : MatterRow → Bool} {msgId : String}
    (uncounted : ∀ row ∈ rows, row.msgId = msgId → p row = false) :
    (rows.filter (·.msgId ≠ msgId)).countP p = rows.countP p := by
  rw [List.countP_filter]
  refine List.countP_congr fun row mem => ?_
  by_cases own : row.msgId = msgId
  · simp [uncounted row mem own]
  · simp [own]

/-- A refusal that stands with the ledger stands without the job's own row. -/
theorem refusal {markers : List QueuedJob} (notOwn : D.NotFullOfItself s job now)
    (refused : (checkRunCaps D.brand job.account (D.capsOf job) [⟨markers, s.ledger⟩] job.tagged now
      job.clientPrincipal job.organisation).isSome) :
    (checkRunCaps D.brand job.account (D.capsOf job) [⟨markers, withoutOwn s.ledger job.msgId⟩]
      job.tagged now job.clientPrincipal job.organisation).isSome := by
  obtain ⟨key, keyed, refused⟩ := checkRunCaps_isSome.mp refused
  refine checkRunCaps_isSome.mpr ⟨key, keyed, ?_⟩
  have own : (⟨key, job.organisation⟩ : Lane) ∈ lane job := by
    unfold lane Job.key
    rw [keyed]
    rfl
  have capsIs : D.capsOf job = D.caps key := by
    unfold capsOf
    rw [(Option.filter_eq_some_iff.mp keyed).1]
    rfl
  obtain queued | daily | monthly := refused
  · exact .inl queued
  · obtain ⟨client, cap, allowance, beyond⟩ := dailyRefusal_isSome.mp daily
    refine .inr (.inl (dailyRefusal_isSome.mpr ⟨client, cap, allowance, ?_⟩))
    rw [ledgerRows_singleton] at beyond ⊢
    -- the lane is exactly full, so the job's own row is not among those counted
    have within := h.today ⟨key, job.organisation⟩ cap now (capsIs ▸ allowance)
    have full : cap = Lane.today ⟨key, job.organisation⟩ now (readMatterLedger s.ledger) := by omega
    have uncounted : ∀ row ∈ readMatterLedger s.ledger, row.msgId = job.msgId →
        Lane.countsToday ⟨key, job.organisation⟩ now row = false := by
      intro row mem is
      rw [Bool.eq_false_iff]
      exact fun counted => notOwn.today _ own row mem is counted (full ▸ allowance)
    have same := countP_without uncounted
    unfold Lane.today at beyond ⊢
    rw [readMatterLedger_withoutOwn, same]
    exact beyond
  · obtain ⟨cap, allowance, beyond⟩ := monthlyRefusal_isSome.mp monthly
    refine .inr (.inr (monthlyRefusal_isSome.mpr ⟨cap, allowance, ?_⟩))
    rw [ledgerRows_singleton] at beyond ⊢
    have within := h.month ⟨key, job.organisation⟩ cap now (capsIs ▸ allowance)
    have full : cap = Lane.thisMonth ⟨key, job.organisation⟩ now (readMatterLedger s.ledger) := by omega
    have uncounted : ∀ row ∈ readMatterLedger s.ledger, row.msgId = job.msgId →
        Lane.countsThisMonth ⟨key, job.organisation⟩ now row = false := by
      intro row mem is
      rw [Bool.eq_false_iff]
      exact fun counted => notOwn.month _ own row mem is counted (full ▸ allowance)
    have same := countP_without uncounted
    unfold Lane.thisMonth at beyond ⊢
    rw [readMatterLedger_withoutOwn, same]
    exact beyond

theorem fair {e : Event} (plain : D.Plain s e) (is : D.step s e = some s') : D.Fair s e s' where
  drop d isWrite row other := by
    subst isWrite
    unfold Deployment.step at is
    dsimp only at is
    split at is
    · obtain rfl := Option.some.inj is
      dsimp only
      unfold dropMatter
      rw [readMatterLedger_map_some, mem_markFailed_of_ne other, plain]
    · cases is
  refusal job markers now dupNow isClaim refused := by
    subst isClaim
    exact h.refusal plain.2.1 refused

end Inv

/-- In every run of plain steps each job is charged once, to its own account, and no step is unfair. -/
theorem matters_charged_once (D : Deployment) {s : State} (reached : D.PlainRun s) :
    D.Charged s ∧ ∀ e s', D.Plain s e → D.step s e = some s' → D.Fair s e s' := by
  have inv : D.Inv s := by
    refine reached.invariant ?_ ?_
    · rintro _ rfl
      exact inv_initial
    · rintro s s' h ⟨e, plain, is⟩
      exact h.step plain is
  exact ⟨inv.charged, fun e s' => inv.fair⟩

/-- The state these events lead to, if each can happen. -/
def after (D : Deployment) (events : List Event) : Option State := events.foldlM D.step {}

def clientJob (msgId sig : String) (named : msgId ≠ "") : Job :=
  { msgId, named, sig, conversationId := "", account := some "acme", tenant := none, tagged := true
    clientPrincipal := true, dupOverride := false }

def lunaJob : Job := clientJob "<1@acme>" "a@acme|luna|9|acme|" (by decide)

def solaJob : Job := clientJob "<2@acme>" "a@acme|sola|9|acme|" (by decide)

/-- Two jobs of one account, with so many searches a day. -/
def twoJobs (dailyRuns : Nat) : Deployment where
  brand := "Clearotron"
  caps := fun _ => some { dailyRuns := some dailyRuns }
  jobs := [lunaJob, solaJob]
  distinct := by decide

/-- The message ids of the ledger's rows, and whether they are marked. -/
def marks (s : State) : List (String × Bool) :=
  (readMatterLedger s.ledger).map fun e => (e.msgId, e.failed)

/-- A run claimed again after a crash is refused the one search its own row has used up; a row
appended while a drop is under way is lost; and a job that failed and was sent again keeps its
mark when it succeeds. -/
theorem charges_go_wrong :
    (((twoJobs 1).after [.claim lunaJob [] 1000 1000, .crash "<1@acme>"]).map fun s =>
        ((checkRunCaps "Clearotron" (some "acme") ((twoJobs 1).caps "acme") [⟨[], s.ledger⟩] true 2000
            true none).isSome,
          (checkRunCaps "Clearotron" (some "acme") ((twoJobs 1).caps "acme")
            [⟨[], withoutOwn s.ledger "<1@acme>"⟩] true 2000 true none).isSome)) =
      some (true, false) ∧
    (((twoJobs 5).after [.claim lunaJob [] 1000 1000, .fail "<1@acme>", .claim solaJob [] 2000 2000,
        .write ⟨"<1@acme>", [lunaJob.entry 1000]⟩]).map fun s =>
        (marks s, s.admitted.map (·.1.msgId))) =
      some ([("<1@acme>", true)], ["<1@acme>", "<2@acme>"]) ∧
    (((twoJobs 5).after [.claim lunaJob [] 1000 1000, .fail "<1@acme>",
        .write ⟨"<1@acme>", [lunaJob.entry 1000]⟩, .claim lunaJob [] 2000 2000,
        .succeed "<1@acme>"]).map fun s => (marks s, s.stage "<1@acme>")) =
      some ([("<1@acme>", true)], some .succeeded) := by
  decide +kernel

/-- A job whose message id is in no row of the ledger is not counted against itself. -/
theorem notFullOfItself_of_fresh {D : Deployment} {s : State} {job : Job} {now : Nat}
    (fresh : ∀ row ∈ readMatterLedger s.ledger, row.msgId ≠ job.msgId) :
    D.NotFullOfItself s job now where
  today _ _ row mem own := absurd own (fresh row mem)
  month _ _ row mem own := absurd own (fresh row mem)

/-- The first job fails, its drop is written, and the second is claimed: each has one row, and
the first one's is marked. -/
theorem matters_charged_once_twoJobs :
    ∃ s, (twoJobs 5).Charged s ∧ marks s = [("<1@acme>", true), ("<2@acme>", false)] ∧
      s.admitted.map (·.1.msgId) = ["<1@acme>", "<2@acme>"] := by
  let claimed := charge {} lunaJob [some (lunaJob.entry 1000)] 1000
  let drop : Drop := ⟨"<1@acme>", readMatterLedger claimed.ledger⟩
  let failed : State := { setStage claimed "<1@acme>" .failed with drops := [drop] }
  let dropped : State :=
    { failed with ledger := dropMatter "<1@acme>" drop.rows, drops := [drop].erase drop }
  let both := charge dropped solaJob (dropped.ledger ++ [some (solaJob.entry 2000)]) 2000
  have fresh : ∀ row ∈ readMatterLedger dropped.ledger, row.msgId ≠ solaJob.msgId := by
    decide +kernel
  have first : (twoJobs 5).PlainRun claimed := by
    refine .step (.start rfl)
      ⟨.claim lunaJob [] 1000 1000, ⟨nofun, notFullOfItself_of_fresh nofun, .inl rfl, .inl rfl⟩, ?_⟩
    have admitted : (twoJobs 5).admission {} lunaJob [] 1000 1000 =
        .admitted [some (lunaJob.entry 1000)] := by decide +kernel
    simp only [step]
    rw [if_pos (by decide +kernel), admitted]
  have second : (twoJobs 5).PlainRun dropped := by
    have ended : (twoJobs 5).PlainRun failed := by
      refine .step first ⟨.fail "<1@acme>", trivial, ?_⟩
      simp only [step]
      rw [if_pos (by decide +kernel)]
      rfl
    refine .step ended ⟨.write drop, rfl, ?_⟩
    · simp only [step]
      rw [if_pos (by decide +kernel)]
  have reached : (twoJobs 5).PlainRun both := by
    refine .step second ⟨.claim solaJob [] 2000 2000,
      ⟨by decide +kernel, notFullOfItself_of_fresh fresh, .inl rfl, .inl rfl⟩, ?_⟩
    have admitted : (twoJobs 5).admission dropped solaJob [] 2000 2000 =
        .admitted (dropped.ledger ++ [some (solaJob.entry 2000)]) := by decide +kernel
    simp only [step]
    rw [if_pos (by decide +kernel), admitted]
  exact ⟨both, (matters_charged_once (twoJobs 5) reached).1, by decide +kernel, by decide +kernel⟩

end Deployment

end Clearotron.Matters
