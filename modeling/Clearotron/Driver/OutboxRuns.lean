import Clearotron.Driver.Outbox
import Clearotron.Grants.EditRuns
import Clearotron.Library.Reaches

/-!
# Runs of the delivery outbox

The two writers of the sidecar each keep their own count. A failed wake writes it without the
strikes, so a marker that outlives good and bad wakes in turn is never set aside, and a
successful wake that leaves a marker behind writes the retries back. Strikes go by file name,
and the rescan does not look into the second directory. Where no step meets one of these, the
counts are what they count, and every marker is set aside in time.
-/

namespace Clearotron

namespace Outbox

variable {t : Tunables} {agent : String} {low : LowerCase} {w w' : Outbox} {m : Marker}
  {r r' : RunDir}

/-- The marker is named as the run is. -/
def Marker.Of (m : Marker) (r : RunDir) : Prop := m.file ∈ r.forms

instance : Decidable (m.Of r) := inferInstanceAs (Decidable (m.file ∈ r.forms))

/-- A wake that failed found no marker with a strike. -/
def FailsSoundly (agent : String) (w : Outbox) : Prop :=
  ∀ m ∈ w.markersForAgent agent, w.strikesOf m.file = 0

/-- The marker of a run that was sent says that it is a delivery, and its name is the id of
that run and of no run that was not sent. -/
def NamesSent (w : Outbox) (m : Marker) : Prop :=
  (∃ r ∈ w.runs, r.sent = true ∧ m.Of r) →
    m.body.kind = "delivered" ∧ (∃ r ∈ w.runs, r.answersTo m.file = true) ∧
      ∀ r ∈ w.runs, r.answersTo m.file = true → r.sent = true

/-- A successful wake reads the marker of a sent run as one, and leaves none to be struck
while a failure is counted. -/
def SettlesSoundly (t : Tunables) (agent : String) (w : Outbox) : Prop :=
  ∀ m ∈ w.markersForAgent agent, w.NamesSent m ∧
    (w.retries = 0 ∨ t.noProgressMax ≤ w.strikesOf m.file + 1 ∨
      m.body.kind = "delivered" ∧ runIsSent w.runs m.file = true)

/-- Two run directories go by the same names or by different ones, no marker in the second
directory is named as a run that is written again, and no strike is left under the name. -/
def RescansSoundly (low : LowerCase) (agent : String) (w : Outbox) : Prop :=
  (∀ r ∈ w.runs, ∀ r' ∈ w.runs, r.forms = r'.forms ∨ ∀ id ∈ r.forms, id ∉ r'.forms) ∧
    ∀ r ∈ w.runs, ∀ p, r.owes low = some p → w.missing r = true →
      (∀ m ∈ w.legacyOutbox, ¬ m.Of r) ∧
        ((Body.lines p.2).who = some agent → w.strikesOf p.1 = 0)

/-- The step meets none of the outbox's gaps. -/
def Sound (t : Tunables) (agent : String) (low : LowerCase) (w : Outbox) : Act → Prop
  | .drop _ file body => body.who = some agent → w.strikesOf file = 0
  | .wake _ k =>
    ((classifyWake k).isSome = true → w.FailsSoundly agent) ∧
      (classifyWake k = none → w.SettlesSoundly t agent)
  | .rescan => w.RescansSoundly low agent
  | _ => True

instance : Decidable (w.FailsSoundly agent) :=
  inferInstanceAs (Decidable (∀ m ∈ w.markersForAgent agent, w.strikesOf m.file = 0))

instance : Decidable (w.NamesSent m) :=
  inferInstanceAs (Decidable ((∃ r ∈ w.runs, r.sent = true ∧ m.Of r) →
    m.body.kind = "delivered" ∧ (∃ r ∈ w.runs, r.answersTo m.file = true) ∧
      ∀ r ∈ w.runs, r.answersTo m.file = true → r.sent = true))

instance : Decidable (w.SettlesSoundly t agent) :=
  inferInstanceAs (Decidable (∀ m ∈ w.markersForAgent agent, w.NamesSent m ∧
    (w.retries = 0 ∨ t.noProgressMax ≤ w.strikesOf m.file + 1 ∨
      m.body.kind = "delivered" ∧ runIsSent w.runs m.file = true)))

/-- One sound step. -/
def SoundStep (t : Tunables) (agent : String) (low : LowerCase) (w w' : Outbox) : Prop :=
  ∃ a, w.Sound t agent low a ∧ w' = w.step t agent low a

/-- The outbox after sound steps, from any set of markers. -/
def SoundRun (t : Tunables) (agent : String) (low : LowerCase) : Outbox → Prop :=
  Reaches Fresh (SoundStep t agent low)

theorem SoundRun.next (run : SoundRun t agent low w) (a : Act) (sound : w.Sound t agent low a) :
    SoundRun t agent low (w.step t agent low a) :=
  Reaches.step run ⟨a, sound, rfl⟩

/-- The counts are what they count. -/
structure Kept (t : Tunables) (agent : String) (w : Outbox) : Prop where
  strikes : ∀ m ∈ w.markersForAgent agent, w.strikesOf m.file = m.survived
  left : ∀ m ∈ w.markersForAgent agent, m.survived < t.noProgressMax
  retries : w.retries = w.failures

theorem mem_markersForAgent : m ∈ w.markersForAgent agent ↔
    (m ∈ w.outbox ∨ m ∈ w.legacyOutbox) ∧ m.body.who = some agent := by
  simp [markersForAgent, or_and_right]

theorem mem_write {x : Marker} {dir : List Marker} :
    x ∈ write m dir ↔ x = m ∨ x ∈ dir ∧ x.file ≠ m.file := by
  simp [write]

/-- What a wake makes of the markers so far. -/
theorem foldl_settleMarker (ms : List Marker) (acc : Settled) (f : String) :
    ((ms.foldl (w.settleMarker t) acc).strikes.get f =
        if ∃ m ∈ ms, m.file = f ∧ w.fate t m = .struck (w.strikesOf m.file + 1) then
          some (w.strikesOf f + 1)
        else acc.strikes.get f) ∧
      (f ∈ (ms.foldl (w.settleMarker t) acc).quarantined ↔
        f ∈ acc.quarantined ∨ ∃ m ∈ ms, m.file = f ∧ w.fate t m = .setAside) := by
  induction ms generalizing acc with
  | nil => simp
  | cons m rest ih =>
    obtain ⟨struck, aside⟩ := ih (w.settleMarker t acc m)
    rw [List.foldl_cons, struck, aside]
    unfold settleMarker
    rcases h : w.fate t m with _ | _ | n
    · simp [h]
    · simp [h]
      tauto
    · obtain rfl : n = w.strikesOf m.file + 1 := by
        unfold fate at h
        split at h
        · cases h
        · split at h
          · cases h
          · exact (Fate.struck.inj h).symm
      refine ⟨?_, by simp [h]⟩
      by_cases later : ∃ x ∈ rest, x.file = f ∧ w.fate t x = .struck (w.strikesOf x.file + 1)
      · obtain ⟨x, mem, same, fate⟩ := later
        rw [if_pos ⟨x, mem, same, fate⟩, if_pos ⟨x, by simp [mem], same, fate⟩]
      · rw [if_neg later, Keyed.get_set]
        by_cases same : f = m.file
        · subst same
          rw [if_pos rfl, if_pos ⟨m, by simp, rfl, h⟩]
        · rw [if_neg same, if_neg]
          rintro ⟨x, mem, name, fate⟩
          obtain rfl | mem := List.mem_cons.mp mem
          · exact same name.symm
          · exact later ⟨x, mem, name, fate⟩

section Settle

variable {now : ℕ} {f : String}

theorem settled_strikes : (w.settled t agent).strikes.get f =
    if ∃ m ∈ w.markersForAgent agent, m.file = f ∧
      w.fate t m = .struck (w.strikesOf m.file + 1) then some (w.strikesOf f + 1) else none := by
  rw [settled, (foldl_settleMarker _ _ f).1]
  rfl

theorem mem_settled_quarantined : f ∈ (w.settled t agent).quarantined ↔
    ∃ m ∈ w.markersForAgent agent, m.file = f ∧ w.fate t m = .setAside := by
  rw [settled, (foldl_settleMarker _ _ f).2]
  simp

theorem entries_eq_nil {strikes : Keyed String ℕ} (none' : ∀ f, strikes.get f = none) :
    strikes.entries = [] := by
  refine List.eq_nil_iff_forall_not_mem.mpr fun kv mem => ?_
  cases (Keyed.get_eq_some.mpr mem).symm.trans (none' kv.1)

theorem eq_empty {strikes : Keyed String ℕ} (none' : strikes.entries = []) :
    strikes = .empty := by
  obtain ⟨entries, nodup⟩ := strikes
  subst none'
  rfl

theorem left_of_other (other : m.body.who ≠ some agent) : w.left t agent m = some m := by
  rw [left, if_neg other]

theorem filterMap_left {dir : List Marker} (none' : ∀ m ∈ dir, m.body.who ≠ some agent) :
    dir.filterMap (w.left t agent) = dir := by
  rw [List.filterMap_congr fun m mem => left_of_other (none' m mem), List.filterMap_some]

/-- What a successful wake leaves of the directories, of the strikes and of the retries. -/
theorem settleProgress_eq (w : Outbox) :
    (w.settleProgress t agent now).2.outbox = w.outbox.filterMap (w.left t agent) ∧
      (w.settleProgress t agent now).2.legacyOutbox =
        w.legacyOutbox.filterMap (w.left t agent) ∧
      (w.settleProgress t agent now).2.quarantine =
        w.quarantine ++ (w.settled t agent).quarantined ∧
      (w.settleProgress t agent now).2.strikes = (w.settled t agent).strikes ∧
      (w.settleProgress t agent now).2.retries =
        if (w.settled t agent).strikes.entries = [] then 0 else w.retries := by
  unfold settleProgress
  split
  · rename_i none'
    have others (m : Marker) (mem : m ∈ w.outbox ∨ m ∈ w.legacyOutbox) :
        m.body.who ≠ some agent := fun routed => by
      have : m ∈ w.markersForAgent agent := mem_markersForAgent.mpr ⟨mem, routed⟩
      simp [none'] at this
    have nothing : w.settled t agent = {} := by rw [settled, none']; rfl
    rw [nothing, filterMap_left fun m mem => others m (.inl mem),
      filterMap_left fun m mem => others m (.inr mem)]
    simp [recordSuccess, strikes, retries]
  · by_cases none' : (w.settled t agent).strikes.entries = []
    · simp only [none', writeStrikeSidecar]
      split <;> simp [recordSuccess, strikes, retries, eq_empty none']
    · simp [none', writeStrikeSidecar, strikes, retries]

theorem strikesOf_settleProgress (w : Outbox) (now : ℕ) :
    (w.settleProgress t agent now).2.strikesOf f =
      if ∃ m ∈ w.markersForAgent agent, m.file = f ∧
        w.fate t m = .struck (w.strikesOf m.file + 1) then w.strikesOf f + 1 else 0 := by
  rw [strikesOf, (settleProgress_eq w).2.2.2.1, settled_strikes]
  split <;> rfl

theorem mem_quarantine_settleProgress :
    f ∈ (w.settleProgress t agent now).2.quarantine ↔
      f ∈ w.quarantine ∨
        ∃ m ∈ w.markersForAgent agent, m.file = f ∧ w.fate t m = .setAside := by
  rw [(settleProgress_eq w).2.2.1, List.mem_append, mem_settled_quarantined]

theorem fate_struck {n : ℕ} (struck : w.fate t m = .struck n) :
    n = w.strikesOf m.file + 1 ∧ w.strikesOf m.file + 1 < t.noProgressMax := by
  unfold fate at struck
  split at struck
  · cases struck
  · split at struck
    · cases struck
    · rename_i few
      exact ⟨(Fate.struck.inj struck).symm, by omega⟩

/-- The markers of the agent after a successful wake are those that were struck. -/
theorem mem_settleProgress :
    m ∈ (w.settleProgress t agent now).2.markersForAgent agent ↔
      ∃ x ∈ w.markersForAgent agent, w.fate t x = .struck (w.strikesOf x.file + 1) ∧
        m = { x with survived := x.survived + 1 } := by
  have one (dir : List Marker) :
      (m ∈ dir.filterMap (w.left t agent) ∧ m.body.who = some agent) ↔
        ∃ x ∈ dir, x.body.who = some agent ∧ w.fate t x = .struck (w.strikesOf x.file + 1) ∧
          m = { x with survived := x.survived + 1 } := by
    rw [List.mem_filterMap]
    constructor
    · rintro ⟨⟨x, mem, kept⟩, routed⟩
      unfold left at kept
      split at kept
      · rename_i mine
        split at kept
        · rename_i n struck
          exact ⟨x, mem, mine, (fate_struck struck).1 ▸ struck, (Option.some.inj kept).symm⟩
        · cases kept
      · rename_i other
        exact absurd ((Option.some.inj kept) ▸ routed) other
    · rintro ⟨x, mem, mine, struck, rfl⟩
      refine ⟨⟨x, mem, ?_⟩, mine⟩
      rw [left, if_pos mine, struck]
  rw [mem_markersForAgent, (settleProgress_eq w).1, (settleProgress_eq w).2.1, or_and_right,
    one, one]
  simp only [mem_markersForAgent]
  constructor
  · rintro (⟨x, mem, mine, rest⟩ | ⟨x, mem, mine, rest⟩)
    · exact ⟨x, ⟨.inl mem, mine⟩, rest⟩
    · exact ⟨x, ⟨.inr mem, mine⟩, rest⟩
  · rintro ⟨x, ⟨mem | mem, mine⟩, rest⟩
    · exact .inl ⟨x, mem, mine, rest⟩
    · exact .inr ⟨x, mem, mine, rest⟩

/-- A marker named by ids of runs that were all sent is read as one of a sent run. -/
theorem runIsSent_of {runs : List RunDir} {id : String}
    (known : ∃ r ∈ runs, r.answersTo id = true)
    (sent : ∀ r ∈ runs, r.answersTo id = true → r.sent = true) : runIsSent runs id = true := by
  induction runs with
  | nil => simp at known
  | cons r rest ih =>
    unfold runIsSent
    split
    · rename_i here
      exact sent r (by simp) here
    · rename_i elsewhere
      refine ih ?_ fun x mem => sent x (by simp [mem])
      obtain ⟨x, mem, answers⟩ := known
      obtain rfl | mem := List.mem_cons.mp mem
      · exact absurd answers elsewhere
      · exact ⟨x, mem, answers⟩

theorem fate_of_sent (names : w.NamesSent m) (r : RunDir) (mem : r ∈ w.runs)
    (sent : r.sent = true) (of : m.Of r) : w.fate t m = .cleared := by
  obtain ⟨kind, known, all⟩ := names ⟨r, mem, sent, of⟩
  rw [fate, if_pos ⟨kind, runIsSent_of known all⟩]

end Settle

section Rescan

variable {acc : Outbox × List (String × String)}

/-- What a rescan leaves as it was. -/
structure Rescanned (w w' : Outbox) : Prop where
  legacyOutbox : w'.legacyOutbox = w.legacyOutbox
  quarantine : w'.quarantine = w.quarantine
  runs : w'.runs = w.runs
  sidecar : w'.sidecar = w.sidecar
  failures : w'.failures = w.failures
  kept : ∀ m ∈ w.outbox, m ∈ w'.outbox

/-- The marker that a rescan writes for the run. -/
def Redropped (low : LowerCase) (w : Outbox) (r : RunDir) (m : Marker) : Prop :=
  ∃ p, r.owes low = some p ∧ w.missing r = true ∧ m = { file := p.1, body := .lines p.2 }

theorem owes_mem_forms {p : String × String} (owes : r.owes low = some p) : p.1 ∈ r.forms := by
  unfold RunDir.owes at owes
  split at owes
  · cases owes
  · split at owes
    · cases owes
    · rename_i st known
      split at owes
      · obtain rfl := Option.some.inj owes
        simp only [RunDir.forms, known]
        split
        · simp
        · split <;> simp
      · cases owes

theorem missing_iff : w.missing r = true ↔
    ∀ id ∈ r.forms, (∀ m ∈ w.outbox, m.file ≠ id) ∧ id ∉ w.quarantine := by
  simp [missing]

/-- A name that is missing is missing while fewer markers are there. -/
theorem Rescanned.missing (scan : Rescanned w w') (missing : w'.missing r = true) :
    w.missing r = true := by
  rw [missing_iff] at missing ⊢
  intro id mem
  obtain ⟨none', aside⟩ := missing id mem
  exact ⟨fun m there => none' m (scan.kept m there), scan.quarantine ▸ aside⟩

theorem redrop_eq (acc : Outbox × List (String × String)) (r : RunDir) :
    (redrop low acc r).1 = acc.1 ∨
      ∃ m, Redropped low acc.1 r m ∧
        (redrop low acc r).1 = { acc.1 with outbox := write m acc.1.outbox } := by
  unfold redrop
  split
  · exact .inl rfl
  · rename_i runId who owes
    split
    · rename_i missing
      exact .inr ⟨_, ⟨_, owes, missing, rfl⟩, rfl⟩
    · exact .inl rfl

theorem Redropped.of (drop : Redropped low w r m) : m.Of r := by
  obtain ⟨p, owes, -, rfl⟩ := drop
  exact owes_mem_forms owes

/-- Nothing stands under the name of the marker that is written. -/
theorem Redropped.fresh (drop : Redropped low w r m) : ∀ x ∈ w.outbox, x.file ≠ m.file := by
  have of := drop.of
  obtain ⟨p, -, missing, rfl⟩ := drop
  exact (missing_iff.mp missing _ of).1

theorem rescanned_redrop (w : Outbox) (acc : Outbox × List (String × String)) (r : RunDir)
    (scan : Rescanned w acc.1) : Rescanned w (redrop low acc r).1 := by
  obtain same | ⟨m, drop, same⟩ := redrop_eq acc r
  · rw [same]
    exact scan
  · rw [same]
    exact
      { scan with
        kept := fun x mem => mem_write.mpr (.inr ⟨scan.kept x mem, drop.fresh x (scan.kept x mem)⟩) }

/-- What the rescan keeps, run after run, it keeps to the end. -/
theorem rescan_induction (inv : Outbox → Prop) (first : inv w)
    (keep : ∀ w', Rescanned w w' → inv w' → ∀ r ∈ w.runs, ∀ m, Redropped low w' r m →
      inv { w' with outbox := write m w'.outbox }) :
    Rescanned w (w.rescanOwedRuns low).1 ∧ inv (w.rescanOwedRuns low).1 := by
  have run (rs : List RunDir) (within : ∀ r ∈ rs, r ∈ w.runs)
      (acc : Outbox × List (String × String)) (scan : Rescanned w acc.1) (h : inv acc.1) :
      Rescanned w (rs.foldl (redrop low) acc).1 ∧ inv (rs.foldl (redrop low) acc).1 := by
    induction rs generalizing acc with
    | nil => exact ⟨scan, h⟩
    | cons r rest ih =>
      refine ih (fun x mem => within x (by simp [mem])) _ (rescanned_redrop w acc r scan) ?_
      obtain same | ⟨m, drop, same⟩ := redrop_eq acc r
      · rw [same]
        exact h
      · rw [same]
        exact keep _ scan h r (within r (by simp)) m drop
  exact run w.runs (fun _ mem => mem) (w, []) ⟨rfl, rfl, rfl, rfl, rfl, fun _ mem => mem⟩ first

/-- What a rescan adds is the marker of a run none of whose names stood in the outbox or in the
quarantine. -/
theorem mem_rescan (w : Outbox) (low : LowerCase) : Rescanned w (w.rescanOwedRuns low).1 ∧
    ∀ m ∈ (w.rescanOwedRuns low).1.outbox,
      m ∈ w.outbox ∨ ∃ r ∈ w.runs, Redropped low w r m := by
  refine rescan_induction (fun w' => ∀ m ∈ w'.outbox,
    m ∈ w.outbox ∨ ∃ r ∈ w.runs, Redropped low w r m) (fun m mem => .inl mem) ?_
  intro w' scan known r mem m drop x there
  obtain rfl | ⟨there, -⟩ := mem_write.mp there
  · obtain ⟨p, owes, missing, rfl⟩ := drop
    exact .inr ⟨r, mem, p, owes, scan.missing missing, rfl⟩
  · exact known x there

/-- The markers named as the run is. -/
def markersOf (w : Outbox) (r : RunDir) : ℕ :=
  (w.outbox ++ w.legacyOutbox).countP fun m => m.Of r

theorem countP_write {p : Marker → Bool} {dir : List Marker}
    (fresh : ∀ x ∈ dir, x.file ≠ m.file) :
    (write m dir).countP p = dir.countP p + if p m then 1 else 0 := by
  have all : dir.filter (fun x => x.file ≠ m.file) = dir :=
    List.filter_eq_self.mpr fun x mem => by simpa using fresh x mem
  rw [write, all, (List.perm_orderedInsert _ _ _).countP_eq, List.countP_cons]

/-- A rescan does not give a run that has a marker another one. -/
theorem markersOf_rescan (sound : w.RescansSoundly low agent) (mem : r ∈ w.runs) :
    (w.rescanOwedRuns low).1.markersOf r ≤ max 1 (w.markersOf r) := by
  refine (rescan_induction (fun w' => w'.markersOf r ≤ max 1 (w.markersOf r))
    (le_max_right _ _) ?_).2
  intro w' scan known r' mem' m drop
  have of := drop.of
  have fresh := drop.fresh
  obtain ⟨p, owes, missing, rfl⟩ := drop
  rw [markersOf, List.countP_append, countP_write fresh]
  obtain same | apart := sound.1 r mem r' mem'
  · -- the run has no marker yet
    have none' : w'.outbox.countP (fun m => m.Of r) = 0 := by
      refine List.countP_eq_zero.mpr fun x there => ?_
      simp only [Marker.Of, same, decide_eq_true_eq]
      exact fun named => (missing_iff.mp missing _ named).1 x there rfl
    have older : w'.legacyOutbox.countP (fun m => m.Of r) = 0 := by
      rw [scan.legacyOutbox]
      refine List.countP_eq_zero.mpr fun x there => ?_
      simp only [Marker.Of, same, decide_eq_true_eq]
      exact (sound.2 r' mem' p owes (scan.missing missing)).1 x there
    rw [none', older]
    split <;> omega
  · have other : ¬ Marker.Of { file := p.1, body := .lines p.2 } r := fun named =>
      apart _ named of
    rw [if_neg (by simpa using other), Nat.add_zero, ← List.countP_append]
    exact known

end Rescan

section Failures

variable {n : ℕ}

/-- The pauses grow with the failures, up to the cap. -/
theorem delaySec_mono {a b : ℕ} (le : a ≤ b) (few : b < t.maxRetries) :
    delaySec t a ≤ delaySec t b ∧ delaySec t b ≤ t.capSec := by
  rw [delaySec, delaySec, if_neg (by omega), if_neg (by omega)]
  have grows : t.baseSec * 2 ^ (a - 1) ≤ t.baseSec * 2 ^ (b - 1) :=
    Nat.mul_le_mul_left _ (Nat.pow_le_pow_right (by decide) (by omega))
  omega

/-- Where the last pause is not under the cap, they grow to the end. -/
theorem delaySec_le {a b : ℕ} (long : t.capSec ≤ t.giveupCooldownSec) (le : a ≤ b) :
    delaySec t a ≤ delaySec t b := by
  by_cases few : b < t.maxRetries
  · exact (delaySec_mono le few).1
  · rw [delaySec.eq_def t b, if_pos (by omega), delaySec]
    split
    · exact le_rfl
    · omega

/-- After a failure the next wake is due when the pause is over. -/
theorem checkDue_recordFailure {reason : String} {now later : ℕ} :
    (w.recordFailure t reason now).2.checkDue later = 0 ↔
      now + (w.recordFailure t reason now).1.waitSec * 1000 ≤ later := by
  simp only [recordFailure, checkDue]
  omega

end Failures

theorem settleWake_failed {k : Wake} {now : ℕ} {reason : String}
    (failed : classifyWake k = some reason) :
    (w.settleWake t agent k now).1 =
        { (w.recordFailure t reason now).1 with reason := some reason } ∧
      (w.settleWake t agent k now).2 =
        { (w.recordFailure t reason now).2 with failures := w.failures + 1 } := by
  rw [settleWake, failed]
  exact ⟨rfl, rfl⟩

theorem settleWake_ok {k : Wake} {now : ℕ} (ok : classifyWake k = none) :
    (w.settleWake t agent k now).2 =
      { (w.settleProgress t agent now).2 with failures := 0 } := by
  rw [settleWake, ok]

/-- While a failure is counted, a sound wake strikes no marker. -/
theorem SettlesSoundly.retries (sound : w.SettlesSoundly t agent) {now : ℕ} :
    (w.settleProgress t agent now).2.retries = 0 := by
  rw [(settleProgress_eq w).2.2.2.2]
  split
  · rfl
  · rename_i struck
    by_contra counted
    refine struck (entries_eq_nil fun f => ?_)
    rw [settled_strikes, if_neg]
    rintro ⟨m, mem, -, hit⟩
    have few := (fate_struck hit).2
    obtain none' | many | sent := (sound m mem).2
    · exact counted none'
    · omega
    · rw [fate, if_pos sent] at hit
      cases hit

namespace Kept

theorem of_fresh (fresh : Fresh w) : Kept t agent w := by
  obtain ⟨none', failures, unstruck⟩ := fresh
  have zero (m : Marker) (mem : m ∈ w.markersForAgent agent) : m.survived = 0 :=
    unstruck m (List.mem_append.mpr (mem_markersForAgent.mp mem).1)
  constructor
  · intro m mem
    rw [zero m mem, strikesOf, Outbox.strikes, none']
    rfl
  · intro m mem
    rw [zero m mem]
    exact t.progress_pos
  · rw [failures, Outbox.retries, none']
    rfl

/-- A step that adds only markers with no strike, and does not write the sidecar. -/
theorem of_added (kept : Kept t agent w) (sidecar : w'.sidecar = w.sidecar)
    (failures : w'.failures = w.failures)
    (added : ∀ m ∈ w'.markersForAgent agent,
      m ∈ w.markersForAgent agent ∨ m.survived = 0 ∧ w.strikesOf m.file = 0) :
    Kept t agent w' := by
  have strikesOf (f : String) : w'.strikesOf f = w.strikesOf f := by
    rw [Outbox.strikesOf, Outbox.strikesOf, Outbox.strikes, Outbox.strikes, sidecar]
  constructor
  · intro m mem
    rw [strikesOf]
    obtain old | ⟨new, none'⟩ := added m mem
    · exact kept.strikes m old
    · rw [new, none']
  · intro m mem
    obtain old | ⟨new, -⟩ := added m mem
    · exact kept.left m old
    · rw [new]
      exact t.progress_pos
  · rw [failures, ← kept.retries, Outbox.retries, Outbox.retries, sidecar]

theorem of_failed (kept : Kept t agent w) {reason : String} {now : ℕ}
    (sound : w.FailsSoundly agent) :
    Kept t agent { (w.recordFailure t reason now).2 with failures := w.failures + 1 } := by
  constructor
  · intro m mem
    rw [← kept.strikes m mem, sound m mem]
    rfl
  · exact kept.left
  · exact congrArg (· + 1) kept.retries

theorem of_settled (kept : Kept t agent w) {now : ℕ} (sound : w.SettlesSoundly t agent) :
    Kept t agent { (w.settleProgress t agent now).2 with failures := 0 } := by
  constructor
  · intro m mem
    obtain ⟨x, there, struck, rfl⟩ := mem_settleProgress.mp mem
    refine (strikesOf_settleProgress w now).trans ?_
    rw [if_pos ⟨x, there, rfl, struck⟩, kept.strikes x there]
  · intro m mem
    obtain ⟨x, there, struck, rfl⟩ := mem_settleProgress.mp mem
    have few := (fate_struck struck).2
    rw [kept.strikes x there] at few
    exact few
  · exact sound.retries

theorem step (kept : Kept t agent w) (a : Act) (sound : w.Sound t agent low a) :
    Kept t agent (w.step t agent low a) := by
  cases a with
  | drop old file body =>
    have added (m : Marker) (mem : m ∈ (w.step t agent low (.drop old file body)).markersForAgent
        agent) : m ∈ w.markersForAgent agent ∨ m.survived = 0 ∧ w.strikesOf m.file = 0 := by
      obtain ⟨there, mine⟩ := mem_markersForAgent.mp mem
      have here : m ∈ w.outbox ∨ m ∈ w.legacyOutbox ∨ m = { file, body } := by
        cases old <;> simp only [Outbox.step, mem_write] at there <;> tauto
      obtain old' | old' | rfl := here
      · exact .inl (mem_markersForAgent.mpr ⟨.inl old', mine⟩)
      · exact .inl (mem_markersForAgent.mpr ⟨.inr old', mine⟩)
      · exact .inr ⟨rfl, sound mine⟩
    cases old <;> exact kept.of_added rfl rfl added
  | ack old file =>
    have added (m : Marker) (mem : m ∈ (w.step t agent low (.ack old file)).markersForAgent
        agent) : m ∈ w.markersForAgent agent := by
      obtain ⟨there, mine⟩ := mem_markersForAgent.mp mem
      refine mem_markersForAgent.mpr ⟨?_, mine⟩
      cases old <;> simp only [Outbox.step, List.mem_filter] at there <;> tauto
    cases old <;> exact kept.of_added rfl rfl fun m mem => .inl (added m mem)
  | takeBack file => exact kept.of_added rfl rfl fun m mem => .inl mem
  | runsGoOn runs => exact kept.of_added rfl rfl fun m mem => .inl mem
  | wake now k =>
    cases failed : classifyWake k with
    | some reason =>
      rw [Outbox.step, (settleWake_failed failed).2]
      exact kept.of_failed (sound.1 (by simp [failed]))
    | none =>
      rw [Outbox.step, settleWake_ok failed]
      exact kept.of_settled (sound.2 failed)
  | rescan =>
    obtain ⟨scan, new⟩ := mem_rescan w low
    refine kept.of_added scan.sidecar scan.failures fun m mem => ?_
    obtain ⟨there, mine⟩ := mem_markersForAgent.mp mem
    obtain there | there := there
    · obtain old | ⟨r, run, p, owes, missing, rfl⟩ := new m there
      · exact .inl (mem_markersForAgent.mpr ⟨.inl old, mine⟩)
      · exact .inr ⟨rfl, (sound.2 r run p owes missing).2 mine⟩
    · exact .inl (mem_markersForAgent.mpr ⟨.inr (scan.legacyOutbox ▸ there), mine⟩)

end Kept

theorem kept_of_run (run : SoundRun t agent low w) : Kept t agent w := by
  refine run.invariant (fun _ fresh => .of_fresh fresh) ?_
  rintro w _ kept ⟨a, sound, rfl⟩
  exact kept.step a sound

/-- What a failed wake does: it counts one failure more, gives up at the last one, and leaves
every strike of a marker and every marker where it is. -/
structure FailsWell (t : Tunables) (agent : String) (w : Outbox) (answer : Answer)
    (w' : Outbox) : Prop where
  outcome : answer.outcome = if t.maxRetries ≤ w.failures + 1 then .giveup else .retry
  waits : answer.waitSec = delaySec t (w.failures + 1)
  strikes : ∀ m ∈ w.markersForAgent agent, w'.strikesOf m.file = w.strikesOf m.file
  markers : w'.markersForAgent agent = w.markersForAgent agent
  quarantine : w'.quarantine = w.quarantine

/-- What a successful wake does: the count of failures ends, the marker of a sent run is
neither struck nor set aside, and one that has survived its last wake is in the quarantine. -/
structure SettlesWell (t : Tunables) (agent : String) (w w' : Outbox) : Prop where
  ends : w'.retries = 0
  sent : ∀ m ∈ w.markersForAgent agent, ∀ r ∈ w.runs, r.sent = true → m.Of r →
    w'.strikesOf m.file = 0 ∧ (m.file ∈ w'.quarantine → m.file ∈ w.quarantine)
  stuck : ∀ m ∈ w.markersForAgent agent, m.survived + 1 = t.noProgressMax →
    w.fate t m ≠ .cleared →
      m.file ∈ w'.quarantine ∧ ∀ x ∈ w'.markersForAgent agent, x.file ≠ m.file

/-- What a rescan does: it gives no run a second marker, and writes none for a run that has one
in the quarantine. -/
structure RescansWell (w w' : Outbox) : Prop where
  one : ∀ r ∈ w.runs, w'.markersOf r ≤ max 1 (w.markersOf r)
  quarantined : ∀ m ∈ w'.outbox, m ∈ w.outbox ∨
    ∃ r ∈ w.runs, m.Of r ∧ ∀ id ∈ r.forms, id ∉ w.quarantine

/-- What is promised of a state, and of the step that is taken next. -/
structure Promised (t : Tunables) (agent : String) (low : LowerCase) (w : Outbox) : Prop where
  kept : Kept t agent w
  fails : ∀ now k, (classifyWake k).isSome = true → w.Sound t agent low (.wake now k) →
    FailsWell t agent w (w.settleWake t agent k now).1 (w.settleWake t agent k now).2
  settles : ∀ now k, classifyWake k = none → w.Sound t agent low (.wake now k) →
    SettlesWell t agent w (w.settleWake t agent k now).2
  rescans : w.Sound t agent low .rescan → RescansWell w (w.rescanOwedRuns low).1

theorem Kept.failsWell (kept : Kept t agent w) {now : ℕ} {k : Wake} {reason : String}
    (failed : classifyWake k = some reason) (sound : w.FailsSoundly agent) :
    FailsWell t agent w (w.settleWake t agent k now).1 (w.settleWake t agent k now).2 := by
  rw [(settleWake_failed failed).1, (settleWake_failed failed).2]
  constructor
  · rw [← kept.retries]
    rfl
  · rw [← kept.retries]
    rfl
  · intro m mem
    rw [sound m mem]
    rfl
  · rfl
  · rfl

theorem Kept.settlesWell (kept : Kept t agent w) {now : ℕ} {k : Wake}
    (ok : classifyWake k = none) (sound : w.SettlesSoundly t agent) :
    SettlesWell t agent w (w.settleWake t agent k now).2 := by
  rw [settleWake_ok ok]
  refine ⟨sound.retries, fun m mem r run sent of => ⟨?_, fun aside => ?_⟩,
    fun m mem last owed => ?_⟩
  · refine (strikesOf_settleProgress w now).trans (if_neg ?_)
    rintro ⟨x, there, same, struck⟩
    have named : x.Of r := by rwa [Marker.Of, same]
    rw [fate_of_sent (sound x there).1 r run sent named] at struck
    cases struck
  · obtain old | ⟨x, there, same, set⟩ := mem_quarantine_settleProgress.mp aside
    · exact old
    · have named : x.Of r := by rwa [Marker.Of, same]
      rw [fate_of_sent (sound x there).1 r run sent named] at set
      cases set
  · have full : t.noProgressMax ≤ w.strikesOf m.file + 1 := by
      rw [kept.strikes m mem]
      exact last.ge
    refine ⟨mem_quarantine_settleProgress.mpr (.inr ⟨m, mem, rfl, ?_⟩), fun x after same => ?_⟩
    · by_cases sent : m.body.kind = "delivered" ∧ runIsSent w.runs m.file = true
      · exact absurd (by rw [fate, if_pos sent]) owed
      · rw [fate, if_neg sent, if_pos full]
    · obtain ⟨y, -, struck, rfl⟩ := mem_settleProgress.mp after
      have few := (fate_struck struck).2
      rw [show y.file = m.file from same] at few
      omega

theorem rescansWell (sound : w.RescansSoundly low agent) :
    RescansWell w (w.rescanOwedRuns low).1 := by
  refine ⟨fun r mem => markersOf_rescan sound mem, fun m there => ?_⟩
  obtain old | ⟨r, run, drop⟩ := (mem_rescan w low).2 m there
  · exact .inl old
  · have of := drop.of
    obtain ⟨p, -, missing, -⟩ := drop
    exact .inr ⟨r, run, of, fun id mem => (missing_iff.mp missing id mem).2⟩

/-- Along a sound run, from any set of markers, each marker is set aside after its last wake
and no other's strikes are counted for it, a run that was sent is left alone, a rescan writes
no second marker, and the pauses grow until the failures are given up. -/
theorem stops_and_loses_nothing (t : Tunables) (agent : String) (low : LowerCase) (w : Outbox)
    (run : SoundRun t agent low w) :
    Promised t agent low w ∧
      (∀ a b, a ≤ b → b < t.maxRetries →
        delaySec t a ≤ delaySec t b ∧ delaySec t b ≤ t.capSec) ∧
      (t.capSec ≤ t.giveupCooldownSec → ∀ a b, a ≤ b → delaySec t a ≤ delaySec t b) ∧
      ∀ reason now later, (w.recordFailure t reason now).2.checkDue later = 0 ↔
        now + (w.recordFailure t reason now).1.waitSec * 1000 ≤ later := by
  have kept := kept_of_run run
  refine ⟨⟨kept, fun now k failed sound => ?_, fun now k ok sound => ?_, fun sound => ?_⟩,
    fun a b le few => delaySec_mono le few, fun long a b le => delaySec_le long le,
    fun reason now later => checkDue_recordFailure⟩
  · obtain ⟨reason, failed'⟩ := Option.isSome_iff_exists.mp failed
    exact kept.failsWell failed' (sound.1 failed)
  · exact kept.settlesWell ok (sound.2 ok)
  · exact rescansWell sound

/-- One delivery for an agent, under an id that no run has. -/
def oneDelivery : Outbox where
  outbox := [{ file := "aurora-1", body := .packet (some "ann") none }]
  legacyOutbox := []
  quarantine := []
  runs := [{ leaf := "borealis-2", status := some {}, sent := true }]
  sidecar := none
  failures := 0

/-- The defaults. -/
def Tunables.production : Tunables := {}

def okWake : Wake := { code := 0, json := some { status := some "ok", stopReason := none } }

def killedWake : Wake := { code := 124, json := none }

/-- A wake is killed; the delivery is taken up, one of the run that was sent is left, and the
agent is woken; and the first delivery comes again and outlives a second good wake. -/
def wokenAgain : Outbox :=
  [.wake 0 killedWake, .ack false "aurora-1", .drop false "borealis-2" (.packet (some "ann") none),
    .wake 60000 okWake, .drop false "aurora-1" (.packet (some "ann") none),
    .wake 120000 okWake, .rescan].foldl
    (fun w a => w.step .production "ann" Grants.plainLower a) oneDelivery

/-- The failure is no longer counted, only the marker of the run that was not sent has a strike,
and what is promised of the next step holds. -/
theorem stops_and_loses_nothing_delivery :
    Promised .production "ann" Grants.plainLower wokenAgain ∧ wokenAgain.retries = 0 ∧
      wokenAgain.strikesOf "aurora-1" = 1 ∧ wokenAgain.strikesOf "borealis-2" = 0 := by
  have start : SoundRun .production "ann" Grants.plainLower oneDelivery :=
    .start ⟨rfl, rfl, by decide⟩
  have killed := start.next (.wake 0 killedWake)
    ⟨fun _ => by decide +kernel, fun ok => absurd ok (by decide)⟩
  have taken := killed.next (.ack false "aurora-1") trivial
  have sent := taken.next (.drop false "borealis-2" (.packet (some "ann") none))
    fun _ => by decide +kernel
  have woken := sent.next (.wake 60000 okWake)
    ⟨fun failed => absurd failed (by decide), fun _ => by decide +kernel⟩
  have again := woken.next (.drop false "aurora-1" (.packet (some "ann") none))
    fun _ => by decide +kernel
  have outlived := again.next (.wake 120000 okWake)
    ⟨fun failed => absurd failed (by decide), fun _ => by decide +kernel⟩
  have run : SoundRun .production "ann" Grants.plainLower wokenAgain :=
    outlived.next .rescan ⟨by decide +kernel, fun r mem p owes => by
      obtain rfl := List.mem_singleton.mp mem
      cases (show none = some p from owes)⟩
  exact ⟨(stops_and_loses_nothing .production "ann" Grants.plainLower _ run).1, by decide +kernel⟩

/-- Four good wakes, a killed one and four good ones. -/
def eightWakes : Outbox :=
  [okWake, okWake, okWake, okWake, killedWake, okWake, okWake, okWake, okWake].foldl
    (fun w k => w.step .production "ann" Grants.plainLower (.wake 0 k)) oneDelivery

/-- The marker has survived eight successful wakes, its strikes are those of the last four, and
it is where it was; nor have the successful wakes ended the count of failures. -/
theorem eight_wakes_and_no_end :
    (eightWakes.markersForAgent "ann").map Marker.survived = [8] ∧
      eightWakes.strikesOf "aurora-1" = 4 ∧ eightWakes.quarantine = [] ∧
      eightWakes.retries = 1 := by
  decide +kernel

end Outbox

end Clearotron
