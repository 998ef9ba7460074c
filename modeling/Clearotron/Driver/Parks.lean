import Clearotron.Driver.Recovery

/-!
# The parks of one job

A job fails, is parked, wakes and fails again until a decision ends it. Each park adds
its row to the run's history, and both lane counts are read back off that history. So
the laws of the lanes are laws of the history, and one park is shown to keep them.
-/

namespace Clearotron

/-- What the run-level catch knows of a failure. -/
structure Failure where
  stage : String
  reason : String
  codes : List String := []
  failClass : FailClass
  nonRecoverable : Bool := false
  hasRunDir : Bool := true
  deriving DecidableEq, Repr

/-- The part of the run's status record that outlives a park. -/
structure RecoveryStatus where
  recoveryAttempts : Nat := 0
  recoveryHistory : List ParkRow := []
  deriving DecidableEq, Repr

section Parks

variable (T : FailureTexts) (recoveryMax : Nat)

def Failure.signature (f : Failure) : FailureSignature :=
  failureSignature T f.stage f.reason f.codes

def Failure.lane (f : Failure) : RecoveryLane :=
  recoveryLaneOf T f.failClass f.reason

def RecoveryStatus.laneCounts (st : RecoveryStatus) : LaneCounts :=
  countRecoveryLanes st.recoveryHistory st.recoveryAttempts

/-- The question the catch puts, with both lane counts read off the record. -/
def RecoveryStatus.question (st : RecoveryStatus) (f : Failure) : RecoveryQuestion where
  failClass := f.failClass
  sig := (f.signature T).sig
  reason := f.reason
  history := st.recoveryHistory
  priorAttempts := st.recoveryAttempts
  recoveryMax := recoveryMax
  nonRecoverable := f.nonRecoverable
  hasRunDir := f.hasRunDir
  weatherAttempts := st.laneCounts.weather
  defectAttempts := some st.laneCounts.defect
  weatherCeiling := some (weatherCeilingFor recoveryMax)
  quantity := (f.signature T).quantity

def RecoveryStatus.decide (st : RecoveryStatus) (f : Failure) : RecoveryDecision :=
  decideRecovery T (st.question T recoveryMax f)

/-- The row a park adds to the history. -/
def RecoveryStatus.row (st : RecoveryStatus) (f : Failure) : ParkRow where
  sig := (f.signature T).sig
  stage := f.stage
  failClass := f.failClass
  lane := some (st.decide T recoveryMax f).lane
  attempt := st.recoveryAttempts + 1
  quantity := (f.signature T).quantity
  quantityToken := (f.signature T).quantityToken

def RecoveryStatus.park (st : RecoveryStatus) (f : Failure) : RecoveryStatus where
  recoveryAttempts := st.recoveryAttempts + 1
  recoveryHistory := st.recoveryHistory ++ [st.row T recoveryMax f]

/-- The record after a sequence of failures: each is parked until one is not, and there
the job ends. -/
def recover (st : RecoveryStatus) : List Failure → RecoveryStatus
  | [] => st
  | f :: failures =>
    if (st.decide T recoveryMax f).recoverable then
      recover (st.park T recoveryMax f) failures
    else st

variable {T recoveryMax} {st : RecoveryStatus} {f : Failure}

/-- The failure's class may be parked at all. -/
def FailClass.mayPark (failClass : FailClass) : Prop :=
  failClass = .transient ∨ failClass = .stale ∨ failClass = .unknown

instance (failClass : FailClass) : Decidable failClass.mayPark :=
  inferInstanceAs (Decidable (_ ∨ _))

@[simp] theorem lane_decide : (st.decide T recoveryMax f).lane = f.lane T := rfl

theorem parkBudgetOf_pos {failClass : FailClass} (may : failClass.mayPark)
    (on : 0 < recoveryMax) : 0 < parkBudgetOf failClass recoveryMax := by
  unfold parkBudgetOf
  obtain rfl | rfl | rfl := may
  · simpa using on
  · simpa using on
  · simp; omega

/-- A park in the defect lane is of a signature not parked before, within the ceiling. -/
theorem defect_park (lane : f.lane T = .defect)
    (parks : (st.decide T recoveryMax f).recoverable = true) :
    (∀ row ∈ st.recoveryHistory, row.sig ≠ (f.signature T).sig) ∧
      st.laneCounts.defect < recoveryMax := by
  have lane' : recoveryLaneOf T f.failClass f.reason = .defect := lane
  simp only [RecoveryStatus.decide, decideRecovery, RecoveryStatus.question, lane',
    Option.getD_some, Option.getD_none, Bool.and_eq_true, decide_eq_true_eq, Bool.not_eq_true',
    decide_eq_false_iff_not, Bool.or_eq_true, reduceCtorEq, false_or] at parks
  obtain ⟨⟨-, unseen, -⟩, within⟩ := parks
  refine ⟨?_, within⟩
  have none := of_decide_eq_false unseen
  rw [Nat.not_lt, Nat.le_zero, List.countP_eq_zero] at none
  exact fun row mem same => none row mem (decide_eq_true same)

/-- A park in the weather lane is within the weather ceiling. -/
theorem weather_park (lane : f.lane T = .weather)
    (parks : (st.decide T recoveryMax f).recoverable = true) :
    st.laneCounts.weather < weatherCeilingFor recoveryMax := by
  have lane' : recoveryLaneOf T f.failClass f.reason = .weather := lane
  simp only [RecoveryStatus.decide, decideRecovery, RecoveryStatus.question, lane',
    Option.getD_some, Bool.and_eq_true, decide_eq_true_eq] at parks
  exact parks.2

/-- A defect whose class may be parked, not parked before, is parked while the lane has
budget left. -/
theorem fresh_defect_parks (lane : f.lane T = .defect) (may : f.failClass.mayPark)
    (dir : f.hasRunDir = true) (able : f.nonRecoverable = false)
    (fresh : ∀ row ∈ st.recoveryHistory, row.sig ≠ (f.signature T).sig)
    (left : st.laneCounts.defect < recoveryMax) :
    (st.decide T recoveryMax f).recoverable = true := by
  have lane' : recoveryLaneOf T f.failClass f.reason = .defect := lane
  have unseen : st.recoveryHistory.countP (·.sig = (f.signature T).sig) = 0 := by
    rw [List.countP_eq_zero]
    simpa using fresh
  have budget : 0 < parkBudgetOf f.failClass recoveryMax := parkBudgetOf_pos may (by omega)
  simp [RecoveryStatus.decide, decideRecovery, RecoveryStatus.question, lane', dir, able, unseen,
    left, budget]

/-- The history holds every park the record counts. -/
def RecoveryStatus.Complete (st : RecoveryStatus) : Prop :=
  st.recoveryAttempts = st.recoveryHistory.length

theorem countP_lanes (rows : List ParkRow) :
    rows.countP (·.lane = some .weather) + rows.countP (·.lane ≠ some .weather) = rows.length := by
  have split := List.length_eq_countP_add_countP (fun row : ParkRow => row.lane = some .weather)
    (l := rows)
  simpa using split.symm

theorem RecoveryStatus.Complete.laneCounts (complete : st.Complete) :
    st.laneCounts =
      { weather := st.recoveryHistory.countP (·.lane = some .weather)
        defect := st.recoveryHistory.countP (·.lane ≠ some .weather) } := by
  have both := countP_lanes st.recoveryHistory
  unfold RecoveryStatus.Complete at complete
  simp only [RecoveryStatus.laneCounts, countRecoveryLanes, LaneCounts.mk.injEq, true_and]
  omega

theorem RecoveryStatus.Complete.park (complete : st.Complete) :
    (st.park T recoveryMax f).Complete := by
  simpa [RecoveryStatus.Complete, RecoveryStatus.park] using complete

/-- A park charges its own lane once and leaves the other alone. -/
theorem laneCounts_park (complete : st.Complete) :
    (st.park T recoveryMax f).laneCounts =
      match f.lane T with
      | .weather => { st.laneCounts with weather := st.laneCounts.weather + 1 }
      | .defect => { st.laneCounts with defect := st.laneCounts.defect + 1 } := by
  rw [complete.park.laneCounts, complete.laneCounts]
  cases lane : f.lane T <;>
    simp [RecoveryStatus.park, RecoveryStatus.row, lane, List.countP_append]

variable (T recoveryMax)

/-- The signatures parked in the defect lane, in order. -/
def RecoveryStatus.defectSignatures (st : RecoveryStatus) : List String :=
  (st.recoveryHistory.filter (·.lane ≠ some .weather)).map (·.sig)

/-- What holds of the record whenever the job stands parked. -/
structure RecoveryStatus.Lawful (st : RecoveryStatus) : Prop where
  complete : st.Complete
  defect : st.laneCounts.defect ≤ recoveryMax
  weather : st.laneCounts.weather ≤ weatherCeilingFor recoveryMax
  once : st.defectSignatures.Nodup

variable {T recoveryMax}

theorem RecoveryStatus.Lawful.start : RecoveryStatus.Lawful recoveryMax {} := by
  constructor <;> simp [RecoveryStatus.Complete, RecoveryStatus.laneCounts, countRecoveryLanes,
    RecoveryStatus.defectSignatures]

theorem RecoveryStatus.Lawful.park (lawful : st.Lawful recoveryMax)
    (parks : (st.decide T recoveryMax f).recoverable = true) :
    (st.park T recoveryMax f).Lawful recoveryMax := by
  have counts := @laneCounts_park T recoveryMax st f lawful.complete
  cases lane : f.lane T with
  | weather =>
      have within := weather_park lane parks
      rw [lane] at counts
      refine ⟨lawful.complete.park, ?_, ?_, ?_⟩
      · rw [counts]
        exact lawful.defect
      · rw [counts]
        exact within
      · have same : (st.park T recoveryMax f).defectSignatures = st.defectSignatures := by
          simp [RecoveryStatus.defectSignatures, RecoveryStatus.park, RecoveryStatus.row, lane]
        rw [same]
        exact lawful.once
  | defect =>
      obtain ⟨fresh, within⟩ := defect_park lane parks
      rw [lane] at counts
      refine ⟨lawful.complete.park, ?_, ?_, ?_⟩
      · rw [counts]
        exact within
      · rw [counts]
        exact lawful.weather
      · have added : (st.park T recoveryMax f).defectSignatures =
            st.defectSignatures ++ [(f.signature T).sig] := by
          simp [RecoveryStatus.defectSignatures, RecoveryStatus.park, RecoveryStatus.row, lane]
        rw [added, List.nodup_append]
        refine ⟨lawful.once, List.nodup_singleton _, ?_⟩
        intro s mem s' mem'
        obtain ⟨row, rowMem, rfl⟩ := List.mem_map.mp mem
        rw [List.mem_singleton.mp mem']
        exact fresh row (List.mem_of_mem_filter rowMem)

theorem RecoveryStatus.Lawful.recover (lawful : st.Lawful recoveryMax) (failures : List Failure) :
    (recover T recoveryMax st failures).Lawful recoveryMax := by
  induction failures generalizing st with
  | nil => exact lawful
  | cons f failures ih =>
      unfold Clearotron.recover
      split
      · next parks => exact ih (lawful.park parks)
      · exact lawful

variable (T recoveryMax)

/-- The parks are bounded in each lane, no defect is parked twice, a park is charged to
its own lane, and a defect that may be parked and was not parked before is parked while
its lane has budget. -/
structure RecoveryStatus.BoundedAndFair (st : RecoveryStatus) : Prop where
  defect : st.recoveryHistory.countP (·.lane = some .defect) ≤ recoveryMax
  weather : st.recoveryHistory.countP (·.lane = some .weather) ≤ weatherCeilingFor recoveryMax
  finite : st.recoveryHistory.length ≤ recoveryMax + weatherCeilingFor recoveryMax
  once : st.defectSignatures.Nodup
  charged : ∀ f, (st.decide T recoveryMax f).recoverable = true →
    (st.park T recoveryMax f).laneCounts =
      match f.lane T with
      | .weather => { st.laneCounts with weather := st.laneCounts.weather + 1 }
      | .defect => { st.laneCounts with defect := st.laneCounts.defect + 1 }
  fair : ∀ f, f.lane T = .defect → f.failClass.mayPark → f.hasRunDir = true →
    f.nonRecoverable = false →
    (∀ row ∈ st.recoveryHistory, row.sig ≠ (f.signature T).sig) →
    st.laneCounts.defect < recoveryMax →
    (st.decide T recoveryMax f).recoverable = true

/-- Whatever fails and in whatever order, recovery is bounded and fair wherever the job
stands parked or ended. -/
theorem recovery_bounded_and_fair (failures : List Failure) :
    (recover T recoveryMax {} failures).BoundedAndFair T recoveryMax := by
  have lawful : (recover T recoveryMax {} failures).Lawful recoveryMax :=
    RecoveryStatus.Lawful.start.recover failures
  have counts := lawful.complete.laneCounts
  have both := countP_lanes (recover T recoveryMax {} failures).recoveryHistory
  have weather := lawful.weather
  have defect := lawful.defect
  rw [counts] at weather defect
  refine ⟨?_, weather, ?_, lawful.once, ?_, ?_⟩
  · refine Nat.le_trans (List.countP_mono_left fun row _ here => ?_) defect
    simp only [decide_eq_true_eq] at here
    simp [here]
  · show (recover T recoveryMax {} failures).recoveryHistory.length ≤ _
    rw [← both, Nat.add_comm]
    exact Nat.add_le_add defect weather
  · intro f _
    exact laneCounts_park lawful.complete
  · intro f lane may dir able fresh left
    exact fresh_defect_parks lane may dir able fresh left

end Parks

/-- Texts read without any of the module's patterns matching. -/
def plainTexts : FailureTexts where
  outage _ := false
  bareStage := id
  normalizeReason := id
  digest := id
  progressQuantity _ := none
  trim := id

/-- Every defect not parked before is parked while the lane has budget. -/
def RecoveryStatus.ParksEveryFreshDefect (T : FailureTexts) (recoveryMax : Nat)
    (st : RecoveryStatus) : Prop :=
  ∀ f, f.lane T = .defect → (∀ row ∈ st.recoveryHistory, row.sig ≠ (f.signature T).sig) →
    st.laneCounts.defect < recoveryMax → (st.decide T recoveryMax f).recoverable = true

/-- A request the provider refuses as malformed is a defect, and ends the run at once. -/
theorem refused_request_is_not_parked :
    ¬ RecoveryStatus.ParksEveryFreshDefect plainTexts 3 (recover plainTexts 3 {} []) := by
  intro parks
  have parked := parks
    { stage := "register", reason := "http 414", failClass := .deterministic }
    (by decide) (by simp [recover]) (by decide)
  revert parked
  decide

end Clearotron
