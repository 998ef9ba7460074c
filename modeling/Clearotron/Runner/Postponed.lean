import Mathlib.Algebra.Order.Ring.Int
import Mathlib.Algebra.Order.Monoid.WithTop
import Mathlib.Data.Int.ConditionallyCompleteOrder
import Mathlib.Order.WithBot
import Mathlib.Tactic.Positivity
import Mathlib.Tactic.NormNum

/-!
# When a parked job is due

A job that met a cap is parked until the provider said the cap resets, and is tried earlier at
growing intervals; a job parked for recovery waits for its own clock. A record that states
neither falls back on a fixed wait, and one that states nothing is due at once.
-/

namespace Clearotron.Postponed

/-- The settings of a wait, in milliseconds. The getters of the configuration keep them in
these bounds. -/
structure WaitSettings where
  /-- `rateLimitDefaultBackoffMs` -/
  backoffMs : Int
  /-- `rateLimitProbeMs` -/
  probeMs : Int
  /-- `rateLimitProbeCeilingMs` -/
  probeCeilingMs : Int
  backoff_nonneg : 0 ≤ backoffMs
  probe_least : 60000 ≤ probeMs
  ceiling_least : 60000 ≤ probeCeilingMs

/-- The record of a park; a field that is missing, null or empty is `none`. An attempt count
that is no number reads as zero. -/
structure ParkMeta where
  postponedAt : Option String := none
  resetsAt : Option String := none
  recoveryResumesAt : Option String := none
  probeAttempt : Int := 0
  deriving DecidableEq, Repr

section Due

-- `parse` is `Date.parse`: the epoch milliseconds of a text, or `none` where it is no date.
variable (parse : String → Option Int) (W : WaitSettings)

namespace ParkMeta

variable (m : ParkMeta)

/-- When the job was parked, where the record says so. -/
def parkedAt : Option Int := m.postponedAt.bind parse

/-- The reset the provider stated. -/
def reset : Option Int := m.resetsAt.bind parse

/-- The clock of a recovery. -/
def recovery : Option Int := m.recoveryResumesAt.bind parse

/-- The probes counted, between none and sixteen. -/
def attempt : Nat := (max 0 (min 16 m.probeAttempt)).toNat

/-- How long after the park a probe is worth sending. -/
def probeWait : Int := min W.probeCeilingMs (W.probeMs * 2 ^ m.attempt)

/-- The time of the next probe; a park without a date has none. -/
def probeAt : WithTop Int :=
  match m.parkedAt parse with
  | none => ⊤
  | some parked => ↑(parked + m.probeWait W)

/-- The time of a recovery or, without one, of the fixed wait. -/
def dueWithoutReset : WithTop Int :=
  match m.recovery parse with
  | some t => ↑t
  | none =>
    match m.parkedAt parse with
    | some parked => ↑(parked + W.backoffMs)
    | none => ↑(0 : Int)

/-- `postponedDueAt`. -/
def dueAt : WithTop Int :=
  match m.reset parse with
  | some t => min ↑t (m.probeAt parse W)
  | none => m.dueWithoutReset parse W

end ParkMeta

theorem probeWait_nonneg (m : ParkMeta) : 0 ≤ m.probeWait W := by
  have ceiling := W.ceiling_least
  have least := W.probe_least
  have grown : 0 ≤ W.probeMs * 2 ^ m.attempt := mul_nonneg (by omega) (by positivity)
  exact le_min (by omega) grown

theorem attempt_mono {m n : ParkMeta} (more : m.probeAttempt ≤ n.probeAttempt) :
    m.attempt ≤ n.attempt := by
  unfold ParkMeta.attempt
  omega

theorem probeWait_mono {m n : ParkMeta} (more : m.probeAttempt ≤ n.probeAttempt) :
    m.probeWait W ≤ n.probeWait W := by
  have least := W.probe_least
  apply min_le_min_left
  apply mul_le_mul_of_nonneg_left _ (by omega)
  exact pow_le_pow_right₀ (by omega) (attempt_mono more)

variable {parse W} {m : ParkMeta} {t parked : Int}

theorem probeAt_of_parked (at' : m.parkedAt parse = some parked) :
    m.probeAt parse W = ↑(parked + m.probeWait W) := by
  unfold ParkMeta.probeAt
  rw [at']

theorem dueAt_of_reset (stated : m.reset parse = some t) :
    m.dueAt parse W = min ↑t (m.probeAt parse W) := by
  unfold ParkMeta.dueAt
  rw [stated]

theorem dueAt_of_recovery (unstated : m.reset parse = none) (clock : m.recovery parse = some t) :
    m.dueAt parse W = ↑t := by
  unfold ParkMeta.dueAt ParkMeta.dueWithoutReset
  rw [unstated, clock]

theorem dueAt_of_parked (unstated : m.reset parse = none) (clock : m.recovery parse = none)
    (at' : m.parkedAt parse = some parked) : m.dueAt parse W = ↑(parked + W.backoffMs) := by
  unfold ParkMeta.dueAt ParkMeta.dueWithoutReset
  rw [unstated, clock, at']

theorem dueAt_of_nothing (unstated : m.reset parse = none) (clock : m.recovery parse = none)
    (at' : m.parkedAt parse = none) : m.dueAt parse W = ↑(0 : Int) := by
  unfold ParkMeta.dueAt ParkMeta.dueWithoutReset
  rw [unstated, clock, at']

variable (parse W) in
/-- Every record has a time, whichever of its dates are malformed. -/
theorem exists_dueAt (m : ParkMeta) : ∃ t : Int, m.dueAt parse W = ↑t := by
  cases stated : m.reset parse with
  | some t =>
    rw [dueAt_of_reset stated]
    cases at' : m.parkedAt parse with
    | some parked => exact ⟨min t (parked + m.probeWait W), by rw [probeAt_of_parked at']; rfl⟩
    | none => exact ⟨t, by unfold ParkMeta.probeAt; rw [at', min_eq_left le_top]⟩
  | none =>
    cases clock : m.recovery parse with
    | some t => exact ⟨t, dueAt_of_recovery stated clock⟩
    | none =>
      cases at' : m.parkedAt parse with
      | some parked => exact ⟨_, dueAt_of_parked stated clock at'⟩
      | none => exact ⟨0, dueAt_of_nothing stated clock at'⟩

variable (parse W) in
/-- One more refused probe never brings the time forward. -/
theorem dueAt_mono (m : ParkMeta) {n : Int} (more : m.probeAttempt ≤ n) :
    m.dueAt parse W ≤ { m with probeAttempt := n }.dueAt parse W := by
  cases stated : m.reset parse with
  | some t =>
    rw [dueAt_of_reset stated, dueAt_of_reset (m := { m with probeAttempt := n }) stated]
    apply min_le_min_left
    cases at' : m.parkedAt parse with
    | some parked =>
      rw [probeAt_of_parked at', probeAt_of_parked (m := { m with probeAttempt := n }) at']
      have wait : m.probeWait W ≤ { m with probeAttempt := n }.probeWait W :=
        probeWait_mono W more
      exact WithTop.coe_le_coe.mpr (by omega)
    | none =>
      have later : { m with probeAttempt := n }.parkedAt parse = none := at'
      have never : { m with probeAttempt := n }.probeAt parse W = ⊤ := by
        unfold ParkMeta.probeAt
        rw [later]
      rw [never]
      exact le_top
  | none =>
    have later : { m with probeAttempt := n }.reset parse = none := stated
    unfold ParkMeta.dueAt
    rw [stated, later]
    exact le_rfl

/-- Without a date in the record that lies before the park, the job is not due before it. -/
theorem parked_le_dueAt (at' : m.parkedAt parse = some parked)
    (reset : ∀ t, m.reset parse = some t → parked ≤ t)
    (recovery : ∀ t, m.reset parse = none → m.recovery parse = some t → parked ≤ t) :
    ↑parked ≤ m.dueAt parse W := by
  have wait := probeWait_nonneg W m
  have fixed := W.backoff_nonneg
  cases stated : m.reset parse with
  | some t =>
    rw [dueAt_of_reset stated, probeAt_of_parked at']
    exact le_min (WithTop.coe_le_coe.mpr (reset t stated)) (WithTop.coe_le_coe.mpr (by omega))
  | none =>
    cases clock : m.recovery parse with
    | some t =>
      rw [dueAt_of_recovery stated clock]
      exact WithTop.coe_le_coe.mpr (recovery t stated clock)
    | none =>
      rw [dueAt_of_parked stated clock at']
      exact WithTop.coe_le_coe.mpr (by omega)

variable (parse W) in
/-- What the due time of a record is held to. -/
structure DueAsStated (m : ParkMeta) : Prop where
  never_after_reset : ∀ t, m.reset parse = some t → m.dueAt parse W ≤ ↑t
  recovery_clock : ∀ t, m.reset parse = none → m.recovery parse = some t → m.dueAt parse W = ↑t
  never_before_park : ∀ parked, m.parkedAt parse = some parked →
    (∀ t, m.reset parse = some t → parked ≤ t) →
    (∀ t, m.reset parse = none → m.recovery parse = some t → parked ≤ t) →
    ↑parked ≤ m.dueAt parse W
  probed : ∀ t parked, m.reset parse = some t → m.parkedAt parse = some parked →
    m.dueAt parse W = min ↑t ↑(parked + min W.probeCeilingMs (W.probeMs * 2 ^ m.attempt))
  grows : ∀ n, m.probeAttempt ≤ n →
    m.dueAt parse W ≤ { m with probeAttempt := n }.dueAt parse W
  fixed_wait : ∀ parked, m.reset parse = none → m.recovery parse = none →
    m.parkedAt parse = some parked → m.dueAt parse W = ↑(parked + W.backoffMs)
  never_lost : m.dueAt parse W ≠ ⊤

theorem due_as_stated (parse : String → Option Int) (W : WaitSettings) (m : ParkMeta) :
    DueAsStated parse W m where
  never_after_reset t stated := by
    rw [dueAt_of_reset stated]
    exact min_le_left _ _
  recovery_clock _ unstated clock := dueAt_of_recovery unstated clock
  never_before_park _ at' reset recovery := parked_le_dueAt at' reset recovery
  probed t parked stated at' := by
    rw [dueAt_of_reset stated, probeAt_of_parked at']
    rfl
  grows _ more := dueAt_mono parse W m more
  fixed_wait _ unstated clock at' := dueAt_of_parked unstated clock at'
  never_lost := by
    obtain ⟨t, due⟩ := exists_dueAt parse W m
    rw [due]
    exact WithTop.coe_ne_top

end Due

/-- The settings as they are shipped. -/
def shippedWaits : WaitSettings where
  backoffMs := 1200000
  probeMs := 600000
  probeCeilingMs := 2400000
  backoff_nonneg := by decide
  probe_least := by decide
  ceiling_least := by decide

/-- Two dates of one day, as `Date.parse` reads them. -/
def readsDay (s : String) : Option Int :=
  [("2026-06-22T18:00:00.000Z", 1782151200000),
    ("2026-06-22T17:00:00.000Z", 1782147600000)].lookup s

/-- A park without a stated reset, after so many probes. -/
def unstatedPark (probes : Int) : ParkMeta where
  postponedAt := some "2026-06-22T18:00:00.000Z"
  probeAttempt := probes

/-- A park whose recovery clock stands before it. -/
def pastRecovery : ParkMeta where
  postponedAt := some "2026-06-22T18:00:00.000Z"
  recoveryResumesAt := some "2026-06-22T17:00:00.000Z"

/-- Where no reset is stated the wait is fixed while the probes grow, and a recovery clock may
stand before the park although no reset does. -/
theorem unstated_wait_never_grows :
    ((unstatedPark 0).probeWait shippedWaits < (unstatedPark 1).probeWait shippedWaits ∧
      (unstatedPark 0).dueAt readsDay shippedWaits =
        (unstatedPark 1).dueAt readsDay shippedWaits) ∧
    pastRecovery.reset readsDay = none ∧
    pastRecovery.dueAt readsDay shippedWaits < ↑(1782151200000 : Int) := by
  refine ⟨⟨by decide, rfl⟩, rfl, ?_⟩
  rw [dueAt_of_recovery (t := 1782147600000) rfl rfl]
  exact WithTop.coe_lt_coe.mpr (by decide)

/-- A parked job in its queue: its record, which reads as an empty one where the file is missing
or torn, whether it was stopped, and whether another runner renamed its marker first. -/
structure ParkedJob where
  base : String
  record : Option ParkMeta
  cancelled : Bool
  taken : Bool
  deriving DecidableEq, Repr

/-- What becomes of a parked job in one pass. -/
inductive ClaimOutcome
  | waits
  | retired
  | lost
  | claimed
  deriving DecidableEq, Repr

section Claims

variable (parse : String → Option Int) (W : WaitSettings)

/-- Has the time come? -/
def hasCome (now : Int) : WithTop Int → Bool
  | some due => due ≤ now
  | none => false

/-- One job of `claimDuePostponed`. -/
def claimDue (now : Int) (j : ParkedJob) : ClaimOutcome :=
  if !hasCome now ((j.record.getD {}).dueAt parse W) then .waits
  else if j.taken then .lost
  else if j.cancelled then .retired
  else .claimed

/-- No parked job is lost silently: from some time on every pass takes it, unless it was stopped
or another runner did. -/
theorem eventually_claimed (j : ParkedJob) :
    ∃ due : Int, ∀ now, claimDue parse W now j = .waits ↔ now < due := by
  obtain ⟨due, isDue⟩ := exists_dueAt parse W (j.record.getD {})
  refine ⟨due, fun now => ?_⟩
  have come : hasCome now ((j.record.getD {}).dueAt parse W) = decide (due ≤ now) := by
    rw [isDue]
    rfl
  unfold claimDue
  rw [come]
  by_cases early : now < due
  · have wait : ¬ due ≤ now := by omega
    simp [wait, early]
  · have past : due ≤ now := by omega
    cases j.taken <;> cases j.cancelled <;> simp [past, early]

end Claims

end Clearotron.Postponed
