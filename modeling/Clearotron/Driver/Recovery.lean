import Clearotron.Library.Reaches
import Mathlib.Data.List.Nodup

/-!
# The recovery decision

A run that fails is parked and resumed, or it ends. Which of the two is decided from
the failure and from the history of the parks before it. A park is charged to one of
two lanes: weather, where a provider was down and waiting is the remedy, and defect,
where the run's own output could not be accepted. Each lane has a ceiling of its own,
and a signature that has been parked before is parked again in the weather lane only.
-/

namespace Clearotron

/-- The classes a failure is sorted into; a stage may stamp a class of its own. -/
inductive FailClass
  | transient
  | stale
  | unknown
  | deterministic
  | factual
  | other (text : String)
  deriving DecidableEq, Repr

inductive RecoveryLane
  | weather
  | defect
  deriving DecidableEq, Repr

/-- How the module reads a text: its regular expressions and the digest it signs with. -/
structure FailureTexts where
  /-- `OUTAGE_RE.test` -/
  outage : String → Bool
  bareStage : String → String
  normalizeReason : String → String
  /-- the first twelve digits of the text's sha256 -/
  digest : String → String
  progressQuantity : String → Option (String × Nat)
  trim : String → String

structure FailureSignature where
  sig : String
  stage : String
  norm : String
  codes : List String := []
  quantity : Option Nat := none
  quantityToken : Option String := none
  deriving DecidableEq, Repr

/-- What a failure is signed with: its set of reason codes where the stage gave any,
else its reason with paths, numbers and spacing taken out. -/
def failureSignature (T : FailureTexts) (stage reason : String) (codes : List String) :
    FailureSignature :=
  let s := T.bareStage stage
  let q := T.progressQuantity reason
  let codeSet := ((codes.map T.trim).filter (· ≠ "")).dedup.mergeSort (· ≤ ·)
  let norm := if codeSet ≠ [] then "codes:" ++ ",".intercalate codeSet
    else T.normalizeReason reason
  { sig := s ++ "|" ++ T.digest norm, stage := s, norm, codes := codeSet,
    quantity := q.map Prod.snd, quantityToken := q.map Prod.fst }

def recoveryLaneOf (T : FailureTexts) (failClass : FailClass) (reason : String) :
    RecoveryLane :=
  if failClass = .transient ∧ T.outage reason then .weather else .defect

/-- A row of the park history; a row from before the lanes carries none. -/
structure ParkRow where
  sig : String
  stage : String
  failClass : FailClass
  lane : Option RecoveryLane
  attempt : Nat
  quantity : Option Nat
  quantityToken : Option String
  deriving DecidableEq, Repr

def weatherLadders : Nat := 2

def weatherCeilingFor (recoveryMax : Nat) : Nat :=
  recoveryMax * weatherLadders

structure LaneCounts where
  weather : Nat
  defect : Nat
  deriving DecidableEq, Repr

/-- The parks each lane has been charged. Parks that the history does not hold are
charged to the defect lane. -/
def countRecoveryLanes (history : List ParkRow) (total : Nat) : LaneCounts :=
  let weather := history.countP (·.lane = some .weather)
  let defect := history.countP (·.lane ≠ some .weather)
  { weather, defect := defect + (total - (weather + defect)) }

inductive TerminalKind
  | noRunDir
  | nonRecoverable
  | repeatSignature
  | weatherExhausted
  | exhausted
  | factual
  | deterministic
  deriving DecidableEq, Repr

inductive ProgressKind
  | unknown
  | converging
  | diverging
  | noChange
  deriving DecidableEq, Repr

structure Progress where
  quantity : Option Nat
  priorQuantity : Option Nat
  delta : Option Int
  kind : ProgressKind
  deriving DecidableEq, Repr

structure RecoveryQuestion where
  failClass : FailClass
  sig : String
  reason : String := ""
  history : List ParkRow := []
  priorAttempts : Nat := 0
  recoveryMax : Nat := 3
  nonRecoverable : Bool := false
  hasRunDir : Bool := true
  runCeiling : Option Nat := none
  weatherAttempts : Nat := 0
  defectAttempts : Option Nat := none
  weatherCeiling : Option Nat := none
  quantity : Option Nat := none

structure RecoveryDecision where
  recoverable : Bool
  parkBudget : Nat
  repeated : Bool
  sigAttempts : Nat
  terminalKind : Option TerminalKind
  lane : RecoveryLane
  laneAttempts : Nat
  laneCeiling : Nat
  progress : Progress
  deriving DecidableEq, Repr

/-- How many parks a class may be given for one signature. -/
def parkBudgetOf (failClass : FailClass) (recoveryMax : Nat) : Nat :=
  if failClass = .transient ∨ failClass = .stale then recoveryMax
  else if failClass = .unknown then min 1 recoveryMax
  else 0

/-- How far the failure's count has moved since the signature was last parked. -/
def progressOf (sig : String) (history : List ParkRow) (quantity : Option Nat) : Progress :=
  let prior := ((history.filter (·.sig = sig)).filterMap (·.quantity)).getLast?
  let delta : Option Int := do return (← quantity) - (← prior)
  { quantity, priorQuantity := prior, delta
    kind := match delta with
      | none => .unknown
      | some d => if d < 0 then .converging else if 0 < d then .diverging else .noChange }

def decideRecovery (T : FailureTexts) (q : RecoveryQuestion) : RecoveryDecision :=
  let sigAttempts := q.history.countP (·.sig = q.sig)
  let repeated : Bool := 0 < sigAttempts
  let parkBudget := parkBudgetOf q.failClass q.recoveryMax
  let lane := recoveryLaneOf T q.failClass q.reason
  let mayRepeat : Bool := lane = .weather
  let ceiling := q.runCeiling.getD q.recoveryMax
  let wCeiling := q.weatherCeiling.getD (weatherCeilingFor q.recoveryMax)
  let laneAttempts := match lane with
    | .weather => q.weatherAttempts
    | .defect => q.defectAttempts.getD q.priorAttempts
  let laneCeiling := match lane with
    | .weather => wCeiling
    | .defect => ceiling
  let withinSignature := (mayRepeat || !repeated) && sigAttempts < parkBudget
  let withinRun : Bool := laneAttempts < laneCeiling
  let recoverable := q.hasRunDir && !q.nonRecoverable && withinSignature && withinRun
  let terminalKind : Option TerminalKind :=
    if recoverable then none
    else if !q.hasRunDir then some .noRunDir
    else if q.nonRecoverable then some .nonRecoverable
    else if repeated && !withinSignature then some .repeatSignature
    else if !withinRun then some (if lane = .weather then .weatherExhausted else .exhausted)
    else if q.failClass = .factual then some .factual
    else if q.failClass = .deterministic then some .deterministic
    else some .exhausted
  { recoverable, parkBudget, repeated, sigAttempts, terminalKind, lane, laneAttempts,
    laneCeiling, progress := progressOf q.sig q.history q.quantity }

end Clearotron
