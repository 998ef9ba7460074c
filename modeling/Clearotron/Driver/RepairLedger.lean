import Clearotron.Library.Keyed

/-!
# The repair ledger

The attempts spent on each bounded repair are kept in one file of the run folder, a
row for each repair and target. The file is read whole before every question and
rewritten whole after every attempt; a file that does not parse is read as a ledger
with no rows.
-/

namespace Clearotron

/-- A repair and what it repairs. Repair ids are words of the code, none with a colon,
so the two are told apart again in the key they are joined to. -/
structure RepairKey where
  repairId : String
  targetKey : String
  plain : ':' ∉ repairId.toList
  deriving DecidableEq

namespace RepairKey

/-- The key of the row: `"<repairId>:<targetKey>"`. -/
def joined (key : RepairKey) : String :=
  key.repairId ++ ":" ++ key.targetKey

theorem append_cons_inj {c : Char} {l l' r r' : List Char} (h : l ++ c :: r = l' ++ c :: r')
    (absent : c ∉ l) (absent' : c ∉ l') : l = l' ∧ r = r' := by
  induction l generalizing l' with
  | nil =>
      cases l' with
      | nil => exact ⟨rfl, (List.cons.inj h).2⟩
      | cons d l' =>
          obtain ⟨rfl, -⟩ := List.cons.inj h
          exact absurd (List.mem_cons_self ..) absent'
  | cons d l ih =>
      cases l' with
      | nil =>
          obtain ⟨rfl, -⟩ := List.cons.inj h
          exact absurd (List.mem_cons_self ..) absent
      | cons d' l' =>
          obtain ⟨rfl, rest⟩ := List.cons.inj h
          obtain ⟨rfl, rfl⟩ := ih rest (fun mem => absent (List.mem_cons_of_mem _ mem))
            (fun mem => absent' (List.mem_cons_of_mem _ mem))
          exact ⟨rfl, rfl⟩

/-- Two keys never share a row. -/
theorem joined_injective {key key' : RepairKey} (same : key.joined = key'.joined) :
    key = key' := by
  obtain ⟨id, target, plain⟩ := key
  obtain ⟨id', target', plain'⟩ := key'
  have lists := congrArg String.toList same
  simp only [joined, String.toList_append, List.append_assoc] at lists
  obtain ⟨ids, targets⟩ := append_cons_inj lists plain plain'
  obtain rfl := String.toList_inj.mp ids
  obtain rfl := String.toList_inj.mp targets
  rfl

end RepairKey

/-- One row of the ledger. Epochs are numbered in the order the run comes to them. -/
structure RepairRow where
  attempts : Nat
  epoch : Option Nat
  lastOutcome : String
  measuredAttempts : Nat
  askedTotal : Nat
  closedTotal : Nat
  lastDurationMs : Option Nat
  deriving DecidableEq, Repr

abbrev RepairRows := Keyed String RepairRow

/-- The ledger file: not yet written, cut short by a crash, or whole. -/
inductive RepairsFile
  | absent
  | torn
  | whole (rows : RepairRows)

/-- A file that cannot be read or parsed is an empty ledger. -/
def RepairsFile.load : RepairsFile → RepairRows
  | .whole rows => rows
  | _ => .empty

inductive RepairVerdictKind
  | untried
  | inBudget
  | repaired
  | cannotRepair
  | exhaustedUnmeasured
  deriving DecidableEq, Repr

structure RepairVerdict where
  attempts : Nat
  measured : Nat
  closed : Nat
  asked : Nat
  exhausted : Bool
  verdict : RepairVerdictKind
  deriving DecidableEq, Repr

def repairVerdict (row : Option RepairRow) (limit : Nat) : RepairVerdict :=
  let ceiling := max 1 limit
  let attempts := (row.map (·.attempts)).getD 0
  let measured := (row.map (·.measuredAttempts)).getD 0
  let closed := (row.map (·.closedTotal)).getD 0
  let asked := (row.map (·.askedTotal)).getD 0
  let exhausted : Bool := ceiling ≤ attempts
  if attempts = 0 then ⟨0, measured, closed, asked, false, .untried⟩
  else if 0 < closed then ⟨attempts, measured, closed, asked, exhausted, .repaired⟩
  else if !exhausted then ⟨attempts, measured, closed, asked, exhausted, .inBudget⟩
  else if attempts ≤ measured then ⟨attempts, measured, closed, asked, exhausted, .cannotRepair⟩
  else ⟨attempts, measured, closed, asked, exhausted, .exhaustedUnmeasured⟩

/-- Is the row of another epoch than the one asked about? -/
def RepairRow.superseded (row : RepairRow) (epoch : Option Nat) : Prop :=
  epoch ≠ none ∧ row.epoch ≠ epoch

instance (row : RepairRow) (epoch : Option Nat) : Decidable (row.superseded epoch) :=
  inferInstanceAs (Decidable (_ ∧ _))

namespace RepairsFile

def verdict (file : RepairsFile) (key : RepairKey) (limit : Nat) (epoch : Option Nat) :
    RepairVerdict :=
  match file.load.get key.joined with
  | none => repairVerdict none limit
  | some row =>
    if row.superseded epoch then repairVerdict none limit else repairVerdict (some row) limit

def canAttempt (file : RepairsFile) (key : RepairKey) (limit : Nat) (epoch : Option Nat) :
    Bool :=
  match file.load.get key.joined with
  | none => true
  | some row => if row.superseded epoch then true else row.attempts < limit

/-- The row an attempt leaves: counted on top of the row before it, unless that row is of
an epoch that has passed. `effect` is how many were asked for and how many closed. -/
def recordedRow (file : RepairsFile) (key : RepairKey) (outcome : String) (epoch : Option Nat)
    (effect : Option (Nat × Nat)) (durationMs : Option Nat) : RepairRow :=
  let carry := (file.load.get key.joined).filter fun prev => ¬ prev.superseded epoch
  { attempts := (carry.map (·.attempts)).getD 0 + 1
    epoch
    lastOutcome := outcome
    measuredAttempts := (carry.map (·.measuredAttempts)).getD 0 + (if effect.isSome then 1 else 0)
    askedTotal := (carry.map (·.askedTotal)).getD 0 + (effect.map Prod.fst).getD 0
    closedTotal := (carry.map (·.closedTotal)).getD 0 + (effect.map Prod.snd).getD 0
    lastDurationMs := durationMs }

def record (file : RepairsFile) (key : RepairKey) (outcome : String) (epoch : Option Nat)
    (effect : Option (Nat × Nat)) (durationMs : Option Nat) : RepairsFile :=
  .whole (file.load.set key.joined (file.recordedRow key outcome epoch effect durationMs))

/-- The attempts the ledger counts against a key in an epoch. -/
def spent (file : RepairsFile) (key : RepairKey) (epoch : Option Nat) : Nat :=
  match file.load.get key.joined with
  | none => 0
  | some row => if row.superseded epoch then 0 else row.attempts

variable {file : RepairsFile} {key other : RepairKey} {limit : Nat} {epoch epoch' : Option Nat}

theorem canAttempt_eq (positive : 0 < limit) :
    file.canAttempt key limit epoch = decide (file.spent key epoch < limit) := by
  unfold canAttempt spent
  cases file.load.get key.joined with
  | none => simpa using positive
  | some row =>
      by_cases passed : row.superseded epoch <;> simp [passed, positive]

theorem exhausted_repairVerdict (row : Option RepairRow) :
    (repairVerdict row limit).exhausted =
      decide (max 1 limit ≤ (row.map (·.attempts)).getD 0) := by
  unfold repairVerdict
  by_cases untried : (row.map (·.attempts)).getD 0 = 0
  · simp [untried]
  · simp only [untried, if_false]
    split_ifs <;> rfl

theorem exhausted_verdict :
    (file.verdict key limit epoch).exhausted = decide (max 1 limit ≤ file.spent key epoch) := by
  unfold verdict spent
  cases file.load.get key.joined with
  | none => simp [exhausted_repairVerdict]
  | some row =>
      by_cases passed : row.superseded epoch <;> simp [passed, exhausted_repairVerdict]

theorem spent_record (outcome : String) (effect : Option (Nat × Nat)) (ms : Option Nat) :
    (file.record key outcome epoch effect ms).spent key epoch = file.spent key epoch + 1 := by
  have row : (file.record key outcome epoch effect ms).load.get key.joined =
      some (file.recordedRow key outcome epoch effect ms) := by
    simp [record, load, Keyed.get_set]
  have current : ¬ (file.recordedRow key outcome epoch effect ms).superseded epoch :=
    fun passed => passed.2 rfl
  unfold spent
  rw [row]
  simp only [if_neg current]
  unfold recordedRow
  cases file.load.get key.joined with
  | none => rfl
  | some prev => by_cases passed : prev.superseded epoch <;> simp [passed, Option.filter]

/-- An attempt recorded for one key leaves the row of every other as it was. -/
theorem get_record_of_ne (apart : other ≠ key) (outcome : String)
    (effect : Option (Nat × Nat)) (ms : Option Nat) :
    (file.record key outcome epoch effect ms).load.get other.joined =
      file.load.get other.joined := by
  have keys : other.joined ≠ key.joined := fun same => apart (RepairKey.joined_injective same)
  simp [record, load, Keyed.get_set, keys]

end RepairsFile

end Clearotron
