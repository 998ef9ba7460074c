import Clearotron.Library.Reaches
import Clearotron.Driver.RepairLedger

/-!
# Repairs over the life of a run

A process of the run asks the ledger before each attempt at a repair and records the
attempt when it has been made. It may die at any point, also while it rewrites the
ledger file, and the run is then taken up by another process, in the same epoch or in a
later one.
-/

namespace Clearotron

/-- How the code uses the ledger: each key's maximum, and whether it is given an epoch. -/
structure RepairUse where
  maximum : RepairKey → Nat
  positive : ∀ key, 0 < maximum key
  epoched : RepairKey → Bool

structure RepairRun where
  file : RepairsFile := .absent
  epoch : Nat := 0
  /-- the attempts being made, handed out and not recorded -/
  inHand : List RepairKey := []
  /-- the attempts handed out so far, by key and epoch -/
  handed : RepairKey → Option Nat → Nat := fun _ _ => 0

inductive RepairAct
  | ask (key : RepairKey)
  | record (key : RepairKey) (outcome : String) (effect : Option (Nat × Nat))
      (durationMs : Option Nat)
  /-- the process dies while it rewrites the ledger for the attempt -/
  | cut (key : RepairKey)
  /-- the process ends, however it ends, and the run is taken up in this epoch -/
  | restart (epoch : Nat)

namespace RepairRun

variable (U : RepairUse)

def epochOf (s : RepairRun) (key : RepairKey) : Option Nat :=
  if U.epoched key then some s.epoch else none

def canAttempt (s : RepairRun) (key : RepairKey) : Bool :=
  s.file.canAttempt key (U.maximum key) (s.epochOf U key)

def verdict (s : RepairRun) (key : RepairKey) : RepairVerdict :=
  s.file.verdict key (U.maximum key) (s.epochOf U key)

def spent (s : RepairRun) (key : RepairKey) : Nat :=
  s.file.spent key (s.epochOf U key)

/-- One act of the run. A call site awaits its attempt before it asks for the key again,
and records only an attempt it was given. -/
def step (s : RepairRun) : RepairAct → Option RepairRun
  | .ask key =>
    if key ∈ s.inHand then none
    else if s.canAttempt U key then
      some { s with
        inHand := key :: s.inHand
        handed := fun k e =>
          if k = key ∧ e = s.epochOf U key then s.handed k e + 1 else s.handed k e }
    else some s
  | .record key outcome effect durationMs =>
    if key ∈ s.inHand then
      some { s with
        file := s.file.record key outcome (s.epochOf U key) effect durationMs
        inHand := s.inHand.filter (· ≠ key) }
    else none
  | .cut key => if key ∈ s.inHand then some { s with file := .torn, inHand := [] } else none
  | .restart epoch => if s.epoch ≤ epoch then some { s with epoch, inHand := [] } else none

/-- The process does not die with an attempt in hand: neither while the attempt is made
nor while it is written down. -/
def Whole (s : RepairRun) : RepairAct → Prop
  | .cut _ => False
  | .restart _ => s.inHand = []
  | _ => True

/-- The acts of runs in which every attempt handed out is written down. -/
def WholeStep (s s' : RepairRun) : Prop :=
  ∃ act, s.Whole act ∧ s.step U act = some s'

/-- The ledger counts what was handed out, but for the attempts in hand. -/
structure Kept (s : RepairRun) : Prop where
  counted : ∀ key, s.handed key (s.epochOf U key) =
    s.spent U key + (if key ∈ s.inHand then 1 else 0)
  bounded : ∀ key e, s.handed key e ≤ U.maximum key
  /-- no attempt was handed out in an epoch still to come -/
  later : ∀ key e, s.epoch < e → s.handed key (some e) = 0
  /-- no row is of an epoch still to come, and only a key with epochs has one -/
  rows : ∀ key row, s.file.load.get key.joined = some row →
    (U.epoched key = true → ∃ e, row.epoch = some e ∧ e ≤ s.epoch)

variable {U} {s s' : RepairRun} {key other : RepairKey}

theorem Kept.start : Kept U {} := by
  constructor
  · intro key
    simp [spent, RepairsFile.spent, RepairsFile.load]
  · intro key e
    exact Nat.zero_le _
  · intro key e _
    rfl
  · intro key row here
    simp [RepairsFile.load] at here

/-- An attempt handed out: the key was not in hand and had attempts left. -/
theorem Kept.ask (kept : Kept U s) (free : key ∉ s.inHand) (may : s.canAttempt U key = true) :
    Kept U { s with
      inHand := key :: s.inHand
      handed := fun k e =>
        if k = key ∧ e = s.epochOf U key then s.handed k e + 1 else s.handed k e } := by
  have left : s.spent U key < U.maximum key := by
    have allowed : s.file.canAttempt key (U.maximum key) (s.epochOf U key) = true := may
    rw [RepairsFile.canAttempt_eq (U.positive key), decide_eq_true_eq] at allowed
    exact allowed
  have now := kept.counted key
  simp only [free, if_false, Nat.add_zero] at now
  constructor
  · intro k
    change (if k = key ∧ s.epochOf U k = s.epochOf U key then s.handed k (s.epochOf U k) + 1
      else s.handed k (s.epochOf U k)) = s.spent U k + (if k ∈ key :: s.inHand then 1 else 0)
    by_cases same : k = key
    · subst same
      simp [now]
    · have counted := kept.counted k
      simp only [same, false_and, if_false, List.mem_cons, false_or]
      exact counted
  · intro k e
    by_cases here : k = key ∧ e = s.epochOf U key
    · obtain ⟨rfl, rfl⟩ := here
      simp only [and_self, if_true]
      omega
    · simp only [here, if_false]
      exact kept.bounded k e
  · intro k e later
    have apart : some e ≠ s.epochOf U key := by
      unfold epochOf
      split_ifs
      · simp only [ne_eq, Option.some.injEq]
        exact Nat.ne_of_gt later
      · simp
    simp only [apart, and_false, if_false]
    exact kept.later k e later
  · exact kept.rows

/-- An attempt recorded is counted in the ledger and is in hand no more. -/
theorem Kept.record (kept : Kept U s) (mem : key ∈ s.inHand) (outcome : String)
    (effect : Option (Nat × Nat)) (ms : Option Nat) :
    Kept U { s with
      file := s.file.record key outcome (s.epochOf U key) effect ms
      inHand := s.inHand.filter (· ≠ key) } := by
  constructor
  · intro k
    have counted := kept.counted k
    by_cases same : k = key
    · subst same
      change s.handed k (s.epochOf U k) =
        (s.file.record k outcome (s.epochOf U k) effect ms).spent k (s.epochOf U k) + _
      rw [RepairsFile.spent_record, counted]
      simp [mem, spent]
    · have same_spent : (s.file.record key outcome (s.epochOf U key) effect ms).spent k
          (s.epochOf U k) = s.file.spent k (s.epochOf U k) := by
        unfold RepairsFile.spent
        rw [RepairsFile.get_record_of_ne same]
      change s.handed k (s.epochOf U k) =
        (s.file.record key outcome (s.epochOf U key) effect ms).spent k (s.epochOf U k) + _
      rw [same_spent, counted]
      simp [same, spent]
  · exact kept.bounded
  · exact kept.later
  · intro k row here epoched
    by_cases same : k = key
    · subst same
      simp only [RepairsFile.record, RepairsFile.load, Keyed.get_set, if_true,
        Option.some.injEq] at here
      refine ⟨s.epoch, ?_, Nat.le_refl _⟩
      rw [← here]
      simp [RepairsFile.recordedRow, epochOf, epoched]
    · rw [RepairsFile.get_record_of_ne same] at here
      exact kept.rows k row here epoched

/-- A run taken up again with nothing in hand. A later epoch finds every row superseded. -/
theorem Kept.restart (kept : Kept U s) (idle : s.inHand = []) {epoch : Nat}
    (later : s.epoch ≤ epoch) : Kept U { s with epoch, inHand := [] } := by
  constructor
  · intro key
    have counted := kept.counted key
    simp only [idle, List.not_mem_nil, if_false, Nat.add_zero] at counted ⊢
    by_cases epoched : U.epoched key = true
    · obtain same | after := Nat.eq_or_lt_of_le later
      · subst same
        exact counted
      · have fresh := kept.later key epoch after
        have none_spent : s.file.spent key (some epoch) = 0 := by
          unfold RepairsFile.spent
          cases row : s.file.load.get key.joined with
          | none => rfl
          | some row' =>
              obtain ⟨e, of, before⟩ := kept.rows key row' row epoched
              have passed : row'.superseded (some epoch) := by
                refine ⟨by simp, ?_⟩
                rw [of]
                simp only [ne_eq, Option.some.injEq]
                omega
              simp [passed]
        simp [spent, epochOf, epoched, fresh, none_spent]
    · simpa [spent, epochOf, epoched] using counted
  · exact kept.bounded
  · intro key e after
    exact kept.later key e (Nat.lt_of_le_of_lt later after)
  · intro key row here epoched
    obtain ⟨e, of, before⟩ := kept.rows key row here epoched
    exact ⟨e, of, Nat.le_trans before later⟩

theorem Kept.step (kept : Kept U s) (next : WholeStep U s s') : Kept U s' := by
  obtain ⟨act, whole, stepped⟩ := next
  cases act with
  | ask key =>
      simp only [RepairRun.step] at stepped
      split at stepped
      · cases stepped
      · next free =>
          split at stepped
          · next may =>
              cases stepped
              exact kept.ask free may
          · cases stepped
            exact kept
  | record key outcome effect ms =>
      simp only [RepairRun.step] at stepped
      split at stepped
      · next mem =>
          cases stepped
          exact kept.record mem outcome effect ms
      · cases stepped
  | cut key => exact whole.elim
  | restart epoch =>
      simp only [RepairRun.step] at stepped
      split at stepped
      · next later =>
          cases stepped
          exact kept.restart whole later
      · cases stepped

theorem epoch_le (next : WholeStep U s s') : s.epoch ≤ s'.epoch := by
  obtain ⟨act, -, stepped⟩ := next
  cases act with
  | ask key =>
      simp only [RepairRun.step] at stepped
      split_ifs at stepped <;> cases stepped <;> exact Nat.le_refl _
  | record key outcome effect ms =>
      simp only [RepairRun.step] at stepped
      split_ifs at stepped
      cases stepped
      exact Nat.le_refl _
  | cut key =>
      simp only [RepairRun.step] at stepped
      split_ifs at stepped
      cases stepped
      exact Nat.le_refl _
  | restart epoch =>
      simp only [RepairRun.step] at stepped
      split_ifs at stepped with later
      cases stepped
      exact later

/-- Within an epoch the ledger never counts fewer attempts. -/
theorem spent_le (next : WholeStep U s s') (same : s'.epochOf U key = s.epochOf U key) :
    s.spent U key ≤ s'.spent U key := by
  obtain ⟨act, whole, stepped⟩ := next
  cases act with
  | ask asked =>
      simp only [RepairRun.step] at stepped
      split_ifs at stepped <;> cases stepped <;> exact Nat.le_refl _
  | record recorded outcome effect ms =>
      simp only [RepairRun.step] at stepped
      split_ifs at stepped
      cases stepped
      by_cases own : key = recorded
      · subst own
        change s.file.spent key (s.epochOf U key) ≤
          (s.file.record key outcome (s.epochOf U key) effect ms).spent key (s.epochOf U key)
        rw [RepairsFile.spent_record]
        omega
      · apply Nat.le_of_eq
        change s.file.spent key (s.epochOf U key) =
          (s.file.record recorded outcome (s.epochOf U recorded) effect ms).spent key
            (s.epochOf U key)
        unfold RepairsFile.spent
        rw [RepairsFile.get_record_of_ne own]
  | cut _ => exact whole.elim
  | restart epoch =>
      simp only [RepairRun.step] at stepped
      split_ifs at stepped
      cases stepped
      apply Nat.le_of_eq
      change s.file.spent key (s.epochOf U key) = s.file.spent key _
      rw [same]

/-- The key an act is about. -/
inductive About : RepairAct → RepairKey → Prop
  | ask (key : RepairKey) : About (.ask key) key
  | record (key : RepairKey) (outcome : String) (effect : Option (Nat × Nat))
      (durationMs : Option Nat) : About (.record key outcome effect durationMs) key

/-- Asking for one key, or recording its attempt, changes no other key's verdict. -/
theorem verdict_of_ne {act : RepairAct} (about : About act key) (apart : other ≠ key)
    (stepped : s.step U act = some s') :
    s'.spent U other = s.spent U other ∧ s'.verdict U other = s.verdict U other := by
  cases about with
  | ask =>
      simp only [RepairRun.step] at stepped
      split_ifs at stepped <;> cases stepped <;> exact ⟨rfl, rfl⟩
  | record key outcome effect ms =>
      simp only [RepairRun.step] at stepped
      split_ifs at stepped
      cases stepped
      have row : (s.file.record key outcome (s.epochOf U key) effect ms).load.get other.joined =
          s.file.load.get other.joined := RepairsFile.get_record_of_ne apart outcome effect ms
      constructor
      · change (s.file.record key outcome (s.epochOf U key) effect ms).spent other
          (s.epochOf U other) = s.file.spent other (s.epochOf U other)
        unfold RepairsFile.spent
        rw [row]
      · change (s.file.record key outcome (s.epochOf U key) effect ms).verdict other _
          (s.epochOf U other) = s.file.verdict other _ (s.epochOf U other)
        unfold RepairsFile.verdict
        rw [row]

variable (U)

/-- What the ledger promises at a state of a run. -/
structure Bounded (s : RepairRun) : Prop where
  /-- no key is handed more attempts than its maximum, in any epoch -/
  handed : ∀ key epoch, s.handed key epoch ≤ U.maximum key
  /-- a key exhausted now is exhausted for the rest of its epoch -/
  lasting : ∀ key later, Reaches (· = s) (WholeStep U) later →
    later.epochOf U key = s.epochOf U key → (s.verdict U key).exhausted = true →
    (later.verdict U key).exhausted = true ∧ later.canAttempt U key = false
  /-- what is done for one key changes nothing for another -/
  apart : ∀ act key other s', About act key → other ≠ key → s.step U act = some s' →
    s'.spent U other = s.spent U other ∧ s'.verdict U other = s.verdict U other

variable {U}

theorem spent_le_of_reaches {later : RepairRun} (reached : Reaches (· = s) (WholeStep U) later) :
    s.epoch ≤ later.epoch ∧
      (later.epochOf U key = s.epochOf U key → s.spent U key ≤ later.spent U key) := by
  induction reached with
  | start same =>
      subst same
      exact ⟨Nat.le_refl _, fun _ => Nat.le_refl _⟩
  | @step t t' _ next ih =>
      obtain ⟨before, counts⟩ := ih
      have after := epoch_le next
      refine ⟨Nat.le_trans before after, fun same => ?_⟩
      have between : t.epochOf U key = s.epochOf U key := by
        unfold epochOf at same ⊢
        split_ifs at same ⊢ with epoched
        · simp only [Option.some.injEq] at same ⊢
          omega
        · rfl
      exact Nat.le_trans (counts between) (spent_le next (same.trans between.symm))

/-- In a run where no process dies with an attempt in hand, every budget is kept. -/
theorem repair_budgets_hold (reached : Reaches (· = {}) (WholeStep U) s) : s.Bounded U := by
  have kept : Kept U s := by
    refine reached.invariant ?_ fun _ _ kept next => kept.step next
    rintro _ rfl
    exact Kept.start
  refine ⟨kept.bounded, ?_, fun act key other s' about apart stepped =>
    verdict_of_ne about apart stepped⟩
  intro key later reached same exhausted
  have counts : s.spent U key ≤ later.spent U key := (spent_le_of_reaches reached).2 same
  have spent : max 1 (U.maximum key) ≤ s.spent U key := by
    have exhausted' : (s.file.verdict key (U.maximum key) (s.epochOf U key)).exhausted = true :=
      exhausted
    rw [RepairsFile.exhausted_verdict, decide_eq_true_eq] at exhausted'
    exact exhausted'
  have still : max 1 (U.maximum key) ≤ later.spent U key := Nat.le_trans spent counts
  constructor
  · change (later.file.verdict key (U.maximum key) (later.epochOf U key)).exhausted = true
    rw [RepairsFile.exhausted_verdict, decide_eq_true_eq]
    exact still
  · change later.file.canAttempt key (U.maximum key) (later.epochOf U key) = false
    rw [RepairsFile.canAttempt_eq (U.positive key), decide_eq_false_iff_not, Nat.not_lt]
    exact Nat.le_trans (Nat.le_max_right _ _) still

end RepairRun

/-- Every repair may be tried once, whatever the epoch. -/
def tryOnce : RepairUse where
  maximum _ := 1
  positive _ := Nat.one_pos
  epoched _ := false

def reemitFinding : RepairKey where
  repairId := "finding-corrective-reemit"
  targetKey := "synthesis"
  plain := by decide

def reemitAction : RepairKey where
  repairId := "action-corrective-reemit"
  targetKey := "synthesis"
  plain := by decide

/-- A run of acts, none where an act is not one the code can take. -/
def RepairRun.runActs (U : RepairUse) (s : RepairRun) (acts : List RepairAct) :
    Option RepairRun :=
  acts.foldlM (RepairRun.step U) s

/-- A finding re-emitted in vain is not re-emitted by the process that takes the run up. -/
theorem repair_budgets_hold_reemit :
    ∃ s, RepairRun.runActs tryOnce {} [.ask reemitFinding, .record reemitFinding "failed" none none,
        .restart 0, .ask reemitFinding] = some s ∧
      s.canAttempt tryOnce reemitFinding = false ∧ s.Bounded tryOnce := by
  refine ⟨_, rfl, by decide +kernel, RepairRun.repair_budgets_hold (.follow (.start rfl) ?_)⟩
  exact .head ⟨.ask reemitFinding, trivial, rfl⟩ <|
    .head ⟨.record reemitFinding "failed" none none, trivial, rfl⟩ <|
    .head ⟨.restart 0, rfl, rfl⟩ <| .head ⟨.ask reemitFinding, trivial, rfl⟩ .refl

/-- A finding re-emitted once is re-emitted again after the process died while it wrote
down another repair: the ledger is torn, and reads as empty. -/
theorem torn_ledger_hands_out_again :
    ∃ acts s, RepairRun.runActs tryOnce {} acts = some s ∧
      tryOnce.maximum reemitFinding < s.handed reemitFinding none :=
  ⟨[.ask reemitFinding, .record reemitFinding "failed" none none, .ask reemitAction,
      .cut reemitAction, .restart 0, .ask reemitFinding], _, rfl, by decide +kernel⟩

end Clearotron
