import Clearotron.Verdict.EngineWords

/-!
# The clamp of a verdict

A guard that finds the report incomplete never holds it: it moves the verdict towards caution and
names the defect. A verdict is moved back where the gap is closed, and only to what the assessment
said, with no reason left.
-/

namespace Clearotron.Verdict

open EngineWords

/-- `CAUTION`: the verdicts, ordered by caution. -/
def caution : List String := ["CLEAR", "CONDITIONAL", "BLOCKING"]

inductive ClampFault where
  | unnamedDefect
  | noReason
  | noClause
  | engineClause
  deriving DecidableEq, Repr

/-- What a clamp decides; the defect is the record's, with the verdicts where it moved. -/
structure ClampDecision (D : Type) where
  verdict : Option String
  reason : String
  clause : String
  defect : String
  detail : D
  moved : Option (Option String × Option String)

/-- What a guard asks of a clamp. -/
structure ClampStep (D : Type) where
  defect : Option String
  reason : Option String
  clause : Option String
  detail : D

section

variable {D : Type}

def terminalClampDecision (verdict : Option String) (step : ClampStep D) :
    Except ClampFault (ClampDecision D) :=
  let token := Text.trim (step.defect.getD "")
  let text := Text.trim (step.reason.getD "")
  let readerClause := Text.trim (step.clause.getD "")
  if token = "" then .error .unnamedDefect
  else if text = "" then .error .noReason
  else if readerClause = "" then .error .noClause
  else if carriesEngineWords readerClause.toList then .error .engineClause
  else
    let clampTo := if caution.idxOf? (verdict.getD "") = some 0 then some "CONDITIONAL" else verdict
    .ok
      { verdict := clampTo
        reason := text
        clause := readerClause
        defect := token
        detail := step.detail
        moved := if clampTo ≠ verdict then some (verdict, clampTo) else none }

/-- The verdict after a step; one that is refused leaves it. -/
def afterStep (verdict : Option String) (step : ClampStep D) : Option String :=
  match terminalClampDecision verdict step with
  | .ok decision => decision.verdict
  | .error _ => verdict

def afterSteps (verdict : Option String) (steps : List (ClampStep D)) : Option String :=
  steps.foldl afterStep verdict

/-- Unmoved, or moved further along the verdicts. -/
def TowardsBlocking (v v' : Option String) : Prop :=
  v' = v ∨ ∃ (i j : ℕ) (a b : String), i < j ∧ caution[i]? = some a ∧ caution[j]? = some b ∧
    v = some a ∧ v' = some b

theorem TowardsBlocking.trans {u v w : Option String} (left : TowardsBlocking u v)
    (right : TowardsBlocking v w) : TowardsBlocking u w := by
  have once : caution.Nodup := by decide
  obtain rfl | ⟨i, j, a, b, lt, is, is', from', to'⟩ := left
  · exact right
  · obtain rfl | ⟨k, l, c, d, lt', at', at'', from'', to''⟩ := right
    · exact .inr ⟨i, j, a, b, lt, is, is', from', to'⟩
    · obtain rfl : b = c := Option.some.inj (to'.symm.trans from'')
      have same : j = k := by
        have inside := (List.getElem?_eq_some_iff.mp is').1
        exact (List.getElem?_inj inside once).mp (is'.trans at'.symm)
      exact .inr ⟨i, l, a, d, lt.trans (same ▸ lt'), is, at'', from', to''⟩

theorem verdict_of_decision {verdict : Option String} {step : ClampStep D}
    {decision : ClampDecision D} (made : terminalClampDecision verdict step = .ok decision) :
    decision.verdict =
      if caution.idxOf? (verdict.getD "") = some 0 then some "CONDITIONAL" else verdict := by
  simp only [terminalClampDecision] at made
  split at made
  · exact nomatch made
  split at made
  · exact nomatch made
  split at made
  · exact nomatch made
  split at made
  · exact nomatch made
  · exact (Except.ok.inj made) ▸ rfl

theorem towardsBlocking_afterStep (verdict : Option String) (step : ClampStep D) :
    TowardsBlocking verdict (afterStep verdict step) := by
  rw [afterStep]
  split
  · rename_i decision made
    rw [verdict_of_decision made]
    split
    · rename_i clear
      obtain ⟨_, is, -⟩ := List.idxOf?_eq_some_iff.mp clear
      cases verdict with
      | none => exact absurd (show "CLEAR" = "" from is) (by decide)
      | some v =>
        exact .inr ⟨0, 1, v, "CONDITIONAL", Nat.zero_lt_one, congrArg some is, rfl, rfl, rfl⟩
    · exact .inl rfl
  · exact .inl rfl

/-- Whatever guards speak, a verdict moves only towards caution. -/
theorem towardsBlocking_afterSteps (verdict : Option String) (steps : List (ClampStep D)) :
    TowardsBlocking verdict (afterSteps verdict steps) := by
  induction steps generalizing verdict with
  | nil => exact .inl rfl
  | cons step steps ih => exact (towardsBlocking_afterStep verdict step).trans (ih _)

end

def verdictWithoutTheClosedGap (verdict assessed : Option String) (reasons : List (Option String)) :
    Option String :=
  if verdict = some "CONDITIONAL" ∧ assessed = some "CLEAR" ∧ reasons = [] then some "CLEAR"
  else verdict

/-- What is known of the steps that made a verdict conditional. -/
structure StepsAccount where
  raisedBySteps : Bool := false
  stepsUnreadable : Bool := false
  withdrawnAt : Option String := none
  reviewReadAt : Option String := none
  reviewUnread : Bool := false
  correctionRejectedAt : Option String := none
  recheckUnaccepted : Bool := false

/-- `parse` is the language's reading of a date, none where it reads none. -/
def verdictWhenTheStepsAreWithdrawn (parse : String → Option Int) (verdict assessed : Option String)
    (reasons : List (Option String)) (a : StepsAccount) : Option String :=
  if verdict ≠ some "CONDITIONAL" ∨ assessed ≠ some "CLEAR" ∨ !a.raisedBySteps ∨
      a.stepsUnreadable then verdict
  else if a.recheckUnaccepted then verdict
  else
    match a.withdrawnAt.bind parse, a.reviewReadAt.bind parse with
    | some withdrawn, some read =>
      if !(withdrawn < read) || a.reviewUnread then verdict
      else if a.correctionRejectedAt.any fun t => !(parse t).any (· < withdrawn) then verdict
      else verdictWithoutTheClosedGap verdict assessed reasons
    | _, _ => verdict

/-- A verdict that became clear again had a clear assessment, and has no reason left. -/
def ClearOnlyAgain (verdict assessed after : Option String) (reasons : List (Option String)) :
    Prop := after = verdict ∨ (after = some "CLEAR" ∧ assessed = some "CLEAR" ∧ reasons = [])

variable {verdict assessed : Option String} {reasons : List (Option String)}

theorem clearOnlyAgain_withoutTheClosedGap : ClearOnlyAgain verdict assessed
    (verdictWithoutTheClosedGap verdict assessed reasons) reasons := by
  rw [verdictWithoutTheClosedGap]
  split
  · rename_i clear
    exact .inr ⟨rfl, clear.2⟩
  · exact .inl rfl

theorem clearOnlyAgain_stepsWithdrawn (parse : String → Option Int) (a : StepsAccount) :
    ClearOnlyAgain verdict assessed
      (verdictWhenTheStepsAreWithdrawn parse verdict assessed reasons a) reasons := by
  rw [verdictWhenTheStepsAreWithdrawn]
  split
  · exact .inl rfl
  split
  · exact .inl rfl
  split
  · split
    · exact .inl rfl
    split
    · exact .inl rfl
    · exact clearOnlyAgain_withoutTheClosedGap
  · exact .inl rfl

end Clearotron.Verdict
