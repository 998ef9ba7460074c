import Mathlib.Logic.Relation

/-!
# Reachable states

A system is given by the states it may start in and the steps it may take. What
holds at the start and is kept by every step holds of every state reached, and a
fact established on the way may be used while the next one is shown to be kept.

A file written in place may be left torn by a failure or a kill. A reader that parses it finds
what was written, or nothing.
-/

namespace Clearotron

variable {σ : Type*} {start start' : σ → Prop} {step step' : σ → σ → Prop} {s : σ}

/-- The states a run reaches. -/
inductive Reaches (start : σ → Prop) (step : σ → σ → Prop) : σ → Prop
  | start {s : σ} (h : start s) : Reaches start step s
  | step {s s' : σ} (reached : Reaches start step s) (h : step s s') : Reaches start step s'

namespace Reaches

/-- An invariant holds of every state reached. -/
theorem invariant {inv : σ → Prop} (reached : Reaches start step s)
    (first : ∀ s, start s → inv s) (keep : ∀ s s', inv s → step s s' → inv s') : inv s := by
  induction reached with
  | start h => exact first _ h
  | step _ h ih => exact keep _ _ ih h

/-- An invariant may lean on what is already known of every state reached. -/
theorem invariant_with {known inv : σ → Prop} (reached : Reaches start step s)
    (always : ∀ s, Reaches start step s → known s) (first : ∀ s, start s → inv s)
    (keep : ∀ s s', known s → inv s → step s s' → inv s') : inv s := by
  induction reached with
  | start h => exact first _ h
  | step before h ih => exact keep _ _ (always _ before) ih h

/-- Fewer steps reach fewer states. -/
theorem mono (reached : Reaches start step s) (starts : ∀ s, start s → start' s)
    (steps : ∀ s s', step s s' → step' s s') : Reaches start' step' s := by
  induction reached with
  | start h => exact .start (starts _ h)
  | step _ h ih => exact .step ih (steps _ _ h)

/-- A run goes on from a state reached. -/
theorem follow {t : σ} (reached : Reaches start step s) (run : Relation.ReflTransGen step s t) :
    Reaches start step t := by
  induction run with
  | refl => exact reached
  | tail _ h ih => exact .step ih h

end Reaches

end Clearotron

namespace Clearotron

/-- What is found where a file should be. -/
inductive Held (α : Type)
  | absent
  | torn
  | holds (a : α)
  deriving DecidableEq

namespace Held

variable {α : Type}

/-- Read and parsed: a torn file reads as none does. -/
def read : Held α → Option α
  | .holds a => some a
  | _ => none

@[simp] theorem read_holds (a : α) : (Held.holds a).read = some a := rfl

@[simp] theorem read_absent : (Held.absent : Held α).read = none := rfl

@[simp] theorem read_torn : (Held.torn : Held α).read = none := rfl

end Held

end Clearotron
