import Mathlib.Algebra.Order.Field.Basic
import Mathlib.Algebra.Order.Group.MinMax
import Mathlib.Tactic.Linarith
import Mathlib.Tactic.Ring

/-!
# Token buckets

A bucket holds so many tokens at most, gains them at a steady rate, and gives one to each call it
admits. What it holds is told from the times it admitted at: over every stretch of time up to now,
what was given and what is left come to no more than a full bucket and the gain of that stretch,
and for one stretch they come to just that.
-/

namespace Clearotron

/-- What a bucket holds at most, and what it gains in a unit of time. -/
structure TokenLaw (K : Type*) [Field K] [LinearOrder K] where
  burst : K
  rate : K
  burst_nonneg : 0 ≤ burst
  rate_nonneg : 0 ≤ rate

section

variable {K : Type*} [LinearOrder K]

/-- How many were admitted since a moment. -/
def usedSince (log : List K) (s : K) : ℕ := log.countP (s ≤ ·)

theorem usedSince_concat (log : List K) (s n : K) :
    usedSince (log ++ [n]) s = usedSince log s + if s ≤ n then 1 else 0 := by
  simp [usedSince, List.countP_append, List.countP_cons]

theorem usedSince_of_past {log : List K} {s : K} (past : ∀ t ∈ log, t < s) : usedSince log s = 0 :=
  List.countP_eq_zero.mpr fun t mem => by simpa using past t mem

end

namespace TokenLaw

variable {K : Type*} [Field K] [LinearOrder K] [IsStrictOrderedRing K]
variable {L : TokenLaw K} {log : List K} {n n' e s : K}

/-- Room in a stretch that ends now. -/
def room (L : TokenLaw K) (n s : K) : K := L.burst + L.rate * (n - s)

omit [IsStrictOrderedRing K] in
theorem room_add (L : TokenLaw K) (n n' s : K) :
    L.room n' s = L.room n s + L.rate * (n' - n) := by
  unfold room
  ring

theorem burst_le_room (L : TokenLaw K) (past : s ≤ n) : L.burst ≤ L.room n s := by
  have gain := mul_nonneg L.rate_nonneg (sub_nonneg.mpr past)
  unfold room
  linarith

/-- What a bucket holds is what the times it admitted at leave of its room. -/
structure Exact (L : TokenLaw K) (n : K) (log : List K) (e : K) : Prop where
  past : ∀ t ∈ log, t ≤ n
  nonneg : 0 ≤ e
  within : ∀ s ≤ n, usedSince log s + e ≤ L.room n s
  tight : ∃ s ≤ n, L.room n s ≤ usedSince log s + e

namespace Exact

/-- A bucket that has admitted nothing is full. -/
theorem full (L : TokenLaw K) (n : K) : L.Exact n [] L.burst where
  past _ mem := by cases mem
  nonneg := L.burst_nonneg
  within s past := by simpa [usedSince] using L.burst_le_room past
  tight := ⟨n, le_rfl, by simp [usedSince, room]⟩

/-- Time passes: the bucket gains what it can hold. -/
theorem wait (h : L.Exact n log e) (later : n ≤ n') :
    L.Exact n' log (min L.burst (e + L.rate * (n' - n))) where
  past t mem := (h.past t mem).trans later
  nonneg := le_min L.burst_nonneg
    (add_nonneg h.nonneg (mul_nonneg L.rate_nonneg (sub_nonneg.mpr later)))
  within s past := by
    by_cases old : s ≤ n
    · have held := h.within s old
      have gained := min_le_right L.burst (e + L.rate * (n' - n))
      rw [L.room_add n n' s]
      linarith
    · have none := usedSince_of_past fun t mem => (h.past t mem).trans_lt (not_le.mp old)
      rw [none, Nat.cast_zero, zero_add]
      exact (min_le_left _ _).trans (L.burst_le_room past)
  tight := by
    obtain ⟨s, past, tight⟩ := h.tight
    obtain full | low := le_total L.burst (e + L.rate * (n' - n))
    · rw [min_eq_left full]
      exact ⟨n', le_rfl, by simp [room]⟩
    · rw [min_eq_right low]
      refine ⟨s, past.trans later, ?_⟩
      rw [L.room_add n n' s]
      linarith

/-- A call is admitted: a token is given. -/
theorem give (h : L.Exact n log e) (holds : 1 ≤ e) : L.Exact n (log ++ [n]) (e - 1) where
  past t mem := by
    rcases List.mem_append.mp mem with before | now
    · exact h.past t before
    · exact (List.mem_singleton.mp now).le
  nonneg := sub_nonneg.mpr holds
  within s past := by
    have held := h.within s past
    rw [usedSince_concat, if_pos past, Nat.cast_add, Nat.cast_one]
    linarith
  tight := by
    obtain ⟨s, past, tight⟩ := h.tight
    refine ⟨s, past, ?_⟩
    rw [usedSince_concat, if_pos past, Nat.cast_add, Nat.cast_one]
    linarith

/-- A token is there exactly where every stretch up to now has room for one call more. -/
theorem holds_iff (h : L.Exact n log e) :
    1 ≤ e ↔ ∀ s ≤ n, (usedSince log s : K) + 1 ≤ L.room n s := by
  constructor
  · intro holds s past
    have held := h.within s past
    linarith
  · intro fits
    obtain ⟨s, past, tight⟩ := h.tight
    have held := fits s past
    linarith

theorem used_le (h : L.Exact n log e) (past : s ≤ n) : (usedSince log s : K) ≤ L.room n s := by
  have held := h.within s past
  have left := h.nonneg
  linarith

end Exact

end TokenLaw

end Clearotron
