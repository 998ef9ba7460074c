import Clearotron.Verdict.Conditions

/-!
# The count in a statement

A statement counts the conditions it does not give in words of a fixed shape, and the first text of
that shape is taken for the count. Joined texts hold none where neither does and none reaches from
one into the other.
-/

namespace Clearotron.Verdict

variable {x y l rest d : List Char} {n : ℕ} {c : Char}

/-- ` (and d more)`. -/
def countText (d : List Char) : List Char := " (and ".toList ++ (d ++ " more)".toList)

def IsNumeral (d : List Char) : Prop := d ≠ [] ∧ ∀ c ∈ d, c.isDigit = true

def valueOf (d : List Char) : ℕ := d.foldl (fun n c => 10 * n + (c.toNat - 48)) 0

theorem countText_parts (d : List Char) :
    countText d = " (and ".toList ++ (d ++ " more)".toList) := rfl

theorem countHere_countText (numeral : IsNumeral d) :
    countHere (countText d ++ rest) = some (valueOf d, rest) := by
  have behind : (countText d ++ rest).drop 6 = d ++ (" more)".toList ++ rest) := by
    rw [countText_parts, List.append_assoc, List.append_assoc]
    exact List.drop_left' rfl
  have digits : (d ++ (" more)".toList ++ rest)).takeWhile Char.isDigit = d := by
    rw [List.takeWhile_append_of_pos numeral.2]
    simp
  have front : " (and ".toList.isPrefixOf (countText d ++ rest) = true := by
    rw [List.isPrefixOf_iff_prefix, countText_parts, List.append_assoc]
    exact List.prefix_append _ _
  have back : " more)".toList.isPrefixOf
      ((d ++ (" more)".toList ++ rest)).drop d.length) = true := by
    rw [List.drop_left, List.isPrefixOf_iff_prefix]
    exact List.prefix_append _ _
  have after : (d ++ (" more)".toList ++ rest)).drop (d.length + 6) = rest := by
    rw [← List.drop_drop, List.drop_left]
    rfl
  simp only [countHere]
  rw [behind, digits, front, back, after]
  simp [numeral.1, valueOf]

theorem countText_of_countHere (is : countHere l = some (n, rest)) :
    ∃ d, IsNumeral d ∧ l = countText d ++ rest ∧ n = valueOf d := by
  simp only [countHere] at is
  split at is
  · rename_i holds
    simp only [Bool.and_eq_true, decide_eq_true_eq, List.isPrefixOf_iff_prefix] at holds
    obtain ⟨⟨⟨behind, rfl⟩, filled⟩, back⟩ := holds
    have drop : (" (and ".toList ++ behind).drop 6 = behind := rfl
    rw [drop] at is filled back
    obtain ⟨after, whole⟩ := List.takeWhile_prefix (p := Char.isDigit) (l := behind)
    have digits : ∀ c ∈ behind.takeWhile Char.isDigit, c.isDigit = true :=
      fun c mem => List.mem_takeWhile_imp mem
    generalize behind.takeWhile Char.isDigit = d at is filled back whole digits
    subst whole
    rw [List.drop_left] at back
    obtain ⟨rest', rfl⟩ := back
    obtain ⟨rfl, same⟩ := Prod.mk.inj (Option.some.inj is)
    have drop : (d ++ (" more)".toList ++ rest')).drop (d.length + 6) = rest' := by
      rw [← List.drop_drop, List.drop_left]
      rfl
    rw [drop] at same
    subst same
    exact ⟨d, ⟨filled, digits⟩, by simp only [countText_parts, List.append_assoc], rfl⟩
  · cases is

theorem firstCount_eq_none : firstCount l = none ↔ ∀ x y, l = x ++ y → countHere y = none := by
  induction l with
  | nil =>
    refine iff_of_true rfl fun x y is => ?_
    obtain ⟨-, rfl⟩ := List.append_eq_nil_iff.mp is.symm
    rfl
  | cons c l ih =>
    rw [firstCount]
    constructor
    · intro none' x y is
      split at none'
      · cases none'
      · rename_i here
        cases x with
        | nil => rwa [← List.nil_append y, ← is]
        | cons d x =>
          obtain ⟨-, rest⟩ := List.cons.inj is
          exact ih.mp (Option.map_eq_none_iff.mp none') x y rest
    · intro each
      rw [each [] (c :: l) rfl]
      exact Option.map_eq_none_iff.mpr (ih.mpr fun x y is => each (c :: x) y (by rw [is]; rfl))

/-- The letters of a count behind its bracket. -/
def innerLetter (c : Char) : Prop := c ∈ "and more)".toList ∨ c.isDigit = true

theorem innerLetter_of_mem (numeral : IsNumeral d)
    (mem : c ∈ "and ".toList ++ (d ++ " more)".toList)) : innerLetter c := by
  rw [List.mem_append, List.mem_append] at mem
  obtain mem | mem | mem := mem
  · exact .inl (EngineWords.each_of_all (l := "and ".toList) (by decide) c mem)
  · exact .inr (numeral.2 c mem)
  · exact .inl (EngineWords.each_of_all (l := " more)".toList) (by decide) c mem)

theorem countText_eq (d : List Char) :
    countText d = ' ' :: '(' :: ("and ".toList ++ (d ++ " more)".toList)) := rfl

/-- What follows a text so that no count reaches from the one into the other. -/
def Apart (x y : List Char) : Prop :=
  y = [] ∨ (∃ c, x.getLast? = some c ∧ c ≠ '(' ∧ ¬ innerLetter c) ∨
    (∃ c y', y = c :: y' ∧ c ≠ '(' ∧ ¬ innerLetter c) ∨ ∃ c y', y = ' ' :: c :: y' ∧ ¬ innerLetter c

theorem getLast?_countText (d : List Char) : (countText d).getLast? = some ')' := by
  rw [countText_parts, ← List.append_assoc, List.getLast?_append]
  rfl

/-- No part of a count stands in each of two texts that stand apart. -/
theorem not_apart_of_split (numeral : IsNumeral d) (apart : Apart x y) {a b e : List Char}
    {h : Char} (whole : x = a ++ b) (filled : b ≠ []) (split : countText d = b ++ h :: e)
    (back : y = h :: e ++ rest) : False := by
  have closed := getLast?_countText d
  rw [split] at closed
  obtain ⟨c₀, b', rfl⟩ := List.exists_cons_of_ne_nil filled
  rw [countText_eq, List.cons_append, List.cons.injEq] at split
  obtain ⟨rfl, inner⟩ := split
  have outside : ∀ c ∈ b' ++ h :: e, c = '(' ∨ innerLetter c := by
    rw [← inner]
    intro c mem
    exact (List.mem_cons.mp mem).imp_right (innerLetter_of_mem numeral)
  obtain rfl | ⟨c, is, bracket, other⟩ | ⟨c, y', rfl, bracket, other⟩ | ⟨c, y', rfl, other⟩ := apart
  · cases back
  · rw [whole, List.getLast?_append, List.getLast?_cons, Option.some_or, Option.some_inj] at is
    cases same : b'.getLast? with
    | none =>
      rw [same, Option.getD_none] at is
      exact other (is ▸ .inl (by decide))
    | some c' =>
      rw [same, Option.getD_some] at is
      have mem := List.mem_of_getLast? (is ▸ same)
      exact (outside c (List.mem_append_left _ mem)).elim bracket other
  · obtain ⟨rfl, -⟩ := List.cons.inj back
    exact (outside c (List.mem_append_right _ List.mem_cons_self)).elim bracket other
  · obtain ⟨rfl, behind⟩ := List.cons.inj back
    cases b' with
    | nil => exact absurd (List.cons.inj inner).1 (by decide)
    | cons c' b' =>
      obtain ⟨rfl, letters⟩ := List.cons.inj inner
      cases e with
      | nil =>
        rw [List.getLast?_concat] at closed
        exact absurd closed (by decide)
      | cons c'' e =>
        obtain ⟨rfl, -⟩ := List.cons.inj behind
        refine other (innerLetter_of_mem numeral ?_)
        rw [show "and ".toList ++ (d ++ " more)".toList) = b' ++ ' ' :: c :: e from letters]
        exact List.mem_append_right _ (List.mem_cons_of_mem _ List.mem_cons_self)

/-- A count that starts in a text ends in it, where what follows stands apart. -/
theorem countHere_append (apart : Apart x y) {a b : List Char} (whole : x = a ++ b)
    (filled : b ≠ []) (none' : countHere b = none) : countHere (b ++ y) = none := by
  cases is : countHere (b ++ y) with
  | none => rfl
  | some count =>
    exfalso
    obtain ⟨n, rest⟩ := count
    obtain ⟨d, numeral, is', -⟩ := countText_of_countHere is
    obtain ⟨e, rfl, back⟩ | ⟨e, split, back⟩ := List.append_eq_append_iff.mp is'.symm
    · rw [countHere_countText numeral] at none'
      cases none'
    · cases e with
      | nil =>
        rw [List.append_nil] at split
        rw [← split, ← List.append_nil (countText d), countHere_countText numeral] at none'
        cases none'
      | cons h e => exact not_apart_of_split numeral apart whole filled split back

theorem firstCount_append (apart : Apart x y) (left : firstCount x = none)
    (right : firstCount y = none) : firstCount (x ++ y) = none := by
  rw [firstCount_eq_none] at left right ⊢
  intro a b is
  obtain ⟨e, rfl, back⟩ | ⟨e, rfl, back⟩ := List.append_eq_append_iff.mp is
  · exact right e b back
  · cases e with
    | nil => exact right [] b back.symm
    | cons c e =>
      rw [back]
      exact countHere_append apart rfl (List.cons_ne_nil _ _) (left a (c :: e) rfl)

theorem firstCount_append_count (numeral : IsNumeral d) (apart : Apart x (countText d ++ rest))
    (left : firstCount x = none) :
    firstCount (x ++ (countText d ++ rest)) = some (x, valueOf d, rest) := by
  rw [firstCount_eq_none] at left
  have each : ∀ b, (∃ a, x = a ++ b) → firstCount (b ++ (countText d ++ rest)) =
      some (b, valueOf d, rest) := by
    intro b
    induction b with
    | nil =>
      intro _
      rw [List.nil_append]
      have here : countHere (countText d ++ rest) = some (valueOf d, rest) :=
        countHere_countText numeral
      rw [countText_eq, List.cons_append] at here ⊢
      rw [firstCount, here]
    | cons c b ih =>
      rintro ⟨a, rfl⟩
      have here := countHere_append apart rfl (List.cons_ne_nil c b) (left a (c :: b) rfl)
      rw [List.cons_append] at here ⊢
      rw [firstCount, here, ih ⟨a ++ [c], by simp⟩]
      rfl
  exact each x ⟨[], rfl⟩

theorem firstCount_of_no_bracket (no : '(' ∉ l) : firstCount l = none := by
  rw [firstCount_eq_none]
  rintro x y rfl
  cases is : countHere y with
  | none => rfl
  | some count =>
    obtain ⟨n, rest⟩ := count
    obtain ⟨d, -, rfl, -⟩ := countText_of_countHere is
    exact absurd (by simp [countText_eq]) no

theorem isNumeral_toString (n : ℕ) : IsNumeral (toString n).toList := by
  have is : (toString n).toList = Nat.toDigits 10 n := by simp [toString, Nat.repr]
  rw [is]
  exact ⟨Nat.toDigits_ne_nil, fun c mem => Nat.isDigit_of_mem_toDigits (by decide) (by decide) mem⟩

theorem valueOf_toString (n : ℕ) : valueOf (toString n).toList = n := by
  have is : (toString n).toList = Nat.toDigits 10 n := by simp [toString, Nat.repr]
  rw [is]
  exact Nat.ofDigitChars_ten_toDigits

end Clearotron.Verdict
