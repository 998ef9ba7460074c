import Clearotron.Research.Handed

/-!
# The sessions of a stage

A retry's session key is the key it retries with `-rerun<n>` behind it, and a retry may be retried.
Two keys are one stage's where both are retries of one root, and what a stage holds without having
been handed it, one of its sessions asked.
-/

namespace Clearotron.Research

variable {root l l' digits : List Char} {s a b : String} {n : Nat}

/-- The digits of a retry. -/
def AreDigits (digits : List Char) : Prop := digits ≠ [] ∧ ∀ d ∈ digits, d.isDigit = true

def rerunMark : List Char := ['-', 'r', 'e', 'r', 'u', 'n']

/-- A key with retries behind it. -/
inductive Reruns (root : List Char) : List Char → Prop
  | root : Reruns root root
  | again {l digits : List Char} (front : Reruns root l) (number : AreDigits digits) :
    Reruns root (l ++ (rerunMark ++ digits))

theorem withoutRerun_append (number : AreDigits digits) :
    withoutRerun (l ++ (rerunMark ++ digits)) = some l := by
  have flipped : (l ++ (rerunMark ++ digits)).reverse =
      digits.reverse ++ 'n' :: (['u', 'r', 'e', 'r', '-'] ++ l.reverse) := by
    simp [rerunMark]
  have all : ∀ d ∈ digits.reverse, d.isDigit = true := fun d mem =>
    number.2 d (List.mem_reverse.1 mem)
  have read : (l ++ (rerunMark ++ digits)).reverse.takeWhile Char.isDigit = digits.reverse := by
    rw [flipped, List.takeWhile_append_of_pos all, List.takeWhile_cons_of_neg (by decide),
      List.append_nil]
  have left : (l ++ (rerunMark ++ digits)).reverse.dropWhile Char.isDigit =
      "nurer-".toList ++ l.reverse := by
    rw [flipped, List.dropWhile_append_of_pos all, List.dropWhile_cons_of_neg (by decide)]
    rfl
  rw [withoutRerun, read, left]
  rw [if_pos ⟨by simpa using number.1, List.isPrefixOf_iff_prefix.2 (List.prefix_append _ _)⟩,
    show (6 : Nat) = "nurer-".toList.length from rfl, List.drop_left, List.reverse_reverse]

theorem withoutRerun_eq_some (cut : withoutRerun l = some l') :
    ∃ digits, AreDigits digits ∧ l = l' ++ (rerunMark ++ digits) := by
  rw [withoutRerun] at cut
  split at cut
  · rename_i marked
    obtain ⟨some', starts⟩ := marked
    obtain ⟨rest, own⟩ := List.isPrefixOf_iff_prefix.1 starts
    rw [← own, show (6 : Nat) = "nurer-".toList.length from rfl, List.drop_left,
      Option.some.injEq] at cut
    subst cut
    refine ⟨(l.reverse.takeWhile Char.isDigit).reverse,
      ⟨by simpa using some', fun d mem => List.mem_takeWhile_imp (List.mem_reverse.1 mem)⟩, ?_⟩
    have whole := List.takeWhile_append_dropWhile (p := Char.isDigit) (l := l.reverse)
    rw [← own] at whole
    have flipped := congrArg List.reverse whole
    rw [List.reverse_reverse, List.reverse_append, List.reverse_append, List.append_assoc]
      at flipped
    exact flipped.symm
  · cases cut

theorem length_lt_of_withoutRerun (cut : withoutRerun l = some l') : l'.length < l.length := by
  obtain ⟨digits, -, rfl⟩ := withoutRerun_eq_some cut
  simp [rerunMark]

theorem baseFrom_root (enough : l.length ≤ n) :
    withoutRerun (baseFrom n l) = none ∧ Reruns (baseFrom n l) l := by
  induction n generalizing l with
  | zero =>
    obtain rfl := List.eq_nil_of_length_eq_zero (Nat.le_zero.1 enough)
    exact ⟨rfl, .root⟩
  | succ n ih =>
    rw [baseFrom]
    cases cut : withoutRerun l with
    | none => exact ⟨cut, .root⟩
    | some l' =>
      have shorter := length_lt_of_withoutRerun cut
      obtain ⟨digits, number, rfl⟩ := withoutRerun_eq_some cut
      obtain ⟨stays, reruns⟩ := ih (l := l') (by omega)
      exact ⟨stays, reruns.again number⟩

theorem baseFrom_of_reruns (stays : withoutRerun root = none) (reruns : Reruns root l)
    (enough : l.length ≤ n) : baseFrom n l = root := by
  induction reruns generalizing n with
  | root =>
    cases n with
    | zero => rfl
    | succ n => rw [baseFrom, stays]
  | @again l digits _ number ih =>
    cases n with
    | zero => simp [rerunMark] at enough
    | succ n =>
      rw [baseFrom, withoutRerun_append number]
      refine ih ?_
      simp only [rerunMark, List.length_append, List.length_cons, List.length_nil] at enough
      omega

theorem base_eq_iff : base s = root ↔ withoutRerun root = none ∧ Reruns root s.toList := by
  constructor
  · rintro rfl
    exact baseFrom_root le_rfl
  · rintro ⟨stays, reruns⟩
    exact baseFrom_of_reruns stays reruns le_rfl

/-- Two keys are retries of one root. -/
def OneStage (a b : String) : Prop :=
  ∃ root, withoutRerun root = none ∧ Reruns root a.toList ∧ Reruns root b.toList

theorem sameStageSession_iff : sameStageSession (some a) (some b) = true ↔
    a ≠ "" ∧ b ≠ "" ∧ OneStage a b := by
  simp only [sameStageSession, Bool.and_eq_true, decide_eq_true_eq, and_assoc]
  refine and_congr_right fun _ => and_congr_right fun _ => ?_
  constructor
  · intro same
    obtain ⟨stays, reruns⟩ := base_eq_iff.1 (rfl : base b = base b)
    exact ⟨base b, stays, (base_eq_iff.1 same).2, reruns⟩
  · rintro ⟨root, stays, front, back⟩
    rw [base_eq_iff.2 ⟨stays, front⟩, base_eq_iff.2 ⟨stays, back⟩]

/-- The session is one of the stage. -/
def OfStage (key session : Option String) : Prop :=
  ∃ s w, session = some s ∧ key = some w ∧ s ≠ "" ∧ w ≠ "" ∧ OneStage s w

theorem sameStageSession_iff_ofStage {key session : Option String} :
    sameStageSession session key = true ↔ OfStage key session := by
  rcases session with _ | s
  · simp [sameStageSession, OfStage]
  rcases key with _ | w
  · simp [sameStageSession, OfStage]
  rw [sameStageSession_iff]
  constructor
  · exact fun is => ⟨s, w, rfl, rfl, is⟩
  · rintro ⟨_, _, ⟨⟩, ⟨⟩, is⟩
    exact is

variable {lower : String → String} {k : String}

/-- The file has an answer under the key. -/
def HandedUnder (lower : String → String) (file : Option (List Char)) (k : String) : Prop :=
  ∃ l ∈ (file.map (·.splitOn '\n')).getD [], ∃ q t, readLine l = some (q, t) ∧
    isResearchAnswer t = true ∧ questionKey lower q = k

/-- A session of the stage has an answer in the record under the key. -/
def KeptUnder (lower : String → String) (record : List Line) (key : Option String) (k : String) :
    Prop :=
  ∃ r, .row r ∈ record ∧ OfStage key r.session ∧ ∃ task text, r.task = some task ∧
    r.text = some text ∧ isResearchAnswer text = true ∧ questionKey lower task = k

/-- A session of the stage completed a call under the key that was no grid. -/
def CompletedUnder (lower : String → String) (asked : List Asked) (key : Option String)
    (k : String) : Prop :=
  ∃ c ∈ asked, c.tool = some "perplexity_research" ∧ c.ok = true ∧ c.grid = false ∧
    OfStage key c.session ∧ ∃ task, c.task = some task ∧ questionKey lower task = k

theorem mem_rowsOf {record : List Line} {r : Row} : r ∈ rowsOf record ↔ .row r ∈ record := by
  rw [rowsOf, List.mem_filterMap]
  constructor
  · rintro ⟨l, mem, is⟩
    cases l with
    | torn => cases is
    | null => cases is
    | row r' => exact Option.some.inj is ▸ mem
  · exact fun mem => ⟨_, mem, rfl⟩

theorem isSome_lookup {α κ ν : Type} [DecidableEq κ] {f : α → Option (κ × ν)} {k : κ}
    {xs : List α} :
    ((xs.filterMap f).lookup k).isSome = true ↔ ∃ x ∈ xs, ∃ v, f x = some (k, v) := by
  rw [List.lookup_isSome_iff]
  constructor
  · rintro ⟨⟨k', v⟩, mem, same⟩
    obtain rfl : k = k' := eq_of_beq same
    obtain ⟨x, there, is⟩ := List.mem_filterMap.1 mem
    exact ⟨x, there, v, is⟩
  · rintro ⟨x, there, v, is⟩
    exact ⟨(k, v), List.mem_filterMap.2 ⟨x, there, is⟩, beq_self_eq_true k⟩

theorem heldUnder_eq_some {question : String} {answer : Option String} {origin : From}
    (named : k ≠ "") :
    (∃ v, heldUnder lower question answer origin = some (k, v)) ↔
      questionKey lower question = k := by
  rw [heldUnder]
  constructor
  · rintro ⟨v, is⟩
    split at is
    · cases is
    · exact (Prod.mk.inj (Option.some.inj is)).1
  · rintro rfl
    exact ⟨_, if_neg named⟩

theorem lineOffer_isSome (named : k ≠ "") (l : List Char) :
    (∃ v, lineOffer lower l = some (k, v)) ↔
      ∃ q t, readLine l = some (q, t) ∧ isResearchAnswer t = true ∧ questionKey lower q = k := by
  rw [lineOffer]
  rcases readLine l with _ | ⟨q, t⟩
  · simp
  · dsimp only
    split
    · rename_i answer
      rw [heldUnder_eq_some named]
      simp [answer]
    · rename_i other
      simp [other]

theorem rowOffer_isSome (named : k ≠ "") (key : Option String) (r : Row) :
    (∃ v, rowOffer lower key r = some (k, v)) ↔
      OfStage key r.session ∧ ∃ task text, r.task = some task ∧ r.text = some text ∧
        isResearchAnswer text = true ∧ questionKey lower task = k := by
  rw [rowOffer, ← sameStageSession_iff_ofStage]
  rcases r.task with _ | task
  · simp
  rcases r.text with _ | text
  · simp
  dsimp only
  split
  · rename_i both
    rw [Bool.and_eq_true] at both
    rw [heldUnder_eq_some named]
    simp [both.1, both.2]
  · rename_i other
    rw [Bool.and_eq_true] at other
    simp only [reduceCtorEq, exists_false, Option.some.injEq, false_iff]
    rintro ⟨stage, _, _, rfl, rfl, answer, -⟩
    exact other ⟨stage, answer⟩

theorem askedOffer_isSome (named : k ≠ "") (kept : List Row) (replayFrom : Option (List Row))
    (key : Option String) (c : Asked) :
    (∃ v, askedOffer lower kept replayFrom key c = some (k, v)) ↔
      c.tool = some "perplexity_research" ∧ c.ok = true ∧ c.grid = false ∧
        OfStage key c.session ∧ ∃ task, c.task = some task ∧ questionKey lower task = k := by
  rw [askedOffer, ← sameStageSession_iff_ofStage]
  rcases c.task with _ | task
  · simp
  dsimp only
  split
  · rename_i completed
    simp only [Bool.and_eq_true, decide_eq_true_eq, Bool.not_eq_true'] at completed
    rw [heldUnder_eq_some named]
    simp [completed]
  · rename_i other
    simp only [Bool.and_eq_true, decide_eq_true_eq, Bool.not_eq_true'] at other
    simp only [reduceCtorEq, exists_false, Option.some.injEq, false_iff]
    rintro ⟨tool, ok, grid, stage, -⟩
    exact other ⟨⟨⟨tool, ok⟩, stage⟩, grid⟩

/-- A question is held exactly where the file answers it, or a session of the stage, the key's
root with any retries behind it, kept an answer to it or completed a call that asked it. -/
theorem isHeld_iff (named : k ≠ "") (file : Option (List Char)) (record : List Line)
    (asked : List Asked) (replayFrom : Option (List Row)) (key : Option String) :
    ((heldResearchAnswers lower file record asked replayFrom key).get k).isSome = true ↔
      HandedUnder lower file k ∨ KeptUnder lower record key k ∨
        CompletedUnder lower asked key k := by
  rw [get_heldResearchAnswers, Option.isSome_or, Option.isSome_or, Bool.or_eq_true,
    Bool.or_eq_true, isSome_lookup, isSome_lookup, isSome_lookup]
  refine or_congr ?_ (or_congr ?_ ?_)
  · simp only [lineOffer_isSome named, HandedUnder]
  · simp only [rowOffer_isSome named, KeptUnder, mem_rowsOf]
  · simp only [askedOffer_isSome named, CompletedUnder]

theorem isHeld_asRecorded :
    ((heldResearchAnswers asciiLower none asRecorded [] none (some "writer-rerun2")).get
        "who owns nova").isSome = true ↔
      HandedUnder asciiLower none "who owns nova" ∨
        KeptUnder asciiLower asRecorded (some "writer-rerun2") "who owns nova" ∨
          CompletedUnder asciiLower [] (some "writer-rerun2") "who owns nova" :=
  isHeld_iff (by decide) none asRecorded [] none (some "writer-rerun2")

end Clearotron.Research
