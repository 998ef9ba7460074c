import Clearotron.Verdict.Clamp
import Clearotron.Verdict.Conditions

/-!
# What is stated of a verdict's conditions

Every reason is rendered for the client, kept for the record alone, blank, or listed as one that
could not be rendered. The statement opens with a rendered condition and counts the others where
the reasons and the clauses fit one another: the two are read apart, each for its own first text.
-/

namespace Clearotron.Verdict

open EngineWords

section

variable (T : ConditionText) (s : Sidecar)

/-- The stored clause of a reason, trimmed, blank where there is none. -/
def clauseText (clause : Option (Option String)) : String := text (clause.bind id)

/-- A clause that a client reads. -/
def IsShown (clause : Option (Option String)) : Prop :=
  clauseText clause ≠ "" ∧ carriesEngineWords (clauseText clause).toList = false

/-- A reason that is not held back by its clause, and not blank. -/
def IsStated (i : ℕ) (r : Option String) : Prop :=
  s.reasons[i]? = some r ∧ isHeld (s.clauseAt i) = false ∧ text r ≠ ""

inductive Fate where
  | rendered (condition : String)
  | recordOnly
  | blank
  | withheld

namespace Fate

def condition : Fate → String
  | rendered c => c
  | _ => ""

def isWithheld : Fate → Bool
  | withheld => true
  | _ => false

end Fate

/-- What becomes of a reason, by the code of each list. -/
def HasFate (i : ℕ) (r : Option String) : Fate → Prop
  | .rendered condition => condition ≠ "" ∧ renderOne T (s.clauseAt i) r = .ok condition
  | .recordOnly => s.clauseAt i = some none
  | .blank => s.clauseAt i ≠ some none ∧ clauseText (s.clauseAt i) = "" ∧ text r = ""
  | .withheld => listOne T (s.clauseAt i) r = .ok true

/-- The statement that a client reads, of some conditions. -/
def StatesConditions (t : String) (registerOnly : Bool) (conditions : List String)
    (statement : String) : Prop :=
  (conditions = [] ∧ statement = bandAlone t registerOnly) ∨
    ∃ c ∈ conditions, statement =
      conditionalOn t (lede T c) (moreText (conditions.length - 1)) registerOnly

/-- What is owed to the conditions of a sidecar. -/
structure ConditionsPromises (tier : Option String) (registerOnly : Bool) : Prop where
  /-- every reason ends in one way -/
  fates : ∀ i r, s.reasons[i]? = some r → ∃! fate, HasFate T s i r fate
  /-- each rendered condition is listed once, in the order of the reasons, and each withheld
  reason is reported -/
  lists : ∃ fates : List Fate, fates.length = s.reasons.length ∧
    (∀ i r fate, s.reasons[i]? = some r → fates[i]? = some fate → HasFate T s i r fate) ∧
    clientConditions T s = .ok ((fates.map Fate.condition).filter (· ≠ "")) ∧
    unrenderableConditions T s = .ok (((s.reasons.zip fates).filter fun x => x.2.isWithheld).map
      fun x => Text.trim (x.1.getD "null"))
  words : ∀ conditions, clientConditions T s = .ok conditions → ∀ c ∈ conditions,
    carriesEngineWords c.toList = false
  statement_words : ∀ verdict statement,
    riskStatement T tier verdict registerOnly s = some statement →
      carriesEngineWords statement.toList = false
  /-- the statement opens with a condition that is rendered, and counts the others -/
  statement : ∀ verdict, T.upper verdict = "CONDITIONAL" → text tier ≠ "" →
    ∃ statement conditions read,
      riskStatement T tier (some verdict) registerOnly s = some statement ∧
      clientConditions T s = .ok conditions ∧ clientStatement T statement s = .ok read ∧
      StatesConditions T (text tier) registerOnly conditions read

/-- The text the statement opens with: the first clause that is stated, else the first reason. -/
def leadText : Option String := (statedClauses s).head? <|> (statedReasons s).head?

/-- No reason without a clause opens with the name of what every object answers to. -/
def NoMembers : Prop := ∀ i r token n m, s.reasons[i]? = some r → clauseText (s.clauseAt i) = "" →
  reasonPrefix (text r).toList = some (token, n, m) → token ∉ (objectMembers "").map Prod.fst

/-- A clause that is not cut inside a word. -/
def CutFits (t : List Char) : Prop :=
  unitsOf t ≤ statementClauseMax ∨
    ∃ front, beforeLastBlank (within (statementClauseMax + 1) t) = some front ∧ 40 < unitsOf front

/-- The capital of a letter is its own, or both are foreign. -/
def CapitalFits (l : List Char) : Prop :=
  ∀ d rest, l.drop (l.takeWhile isOpener).length = d :: rest → T.isSmall d = true →
    d.toNat < 128 ∨ ∀ u ∈ (T.capital d).toList, 128 ≤ u.toNat

/-- The reasons and the clauses fit one another, and no text of a statement reads as what it is
not. -/
structure StatementFits (tier : Option String) : Prop where
  /-- the clause that is stated first is a reason's own -/
  own_clause : (∃ i, IsShown (s.clauseAt i)) → ∃ i < s.reasons.length, IsShown (s.clauseAt i)
  /-- where no clause is shown, the reason that is stated first holds none of the engine's words -/
  plain_reason : (¬ ∃ i, IsShown (s.clauseAt i)) → ∀ i r, IsStated s i r →
    (∀ j < i, ∀ r', ¬ IsStated s j r') → carriesEngineWords (text r).toList = false
  /-- a reason that is stated alone leaves no clause of a blank reason shown -/
  counted : ∀ i r, IsStated s i r → (∀ j r', IsStated s j r' → j = i) →
    ∀ j r', s.reasons[j]? = some r' → text r' = "" → ¬ IsShown (s.clauseAt j)
  tier_words : carriesEngineWords (text tier).toList = false
  tier_count : firstCount (text tier).toList = none
  /-- the text it opens with holds no count, is not cut inside a word, and its capital is spelled
  as it is -/
  lead_count : ∀ c, leadText s = some c → firstCount (' ' :: lede T c) = none
  lead_cut : ∀ c, leadText s = some c →
    CutFits (withoutStop (Text.trim (String.ofList (sentenceCaseLead T c.toList))).toList)
  lead_capital : ∀ c, leadText s = some c → CapitalFits T c.toList

/-- Every reason is told; with a tier there is a statement, and its texts fit. -/
structure ConditionsFit (tier : Option String) : Prop where
  members : NoMembers s
  stated : text tier ≠ "" → StatementFits T s tier

variable {T s} {x y l : List Char} {i : ℕ} {r : Option String} {clause : Option (Option String)}
  {token : String} {n m : ℕ}

theorem parts_of_digit {c : Char} (digit : c.isDigit = true ∨ c = '.' ∨ c = '+')
    (front : x.getLast? ≠ some '_') (back : y.head? ≠ some '_') : Parts x c y ∧ c ≠ '_' := by
  have range : c.toNat = 46 ∨ c.toNat = 43 ∨ 48 ≤ c.toNat ∧ c.toNat ≤ 57 := by
    obtain digit | rfl | rfl := digit
    · refine .inr (.inr ?_)
      unfold Char.isDigit at digit
      rw [Bool.and_eq_true, decide_eq_true_eq, decide_eq_true_eq, ge_iff_le,
        UInt32.le_iff_toNat_le, UInt32.le_iff_toNat_le] at digit
      exact digit
    · exact .inl rfl
    · exact .inr (.inl rfl)
  have own : c.toLower = c := toLower_of_not_upper fun upper => by
    have := isUpper_iff.mp upper
    omega
  have apart : ∀ d ∈ '_' :: enginePhrases.flatten, d.toNat = 32 ∨ d.toNat = 45 ∨ 95 ≤ d.toNat :=
    each_of_all (by decide)
  have outside : c ∉ '_' :: enginePhrases.flatten := fun inside => by
    have := apart c inside
    omega
  rw [List.mem_cons, not_or] at outside
  exact ⟨⟨own.symm ▸ outside.2, fun _ => front, fun _ => back⟩, outside.1⟩

/-- The letters of a number, before its exponent. -/
def AllDigits (l : List Char) : Prop := ∀ c ∈ l, c.isDigit = true ∨ c = '.'

theorem AllDigits.head_append {digits : List Char} (all : AllDigits digits)
    (back : y.head? ≠ some '_') : (digits ++ y).head? ≠ some '_' := by
  cases digits with
  | nil => exact back
  | cons d digits =>
    have digit : d.isDigit = true ∨ d = '.' ∨ d = '+' :=
      (all d List.mem_cons_self).imp_right .inl
    have parts := parts_of_digit (x := []) (y := []) digit (by simp) (by simp)
    exact fun same => parts.2 (Option.some.inj same)

/-- A text whose digits part it. -/
theorem AllDigits.carries {c : Char} {digits : List Char} (all : AllDigits (c :: digits))
    (front : x.getLast? ≠ some '_') (back : y.head? ≠ some '_')
    (carries : carriesEngineWords (x ++ (c :: digits ++ y)) = true) :
    carriesEngineWords x = true ∨ carriesEngineWords y = true := by
  induction digits generalizing c x with
  | nil =>
    have digit : c.isDigit = true ∨ c = '.' ∨ c = '+' :=
      (all c List.mem_cons_self).imp_right .inl
    obtain ⟨parts, apart⟩ := parts_of_digit digit front back
    exact carries_of_parts parts apart carries
  | cons d digits ih =>
    have later : AllDigits (d :: digits) := fun d mem => all d (List.mem_cons_of_mem _ mem)
    have digit : c.isDigit = true ∨ c = '.' ∨ c = '+' :=
      (all c List.mem_cons_self).imp_right .inl
    obtain ⟨parts, apart⟩ := parts_of_digit digit front (later.head_append back)
    obtain left | right := carries_of_parts parts apart carries
    · exact .inl left
    · exact (ih (x := []) later (by simp) right).imp (fun none' => by cases none') id

/-- A number in a sentence parts it. -/
theorem carries_of_numeral (print : T.print n = some token) (front : x.getLast? ≠ some '_')
    (back : y.head? ≠ some '_')
    (carries : carriesEngineWords (x ++ (token.toList ++ y)) = true) :
    carriesEngineWords x = true ∨ carriesEngineWords y = true := by
  obtain ⟨m, e, is, filled, digits, exponent⟩ := T.print_digits n token print
  obtain ⟨c, m, rfl⟩ := List.exists_cons_of_ne_nil filled
  rw [is, List.append_assoc] at carries
  obtain rfl | ⟨d, rfl, power⟩ := exponent
  · exact AllDigits.carries digits front back carries
  · obtain left | right := AllDigits.carries digits front (by simp) carries
    · exact .inl left
    · have all : AllDigits d := fun c mem => .inl (power c mem)
      obtain ⟨parts, apart⟩ := parts_of_digit (x := ['e']) (y := d ++ y) (.inr (.inr rfl))
        (by decide) (all.head_append back)
      obtain none' | right := carries_of_parts parts apart right
      · exact absurd none' (by decide)
      · cases d with
        | nil => exact .inr right
        | cons c d =>
          exact .inr ((AllDigits.carries (x := []) all (by simp) back right).resolve_left
            (by decide))

/-- A sentence is looked at as its letters, which are not worked out of the bytes again. -/
theorem plain_ofList (plain : carriesEngineWords x = false) :
    carriesEngineWords (String.ofList x).toList = false := by rwa [String.toList_ofList]

theorem plain_ofList_append (plain : carriesEngineWords (x ++ y) = false) :
    carriesEngineWords ((String.ofList x).toList ++ (String.ofList y).toList) = false := by
  rwa [String.toList_ofList, String.toList_ofList]

theorem carries_ofList (carries : carriesEngineWords x = true) :
    carriesEngineWords (String.ofList x).toList = true := by rwa [String.toList_ofList]

theorem plain_of_numeral (print : T.print n = some token) (front : x.getLast? ≠ some '_')
    (back : y.head? ≠ some '_') (left : carriesEngineWords x = false)
    (right : carriesEngineWords y = false) :
    carriesEngineWords (x ++ (token.toList ++ y)) = false := by
  rw [Bool.eq_false_iff]
  intro carries
  obtain carries | carries := carries_of_numeral print front back carries
  · exact Bool.eq_false_iff.mp left carries
  · exact Bool.eq_false_iff.mp right carries

example : carriesEngineWords "4 further conditions".toList = false := by decide +kernel

theorem plain_unaccountedRecords {a b : String} (own : T.print n = some a)
    (other : T.print m = some b) : carriesEngineWords (unaccountedRecords a b).toList = false := by
  simp only [unaccountedRecords, String.toList_append, List.append_assoc]
  refine plain_of_numeral (x := []) own (by decide) (by simp) (by decide) ?_
  exact plain_of_numeral other (by decide) (by simp) (plain_ofList (plain_of_isPlainText (by decide +kernel)))
    (plain_ofList_append (plain_of_isPlainText (by decide +kernel)))

theorem plain_floorUndischarged {a b : String} (own : T.print n = some a)
    (other : T.print m = some b) : carriesEngineWords (floorUndischarged a b).toList = false := by
  simp only [floorUndischarged, String.toList_append, List.append_assoc]
  refine plain_of_numeral (x := []) own (by decide) (by simp) (by decide) ?_
  exact plain_of_numeral other (by decide) (by simp) (plain_ofList (plain_of_isPlainText (by decide +kernel)))
    (plain_ofList_append (plain_of_isPlainText (by decide +kernel)))

theorem plain_rankingChanged {a : String} (one : Bool) (own : T.print n = some a) :
    carriesEngineWords (rankingChanged one a).toList = false := by
  cases one with
  | true =>
    simp only [rankingChanged, if_true, String.toList_append]
    exact plain_ofList_append (plain_of_isPlainText (by decide +kernel))
  | false =>
    simp only [rankingChanged, Bool.false_eq_true, if_false, String.toList_append,
      List.append_assoc]
    exact plain_of_numeral (x := []) own (by decide) (by simp) (by decide)
      (plain_ofList_append (plain_of_isPlainText (by decide +kernel)))

/-- A sentence of the clause authority. -/
def IsComposed (one : Bool) (a b c : String) : Prop :=
  c = unaccountedRecords a b ∨ c = rankingChanged one a ∨ c = floorUndischarged a b

theorem IsComposed.plain {one : Bool} {a b c : String} (composed : IsComposed one a b c)
    (own : T.print n = some a) (other : T.print m = some b) :
    carriesEngineWords c.toList = false := by
  obtain rfl | rfl | rfl := composed
  · exact plain_unaccountedRecords own other
  · exact plain_rankingChanged one own
  · exact plain_floorUndischarged own other

theorem IsComposed.filled {one : Bool} {a b c : String} (composed : IsComposed one a b c) :
    c ≠ "" := by
  intro none'
  obtain rfl | rfl | rfl := composed
  · simp [unaccountedRecords] at none'
  · cases one <;> simp [rankingChanged] at none'
  · simp [floorUndischarged] at none'

/-- A defect is known by its sentence, and its name is the engine's. -/
theorem clauseAuthority_cases {defect a b : String} (one : Bool)
    (outside : defect ∉ (objectMembers "").map Prod.fst) :
    clauseAuthority defect one a b = none ∨ (carriesEngineWords defect.toList = true ∧
      ∃ c, clauseAuthority defect one a b = some (.ok c) ∧ IsComposed one a b c) := by
  have members : (objectMembers a).lookup defect = none := by
    rw [List.lookup_eq_none_iff]
    intro p mem
    have named : p.1 ∈ (objectMembers a).map Prod.fst := List.mem_map_of_mem mem
    exact bne_iff_ne.mpr fun same => outside (same ▸ named)
  unfold clauseAuthority
  simp only [List.lookup_cons, members]
  split
  · rename_i same
    obtain rfl := beq_iff_eq.mp same
    exact .inr ⟨carries_ofList (carries_of_token 8 (by decide +kernel)), _, rfl, .inl rfl⟩
  split
  · rename_i same
    obtain rfl := beq_iff_eq.mp same
    exact .inr ⟨carries_ofList (carries_of_token 5 (by decide +kernel)), _, rfl, .inl rfl⟩
  split
  · rename_i same
    obtain rfl := beq_iff_eq.mp same
    exact .inr ⟨carries_ofList (carries_of_token 6 (by decide +kernel)), _, rfl, .inr (.inl rfl)⟩
  split
  · rename_i same
    obtain rfl := beq_iff_eq.mp same
    exact .inr ⟨carries_ofList (carries_of_token 4 (by decide +kernel)), _, rfl, .inr (.inr rfl)⟩
  · exact .inl rfl

theorem guard_bind {p : Prop} [Decidable p] {β : Type} {f : Unit → Option β} {b : β} :
    ((guard p : Option Unit) >>= f) = some b ↔ p ∧ f () = some b := by
  by_cases holds : p <;> simp [guard, holds, failure]

theorem token_of_reasonPrefix (is : reasonPrefix l = some (token, n, m)) :
    ∃ rest, l = token.toList ++ ':' :: rest := by
  unfold reasonPrefix at is
  obtain ⟨-, is⟩ := guard_bind.mp is
  obtain ⟨colon, is⟩ := guard_bind.mp is
  obtain ⟨first, -, is⟩ := Option.bind_eq_some_iff.mp is
  obtain ⟨behind, -, is⟩ := Option.bind_eq_some_iff.mp is
  obtain ⟨-, is⟩ := guard_bind.mp is
  obtain ⟨behind', -, is⟩ := Option.bind_eq_some_iff.mp is
  obtain ⟨second, -, is⟩ := Option.bind_eq_some_iff.mp is
  obtain ⟨-, is⟩ := guard_bind.mp is
  obtain ⟨rfl, -⟩ := Prod.mk.inj (Option.some.inj is)
  obtain ⟨back, whole⟩ := List.takeWhile_prefix (p := Text.isWord) (l := l)
  generalize l.takeWhile Text.isWord = word at colon whole ⊢
  subst whole
  rw [List.drop_left] at colon
  obtain ⟨rest, rfl⟩ := List.head?_eq_some_iff.mp colon
  exact ⟨rest, by rw [String.toList_ofList]⟩

/-- What is composed of a reason is plain, and the reason has the engine's words in it. -/
theorem clauseFromReason_cases {reason : String}
    (outside : ∀ token n m, reasonPrefix reason.toList = some (token, n, m) →
      token ∉ (objectMembers "").map Prod.fst) :
    clauseFromReason T reason = .ok none ∨ (carriesEngineWords reason.toList = true ∧
      ∃ c, clauseFromReason T reason = .ok (some c) ∧ c ≠ "" ∧
        carriesEngineWords c.toList = false) := by
  rw [clauseFromReason]
  split
  · exact .inl rfl
  · rename_i token n m is
    rw [clauseForDefect]
    split
    · rename_i a b own other
      obtain missing | ⟨named, c, made, composed⟩ :=
        clauseAuthority_cases (a := a) (b := b) (decide (n = 1)) (outside token n m is)
      · rw [missing]
        exact .inl rfl
      · rw [made]
        obtain ⟨rest, whole⟩ := token_of_reasonPrefix is
        refine .inr ⟨?_, c, rfl, composed.filled, composed.plain own other⟩
        rw [whole]
        exact carries_append_left (openStart_cons.mpr (by decide)) named
    · exact .inl rfl

end

end Clearotron.Verdict
