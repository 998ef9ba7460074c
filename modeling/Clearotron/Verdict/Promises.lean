import Clearotron.Verdict.Fates
import Clearotron.Verdict.StatementWords

/-!
# The statement and the list say the same

The list is read reason by reason, the statement from the clauses that are stated and the reasons
that are: the two agree where the first of those clauses is a reason's own, and where what is
counted once is rendered once.
-/

namespace Clearotron.Verdict

open EngineWords

variable {T : ConditionText} {s : Sidecar} {i n : ℕ} {r : Option String}
  {clause : Option (Option String)} {c t : String} {first : List Char} {registerOnly : Bool}
  {tier : Option String}

instance : Decidable (IsShown clause) := inferInstanceAs (Decidable (_ ∧ _))

theorem isHeld_of_stored (stored : clauseText clause ≠ "") :
    isHeld clause = carriesEngineWords (clauseText clause).toList := by
  rcases clause with _ | _ | raw
  · exact absurd rfl stored
  · exact absurd rfl stored
  · exact (carries_trim raw).symm

theorem isShown_iff : IsShown clause ↔ clauseText clause ≠ "" ∧ isHeld clause = false :=
  and_congr_right fun stored => by rw [isHeld_of_stored stored]

theorem statedClauses_eq : statedClauses s =
    (s.clauses.filter fun c => decide (IsShown (some c))).map text := by
  rw [statedClauses, List.filter_map, List.filter_filter]
  refine congrArg (List.map text) (List.filter_congr fun c _ => ?_)
  have same : clauseText (some c) = text c := rfl
  simp [isShown_iff, same]

def isStated (s : Sidecar) (x : Option String × ℕ) : Bool :=
  decide (text x.1 ≠ "") && !isHeld (s.clauseAt x.2)

theorem statedReasons_eq : statedReasons s =
    (s.reasons.zipIdx.filter (isStated s)).map fun x => text x.1 := by
  rw [statedReasons, List.filter_map, List.filter_filter]
  rfl

theorem isStated_iff {x : Option String × ℕ} (mem : x ∈ s.reasons.zipIdx) :
    isStated s x = true ↔ IsStated s x.2 x.1 := by
  rw [isStated, IsStated, Bool.and_eq_true, decide_eq_true_eq, Bool.not_eq_true']
  exact ⟨fun own => ⟨List.mem_zipIdx_iff_getElem?.mp mem, own.2, own.1⟩,
    fun own => ⟨own.2.2, own.2.1⟩⟩

theorem first_shown (is : (statedClauses s).head? = some c) :
    ∃ i cl, s.clauseAt i = some cl ∧ IsShown (some cl) ∧ text cl = c ∧
      ∀ j < i, ¬ IsShown (s.clauseAt j) := by
  rw [statedClauses_eq, List.head?_map, List.head?_filter, Option.map_eq_some_iff] at is
  obtain ⟨cl, found, rfl⟩ := is
  obtain ⟨own, i, inside, rfl, before⟩ := List.find?_eq_some_iff_getElem.mp found
  refine ⟨i, _, List.getElem?_eq_getElem inside, by simpa using own, rfl, fun j lt => ?_⟩
  have earlier := before j lt
  rw [Sidecar.clauseAt, List.getElem?_eq_getElem (lt.trans inside)]
  simpa using earlier

theorem none_shown (none' : (statedClauses s).head? = none) : ¬ ∃ i, IsShown (s.clauseAt i) := by
  rintro ⟨i, shown⟩
  rw [List.head?_eq_none_iff, statedClauses_eq, List.map_eq_nil_iff,
    List.filter_eq_nil_iff] at none'
  cases is : s.clauseAt i with
  | none =>
    rw [is] at shown
    exact shown.1 rfl
  | some cl =>
    rw [is] at shown
    exact none' cl (List.mem_of_getElem? is) (by simpa using shown)

theorem first_stated (is : (statedReasons s).head? = some c) :
    ∃ i r, IsStated s i r ∧ text r = c ∧ ∀ j < i, ∀ r', ¬ IsStated s j r' := by
  rw [statedReasons_eq, List.head?_map, List.head?_filter, Option.map_eq_some_iff] at is
  obtain ⟨x, found, rfl⟩ := is
  obtain ⟨own, i, inside, same, before⟩ := List.find?_eq_some_iff_getElem.mp found
  have mem : x ∈ s.reasons.zipIdx := same ▸ List.getElem_mem inside
  have index : x.2 = i := by
    rw [← same]
    simp
  refine ⟨x.2, x.1, (isStated_iff mem).mp own, rfl, fun j lt r' stated => ?_⟩
  rw [index] at lt
  have earlier := before j lt
  have inside' := lt.trans inside
  have there : (s.reasons.zipIdx)[j] = (r', j) := by
    have here := stated.1
    rw [List.length_zipIdx] at inside'
    rw [List.getElem?_eq_getElem inside'] at here
    simp [Option.some.inj here]
  rw [there, Bool.not_eq_true', ← Bool.not_eq_true] at earlier
  exact earlier ((isStated_iff (there ▸ List.getElem_mem inside')).mpr stated)

theorem rendered_cases (made : renderOne T clause r = .ok c) (filled : c ≠ "") :
    IsShown clause ∨ (isHeld clause = false ∧ text r ≠ "") := by
  rw [renderOne] at made
  split at made
  · exact absurd (Except.ok.inj made).symm filled
  rename_i read
  split at made
  · rename_i stored
    split at made
    · exact absurd (Except.ok.inj made).symm filled
    · rename_i plain
      exact .inl ⟨stored, Bool.eq_false_iff.mpr plain⟩
  · rename_i stored
    split at made
    · exact absurd (Except.ok.inj made).symm filled
    · rename_i given
      refine .inr ⟨?_, given⟩
      rcases clause with _ | _ | raw
      · rfl
      · exact absurd rfl read
      · have blank : text (some raw) = "" := not_not.mp stored
        have same : carriesEngineWords raw.toList = false := by
          rw [← carries_trim]
          rw [show Text.trim raw = "" from blank]
          rfl
        exact same

/-- A plain reason without a clause is rendered as it stands. -/
theorem renderOne_of_plain (outside : ∀ token n m,
      reasonPrefix (text r).toList = some (token, n, m) → token ∉ (objectMembers "").map Prod.fst)
    (read : clause ≠ some none) (stored : clauseText clause = "") (given : text r ≠ "")
    (plain : carriesEngineWords (text r).toList = false) : renderOne T clause r = .ok (text r) := by
  rw [renderOne, if_neg read, clauseText_eq, if_neg (not_not.mpr stored), if_neg given]
  obtain none' | ⟨carries, -⟩ := clauseFromReason_cases (T := T) outside
  · rw [none', plain]
    rfl
  · rw [plain] at carries
    cases carries

theorem moreText_eq (some' : n ≠ 0) : moreText n = countText (toString n).toList := by
  rw [moreText, if_neg some', countText_parts, List.append_assoc]

theorem firstCount_lead (band : firstCount t.toList = none)
    (lead : firstCount (' ' :: first) = none) :
    firstCount (t.toList ++ " — conditional on: ".toList ++ first) = none := by
  have is : t.toList ++ " — conditional on: ".toList ++ first =
      (t.toList ++ " — conditional on:".toList) ++ ' ' :: first := by simp
  rw [is]
  refine firstCount_append (.inr (.inl ⟨':', by simp, by decide, ?_⟩)) ?_ lead
  · unfold innerLetter
    decide
  · refine firstCount_append (.inr (.inr (.inr ⟨'—', _, rfl, ?_⟩))) band
      (firstCount_of_no_bracket (by decide))
    unfold innerLetter
    decide

def tailOf (first : List Char) (registerOnly : Bool) : List Char :=
  (if first.getLast? = some '…' then [] else ['.']) ++ (basisNote registerOnly).toList

theorem conditionalOn_toList (more : List Char) : (conditionalOn t first more registerOnly).toList =
    (t.toList ++ " — conditional on: ".toList ++ first) ++ (more ++ tailOf first registerOnly) := by
  simp [conditionalOn, tailOf]

theorem tailOf_apart (first : List Char) (registerOnly : Bool) (x : List Char) : Apart x (tailOf first registerOnly) ∧
    '(' ∉ tailOf first registerOnly := by
  rw [tailOf]
  split
  · cases registerOnly with
    | false => exact ⟨.inl rfl, by decide⟩
    | true =>
      refine ⟨.inr (.inr (.inr ⟨'R', _, rfl, ?_⟩)), by decide⟩
      unfold innerLetter
      decide
  · refine ⟨.inr (.inr (.inl ⟨'.', _, rfl, by decide, ?_⟩)), by cases registerOnly <;> decide⟩
    unfold innerLetter
    decide

/-- The count that is found in a composed statement is its own. -/
theorem firstCount_conditionalOn (band : firstCount t.toList = none)
    (lead : firstCount (' ' :: first) = none) (n : ℕ) :
    firstCount (conditionalOn t first (moreText n) registerOnly).toList =
      if n = 0 then none
      else some (t.toList ++ " — conditional on: ".toList ++ first, n,
        tailOf first registerOnly) := by
  have front := firstCount_lead band lead
  rw [conditionalOn_toList]
  split
  · rename_i alone
    rw [alone]
    obtain ⟨apart, bracket⟩ := tailOf_apart first registerOnly
      (t.toList ++ " — conditional on: ".toList ++ first)
    exact firstCount_append apart front (firstCount_of_no_bracket bracket)
  · rename_i some'
    rw [moreText_eq some']
    have apart : Apart (t.toList ++ " — conditional on: ".toList ++ first)
        (countText (toString n).toList ++ tailOf first registerOnly) := by
      refine .inr (.inr (.inr ⟨'(', _, rfl, ?_⟩))
      unfold innerLetter
      decide
    rw [firstCount_append_count (isNumeral_toString n) apart front, valueOf_toString]

/-- The statement that a client reads has the count of the conditions. -/
theorem clientStatement_conditionalOn {conditions : List String}
    (listed : clientConditions T s = .ok conditions) (filled : conditions ≠ [])
    (band : firstCount t.toList = none) (lead : firstCount (' ' :: first) = none)
    (alone : n = 0 → conditions.length ≤ 1) :
    clientStatement T (conditionalOn t first (moreText n) registerOnly) s =
      .ok (conditionalOn t first (moreText (conditions.length - 1)) registerOnly) := by
  rw [clientStatement, firstCount_conditionalOn band lead]
  by_cases single : n = 0
  · rw [if_pos single, single, Nat.sub_eq_zero_of_le (alone single)]
  · rw [if_neg single]
    show (clientConditions T s >>= _) = _
    rw [listed]
    show (if conditions = [] ∨ conditions.length - 1 = n then _ else _) = _
    split
    · rename_i same
      rw [same.resolve_left filled]
    · refine congrArg Except.ok (String.toList_inj.mp ?_)
      rw [String.toList_ofList, conditionalOn_toList]
      simp

end Clearotron.Verdict
