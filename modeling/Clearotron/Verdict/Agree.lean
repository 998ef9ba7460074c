import Clearotron.Verdict.Promises

/-!
# Where the statement and the list agree

The statement opens with a condition of the list, and one that counts no other stands for one alone.
-/

namespace Clearotron.Verdict

open EngineWords

variable {T : ConditionText} {s : Sidecar} {i : ℕ} {r : Option String} {c : String}
  {registerOnly : Bool} {tier : Option String} {fate : Option String × ℕ → Fate}

/-- The conditions that are rendered, of the reasons' ends. -/
def listOf (s : Sidecar) (fate : Option String × ℕ → Fate) : List String :=
  ((s.reasons.zipIdx.map fate).map Fate.condition).filter (· ≠ "")

theorem listOf_eq : listOf s fate =
    (s.reasons.zipIdx.filter fun x => (fate x).condition ≠ "").map fun x => (fate x).condition := by
  rw [listOf, List.map_map, List.filter_map]
  rfl

/-- What holds of the clauses that the indices of a list have holds of as many clauses. -/
theorem countP_indexed (p : Option (Option String) → Bool) (none' : p none = false)
    (l : List (Option String)) (clauses : List (Option String)) (k : ℕ) :
    (l.zipIdx k).countP (fun x => p clauses[x.2]?) ≤
      (clauses.drop k).countP fun c => p (some c) := by
  induction l generalizing k with
  | nil => simp
  | cons r l ih =>
    rw [List.zipIdx_cons, List.countP_cons]
    have later := ih (k + 1)
    by_cases inside : k < clauses.length
    · rw [List.drop_eq_getElem_cons inside, List.countP_cons, List.getElem?_eq_getElem inside]
      exact Nat.add_le_add_right later _
    · have outside : clauses[k]? = none := List.getElem?_eq_none (not_lt.mp inside)
      rw [outside, none', List.drop_eq_nil_of_le (not_lt.mp inside)]
      rw [List.drop_eq_nil_of_le (by omega)] at later
      simpa using later

/-- The statement counts one condition where it counts no other. -/
def statedCount (s : Sidecar) : ℕ :=
  if statedReasons s = [] then (statedClauses s).length else (statedReasons s).length

theorem riskStatement_conditional {verdict : String} (moved : T.upper verdict = "CONDITIONAL")
    (band : text tier ≠ "") : riskStatement T tier (some verdict) registerOnly s =
      match leadText s with
      | none => some (bandAlone (text tier) registerOnly)
      | some c => some (conditionalOn (text tier) (lede T c) (moreText (statedCount s - 1))
          registerOnly) := by
  have filled : ¬ (T.upper ((some verdict).getD "") = "" ∨ text tier = "") := by
    rw [Option.getD_some, moved]
    exact not_or.mpr ⟨by decide, band⟩
  simp only [riskStatement]
  rw [if_neg filled, Option.getD_some, moved, if_neg (by decide), if_pos rfl]
  rfl

theorem lead_plain (fit : StatementFits T s tier) (is : leadText s = some c) :
    carriesEngineWords c.toList = false := by
  rw [leadText] at is
  cases first : (statedClauses s).head? with
  | some c' =>
    rw [first] at is
    obtain rfl : c' = c := Option.some.inj is
    obtain ⟨i, cl, -, shown, rfl, -⟩ := first_shown first
    exact shown.2
  | none =>
    rw [first] at is
    obtain ⟨i, r, stated, rfl, before⟩ := first_stated is
    exact fit.plain_reason (none_shown first) i r stated before

section

variable (own : ∀ x ∈ s.reasons.zipIdx,
  renderOne T (s.clauseAt x.2) x.1 = .ok (fate x).condition ∧
    listOne T (s.clauseAt x.2) x.1 = .ok (fate x).isWithheld ∧ Fits (s.clauseAt x.2) x.1 (fate x))

include own

theorem mem_listOf (there : s.reasons[i]? = some r) (made : renderOne T (s.clauseAt i) r = .ok c)
    (filled : c ≠ "") : c ∈ listOf s fate := by
  have mem : (r, i) ∈ s.reasons.zipIdx := List.mem_zipIdx_iff_getElem?.mpr there
  have same : (fate (r, i)).condition = c := Except.ok.inj ((own _ mem).1.symm.trans made)
  rw [listOf_eq]
  exact List.mem_map.mpr ⟨(r, i), List.mem_filter.mpr ⟨mem, by simpa [same] using filled⟩, same⟩

/-- The statement opens with a condition of the list. -/
theorem lead_mem (members : NoMembers s) (fit : StatementFits T s tier)
    (is : leadText s = some c) : c ∈ listOf s fate := by
  have plain := lead_plain fit is
  rw [leadText] at is
  cases first : (statedClauses s).head? with
  | some c' =>
    rw [first] at is
    obtain rfl : c' = c := Option.some.inj is
    obtain ⟨i, cl, stored, shown, rfl, before⟩ := first_shown first
    obtain ⟨k, inside, other⟩ := fit.own_clause ⟨i, stored ▸ shown⟩
    have le : i ≤ k := not_lt.mp fun lt => before k lt other
    have there := List.getElem?_eq_getElem (le.trans_lt inside)
    refine mem_listOf own there ?_ shown.1
    rw [renderOne_of_shown (stored ▸ shown), stored]
    rfl
  | none =>
    rw [first] at is
    obtain ⟨i, r, ⟨there, free, given⟩, rfl, -⟩ := first_stated is
    have none' := none_shown first
    have stored : clauseText (s.clauseAt i) = "" := by
      by_contra stored
      exact none' ⟨i, isShown_iff.mpr ⟨stored, free⟩⟩
    have read : s.clauseAt i ≠ some none := fun record => by
      rw [record] at free
      cases free
    exact mem_listOf own there (renderOne_of_plain
      (fun token n m is => members i r token n m there stored is) read stored given plain) given

/-- What is rendered is shown, or stated. -/
theorem shown_or_stated {x : Option String × ℕ} (mem : x ∈ s.reasons.zipIdx)
    (filled : (fate x).condition ≠ "") : IsShown (s.clauseAt x.2) ∨ isStated s x = true := by
  refine (rendered_cases (own x mem).1 filled).imp_right fun stated => ?_
  exact (isStated_iff mem).mpr ⟨List.mem_zipIdx_iff_getElem?.mp mem, stated⟩

theorem listOf_nil (none' : leadText s = none) : listOf s fate = [] := by
  rw [leadText, Option.orElse_eq_orElse, Option.orElse_eq_or, Option.or_eq_none_iff] at none'
  rw [listOf_eq, List.map_eq_nil_iff, List.filter_eq_nil_iff]
  intro x mem filled
  obtain shown | stated := shown_or_stated own mem (by simpa using filled)
  · exact none_shown none'.1 ⟨x.2, shown⟩
  · have empty := List.head?_eq_none_iff.mp none'.2
    rw [statedReasons_eq, List.map_eq_nil_iff, List.filter_eq_nil_iff] at empty
    exact empty x mem stated

/-- One stated reason, or one clause where no reason is stated, is one condition. -/
theorem listOf_length (fit : StatementFits T s tier) (alone : statedCount s ≤ 1) :
    (listOf s fate).length ≤ 1 := by
  rw [listOf_eq, List.length_map, ← List.countP_eq_length_filter]
  rw [statedCount] at alone
  split at alone
  · rename_i empty
    have shown : ∀ x ∈ s.reasons.zipIdx, decide ((fate x).condition ≠ "") = true →
        decide (IsShown (s.clauses[x.2]?)) = true := by
      intro x mem filled
      rw [statedReasons_eq, List.map_eq_nil_iff, List.filter_eq_nil_iff] at empty
      exact decide_eq_true
        ((shown_or_stated own mem (of_decide_eq_true filled)).resolve_right (empty x mem))
    calc s.reasons.zipIdx.countP (fun x => (fate x).condition ≠ "")
        ≤ s.reasons.zipIdx.countP (fun x => decide (IsShown (s.clauses[x.2]?))) :=
          List.countP_mono_left shown
      _ ≤ (s.clauses.drop 0).countP (fun c => decide (IsShown (some c))) :=
          countP_indexed (fun clause => decide (IsShown clause)) (by decide) s.reasons s.clauses 0
      _ = (statedClauses s).length := by
        rw [List.drop_zero, statedClauses_eq, List.length_map, List.countP_eq_length_filter]
      _ ≤ 1 := alone
  · rename_i some'
    have stated : ∀ x ∈ s.reasons.zipIdx, decide ((fate x).condition ≠ "") = true →
        isStated s x = true := by
      intro x mem filled
      rw [statedReasons_eq, List.length_map] at alone
      rw [statedReasons_eq, List.map_eq_nil_iff] at some'
      obtain shown | stated := shown_or_stated own mem (of_decide_eq_true filled)
      · by_contra unstated
        obtain ⟨x₀, only⟩ := List.length_eq_one_iff.mp
          (le_antisymm alone (List.length_pos_iff.mpr some'))
        have mem₀ : x₀ ∈ s.reasons.zipIdx.filter (isStated s) := only ▸ List.mem_singleton_self _
        obtain ⟨inside, own₀⟩ := List.mem_filter.mp mem₀
        have single : ∀ j r', IsStated s j r' → j = x₀.2 := by
          intro j r' other
          have mem' : (r', j) ∈ s.reasons.zipIdx := List.mem_zipIdx_iff_getElem?.mpr other.1
          have kept : (r', j) ∈ s.reasons.zipIdx.filter (isStated s) :=
            List.mem_filter.mpr ⟨mem', (isStated_iff mem').mpr other⟩
          rw [only, List.mem_singleton] at kept
          rw [← kept]
        have blank : text x.1 = "" := by
          by_contra given
          exact unstated ((isStated_iff mem).mpr ⟨List.mem_zipIdx_iff_getElem?.mp mem,
            (isShown_iff.mp shown).2, given⟩)
        exact fit.counted x₀.2 x₀.1 ((isStated_iff inside).mp own₀) single x.2 x.1
          (List.mem_zipIdx_iff_getElem?.mp mem) blank shown
      · exact stated
    calc s.reasons.zipIdx.countP (fun x => (fate x).condition ≠ "")
        ≤ s.reasons.zipIdx.countP (isStated s) := List.countP_mono_left stated
      _ = (statedReasons s).length := by
        rw [statedReasons_eq, List.length_map, List.countP_eq_length_filter]
      _ ≤ 1 := alone

end

/-- Where the statement has conditions to state. -/
theorem states_of_fit (members : NoMembers s) (fit : StatementFits T s tier)
    (own : ∀ x ∈ s.reasons.zipIdx, renderOne T (s.clauseAt x.2) x.1 = .ok (fate x).condition ∧
      listOne T (s.clauseAt x.2) x.1 = .ok (fate x).isWithheld ∧ Fits (s.clauseAt x.2) x.1 (fate x))
    {verdict : String} (moved : T.upper verdict = "CONDITIONAL") (band : text tier ≠ "") :
    ∃ statement read, riskStatement T tier (some verdict) registerOnly s = some statement ∧
      clientStatement T statement s = .ok read ∧
        StatesConditions T (text tier) registerOnly (listOf s fate) read := by
  have listed : clientConditions T s = .ok (listOf s fate) := clientConditions_eq own
  rw [riskStatement_conditional moved band]
  cases is : leadText s with
  | none =>
    have empty := listOf_nil own is
    refine ⟨_, _, rfl, ?_, .inl ⟨empty, rfl⟩⟩
    rw [clientStatement]
    split
    · rfl
    · rw [listed, empty]
      rfl
  | some c =>
    have mem := lead_mem own members fit is
    refine ⟨_, _, rfl, clientStatement_conditionalOn listed (List.ne_nil_of_mem mem) fit.tier_count
      (fit.lead_count c is) fun alone => listOf_length own fit (Nat.sub_eq_zero_iff_le.mp alone),
      .inr ⟨c, mem, rfl⟩⟩

theorem plain_after_band {t : String} {rest : List Char}
    (band : carriesEngineWords t.toList = false) (plain : carriesEngineWords rest = false) :
    carriesEngineWords (t ++ String.ofList (' ' :: '—' :: rest)).toList = false := by
  have is : (t ++ String.ofList (' ' :: '—' :: rest)).toList =
      (t.toList ++ [' ']) ++ '—' :: rest := by
    rw [String.toList_append, String.toList_ofList, List.append_assoc]
    rfl
  rw [is]
  exact plain_of_mark (by decide) (plain_concat_blank band) plain

theorem plain_riskStatement (fit : ConditionsFit T s tier) (verdict : Option String)
    (statement : String) (is : riskStatement T tier verdict registerOnly s = some statement) :
    carriesEngineWords statement.toList = false := by
  simp only [riskStatement] at is
  split at is
  · cases is
  rename_i filled
  replace fit := fit.stated (not_or.mp filled).2
  split at is
  · exact Option.some.inj is ▸ plain_bandAlone fit.tier_words registerOnly
  split at is
  · split at is
    · exact Option.some.inj is ▸ plain_bandAlone fit.tier_words registerOnly
    · rename_i c lead
      have own : leadText s = some c := lead
      refine Option.some.inj is ▸ plain_conditionalOn fit.tier_words ?_ _ registerOnly
      exact plain_lede (fit.lead_capital c own) (fit.lead_cut c own) (lead_plain fit own)
  split at is
  · exact Option.some.inj is ▸ plain_after_band fit.tier_words (plain_of_isPlainText (by decide +kernel))
  · exact Option.some.inj is ▸ plain_after_band fit.tier_words (plain_of_isPlainText (by decide +kernel))

theorem promises_of_fit (fit : ConditionsFit T s tier) :
    ConditionsPromises T s tier registerOnly := by
  obtain ⟨fate, own⟩ := fit.members.fates (T := T)
  have listed : clientConditions T s = .ok (listOf s fate) := clientConditions_eq own
  refine
    { fates := fun i r there => fit.members.existsUnique_fate there
      lists := ⟨s.reasons.zipIdx.map fate, by simp, ?_, listed, unrenderableConditions_eq own⟩
      words := ?_
      statement_words := plain_riskStatement fit
      statement := ?_ }
  · intro i r end' there here
    rw [List.getElem?_map, Option.map_eq_some_iff] at here
    obtain ⟨x, at', rfl⟩ := here
    have same : x = (r, i) := by
      have whole := List.getElem?_zipIdx (l := s.reasons) (i := 0) (j := i)
      rw [at', there] at whole
      simpa using whole
    subst same
    obtain ⟨condition, listed, fits⟩ := own _ (List.mem_of_getElem? at')
    exact hasFate_of_fits condition listed fits
  · intro conditions is c mem
    obtain rfl : listOf s fate = conditions := Except.ok.inj (listed.symm.trans is)
    exact words_of_fates own c mem
  · intro verdict moved band
    obtain ⟨statement, read, composed, made, states⟩ :=
      states_of_fit fit.members (fit.stated band) own moved band
    exact ⟨statement, listOf s fate, read, composed, listed, made, states⟩

/-- The letters of ASCII alone. -/
def asciiText : ConditionText where
  print n := some (toString n)
  upper s := String.ofList (s.toList.map Char.toUpper)
  isSmall c := c.isLower
  capital c := String.singleton c.toUpper
  print_digits n s is := by
    obtain rfl := Option.some.inj is
    exact ⟨_, [], (List.append_nil _).symm, (isNumeral_toString n).1,
      fun c mem => .inl ((isNumeral_toString n).2 c mem), .inl rfl⟩
  capital_filled c none' := by simp at none'
  capital_ascii c small ascii := by
    refine ⟨_, rfl, ?_⟩
    have each : ∀ n < 128, (Char.ofNat n).toUpper.toLower = (Char.ofNat n).toLower := by decide
    have own := each c.toNat ascii
    rwa [Char.ofNat_toNat] at own

/-- Two reasons, and the clause of the first. -/
def clausedSidecar : Sidecar where
  reasons := [some "floor_duty_undischarged:4 of 430 floor row(s) open", some "Agree a use limit"]
  clauses := [some "four records are not addressed"]

theorem clausedSidecar_fits : ConditionsFit asciiText clausedSidecar (some "High") := by
  have lead : ∀ c, leadText clausedSidecar = some c → c = "four records are not addressed" :=
    fun c is => by
      have own : some "four records are not addressed" = leadText clausedSidecar := by decide +kernel
      exact (Option.some.inj (own.trans is)).symm
  have shown : IsShown (clausedSidecar.clauseAt 0) := by decide +kernel
  refine ⟨?_, fun _ =>
    { own_clause := fun _ => ⟨0, by decide, shown⟩
      plain_reason := fun none' => absurd ⟨0, shown⟩ none'
      counted := ?_
      tier_words := by decide +kernel
      tier_count := by decide +kernel
      lead_count := fun c is => by
        rw [lead c is]
        decide +kernel
      lead_cut := fun c is => by
        rw [lead c is]
        exact .inl (by decide +kernel)
      lead_capital := fun c is d rest front _ => by
        rw [lead c is] at front
        have small : "four records are not addressed".toList.drop
            ("four records are not addressed".toList.takeWhile isOpener).length =
              'f' :: "our records are not addressed".toList := by decide +kernel
        obtain ⟨rfl, -⟩ := List.cons.inj (small.symm.trans front)
        exact .inl (by decide) }⟩
  · rintro (_ | _ | i) r token n m there stored is
    · exact absurd stored shown.1
    · obtain rfl := Option.some.inj there
      have none' : reasonPrefix (text (some "Agree a use limit")).toList = none := by
        decide +kernel
      rw [none'] at is
      cases is
    · cases there
  · rintro i r - - (_ | _ | j) r' there blank
    · obtain rfl := Option.some.inj there
      exact absurd blank (by decide +kernel)
    · obtain rfl := Option.some.inj there
      exact absurd blank (by decide +kernel)
    · cases there

end Clearotron.Verdict
