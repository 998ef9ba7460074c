import Clearotron.Library.Each
import Clearotron.Verdict.Stated

/-!
# What becomes of each reason

The two lists ask the same of every reason, and the answers leave one end for it.
-/

namespace Clearotron.Verdict

open EngineWords

variable {T : ConditionText} {s : Sidecar} {i : ℕ} {r : Option String}
  {clause : Option (Option String)} {c : String}

/-- What stands of a clause and a reason that end so. -/
def Fits (clause : Option (Option String)) (r : Option String) : Fate → Prop
  | .rendered c => clause ≠ some none ∧ (clauseText clause ≠ "" ∨ text r ≠ "") ∧ c ≠ "" ∧
      carriesEngineWords c.toList = false
  | .recordOnly => clause = some none
  | .blank => clause ≠ some none ∧ clauseText clause = "" ∧ text r = ""
  | .withheld => clause ≠ some none ∧ (clauseText clause ≠ "" ∨ text r ≠ "")

theorem clauseText_eq : text (clause.bind id) = clauseText clause := rfl

/-- The stored clause is looked at as it stands, or trimmed: its words are the same. -/
theorem carries_clause :
    carriesEngineWords ((clause.bind id).getD "").toList =
      carriesEngineWords (clauseText clause).toList := (carries_trim _).symm

theorem renderOne_of_shown (shown : IsShown clause) :
    renderOne T clause r = .ok (clauseText clause) := by
  have read : clause ≠ some none := by
    rintro rfl
    exact shown.1 (by decide)
  rw [renderOne, if_neg read, clauseText_eq, if_pos shown.1, shown.2]
  rfl

theorem fate_of (outside : clauseText clause = "" → ∀ token n m,
    reasonPrefix (text r).toList = some (token, n, m) → token ∉ (objectMembers "").map Prod.fst) :
    ∃ fate, renderOne T clause r = .ok (Fate.condition fate) ∧
      listOne T clause r = .ok fate.isWithheld ∧ Fits clause r fate := by
  by_cases record : clause = some none
  · exact ⟨.recordOnly, by rw [renderOne, if_pos record]; rfl, by rw [listOne, if_pos record]; rfl,
      record⟩
  rw [renderOne, if_neg record, listOne, if_neg record, clauseText_eq, carries_clause]
  by_cases stored : clauseText clause = ""
  · rw [if_neg (not_not.mpr stored), if_neg (not_not.mpr stored)]
    by_cases empty : text r = ""
    · rw [if_pos empty, if_pos empty]
      exact ⟨.blank, rfl, rfl, record, stored, empty⟩
    · rw [if_neg empty, if_neg empty]
      obtain none' | ⟨carries, c, made, filled, plain⟩ :=
        clauseFromReason_cases (T := T) (outside stored)
      · rw [none']
        cases carries : carriesEngineWords (text r).toList with
        | true => exact ⟨.withheld, rfl, rfl, record, .inr empty⟩
        | false => exact ⟨.rendered (text r), rfl, rfl, record, .inr empty, empty, carries⟩
      · rw [made]
        refine ⟨.rendered c, rfl, ?_, record, .inr empty, filled, plain⟩
        show Except.ok (!decide (c ≠ "") && carriesEngineWords (text r).toList) = Except.ok false
        rw [decide_eq_true filled]
        rfl
  · rw [if_pos stored, if_pos stored]
    cases carries : carriesEngineWords (clauseText clause).toList with
    | true => exact ⟨.withheld, rfl, rfl, record, .inl stored⟩
    | false => exact ⟨.rendered (clauseText clause), rfl, rfl, record, .inl stored, stored, carries⟩

theorem NoMembers.fate_at (outside : NoMembers s) (there : s.reasons[i]? = some r) :
    ∃ fate, renderOne T (s.clauseAt i) r = .ok (Fate.condition fate) ∧
      listOne T (s.clauseAt i) r = .ok fate.isWithheld ∧ Fits (s.clauseAt i) r fate :=
  fate_of fun stored token n m is => outside i r token n m there stored is

theorem hasFate_of_fits {fate : Fate}
    (condition : renderOne T (s.clauseAt i) r = .ok (Fate.condition fate))
    (listed : listOne T (s.clauseAt i) r = .ok fate.isWithheld)
    (fits : Fits (s.clauseAt i) r fate) : HasFate T s i r fate := by
  cases fate with
  | rendered c => exact ⟨fits.2.2.1, condition⟩
  | recordOnly => exact fits
  | blank => exact fits
  | withheld => exact listed

/-- A reason ends in one way. -/
theorem fate_unique {fate fate' : Fate}
    (condition : renderOne T (s.clauseAt i) r = .ok (Fate.condition fate))
    (listed : listOne T (s.clauseAt i) r = .ok fate.isWithheld)
    (fits : Fits (s.clauseAt i) r fate) (other : HasFate T s i r fate') : fate' = fate := by
  cases fate' with
  | rendered c =>
    obtain ⟨filled, made⟩ := other
    have same : c = fate.condition := Except.ok.inj (made.symm.trans condition)
    cases fate with
    | rendered c' => exact congrArg Fate.rendered same
    | recordOnly => exact absurd same filled
    | blank => exact absurd same filled
    | withheld => exact absurd same filled
  | recordOnly =>
    have record : s.clauseAt i = some none := other
    cases fate with
    | rendered c => exact absurd record fits.1
    | recordOnly => rfl
    | blank => exact absurd record fits.1
    | withheld => exact absurd record fits.1
  | blank =>
    obtain ⟨record, stored, empty⟩ := other
    cases fate with
    | rendered c => exact absurd fits.2.1 (not_or.mpr ⟨not_not.mpr stored, not_not.mpr empty⟩)
    | recordOnly => exact absurd fits record
    | blank => rfl
    | withheld => exact absurd fits.2 (not_or.mpr ⟨not_not.mpr stored, not_not.mpr empty⟩)
  | withheld =>
    have same : fate.isWithheld = true := Except.ok.inj (listed.symm.trans other)
    cases fate with
    | withheld => rfl
    | _ => cases same

theorem NoMembers.existsUnique_fate (outside : NoMembers s) (there : s.reasons[i]? = some r) :
    ∃! fate, HasFate T s i r fate := by
  obtain ⟨fate, condition, listed, fits⟩ := outside.fate_at (T := T) there
  exact ⟨fate, hasFate_of_fits condition listed fits, fun _ other =>
    fate_unique condition listed fits other⟩

theorem NoMembers.fates (outside : NoMembers s) :
    ∃ fate : Option String × ℕ → Fate, ∀ x ∈ s.reasons.zipIdx,
      renderOne T (s.clauseAt x.2) x.1 = .ok (fate x).condition ∧
        listOne T (s.clauseAt x.2) x.1 = .ok (fate x).isWithheld ∧
          Fits (s.clauseAt x.2) x.1 (fate x) := by
  have each : ∀ x : Option String × ℕ, ∃ fate : Fate, x ∈ s.reasons.zipIdx →
      renderOne T (s.clauseAt x.2) x.1 = .ok fate.condition ∧
        listOne T (s.clauseAt x.2) x.1 = .ok fate.isWithheld ∧
          Fits (s.clauseAt x.2) x.1 fate := by
    intro x
    by_cases mem : x ∈ s.reasons.zipIdx
    · obtain ⟨fate, own⟩ := outside.fate_at (T := T) (List.mem_zipIdx_iff_getElem?.mp mem)
      exact ⟨fate, fun _ => own⟩
    · exact ⟨.blank, fun mem' => absurd mem' mem⟩
  choose fate own using each
  exact ⟨fate, own⟩

section

variable {fate : Option String × ℕ → Fate}
  (own : ∀ x ∈ s.reasons.zipIdx, renderOne T (s.clauseAt x.2) x.1 = .ok (fate x).condition ∧
    listOne T (s.clauseAt x.2) x.1 = .ok (fate x).isWithheld ∧ Fits (s.clauseAt x.2) x.1 (fate x))

include own

theorem clientConditions_eq : clientConditions T s =
    .ok (((s.reasons.zipIdx.map fate).map Fate.condition).filter (· ≠ "")) := by
  rw [clientConditions, mapM_ok fun x mem => (own x mem).1, List.map_map]
  rfl

theorem unrenderableConditions_eq : unrenderableConditions T s =
    .ok (((s.reasons.zip (s.reasons.zipIdx.map fate)).filter fun x => x.2.isWithheld).map
      fun x => Text.trim (x.1.getD "null")) := by
  have each : ∀ x ∈ s.reasons.zipIdx, (do
      let listed ← listOne T (s.clauseAt x.2) x.1
      .ok (if listed then some (Text.trim (x.1.getD "null")) else none) : Except String _) =
      .ok (if (fate x).isWithheld then some (Text.trim (x.1.getD "null")) else none) := by
    intro x mem
    rw [(own x mem).2.1]
    rfl
  rw [unrenderableConditions, mapM_ok each]
  refine congrArg Except.ok ?_
  have pairs : s.reasons.zip (s.reasons.zipIdx.map fate) =
      s.reasons.zipIdx.map fun x => (x.1, fate x) := by
    have whole : s.reasons = s.reasons.zipIdx.map Prod.fst := (List.zipIdx_map_fst 0 s.reasons).symm
    calc s.reasons.zip (s.reasons.zipIdx.map fate)
        = (s.reasons.zipIdx.map Prod.fst).zip (s.reasons.zipIdx.map fate) := by rw [← whole]
      _ = s.reasons.zipIdx.map fun x => (x.1, fate x) := List.zip_map' ..
  rw [pairs, List.filter_map, List.map_map, List.filterMap_map]
  induction s.reasons.zipIdx with
  | nil => rfl
  | cons x l ih =>
    cases is : (fate x).isWithheld with
    | true => simpa [is] using ih
    | false => simpa [is] using ih

theorem words_of_fates : ∀ c ∈ ((s.reasons.zipIdx.map fate).map Fate.condition).filter (· ≠ ""),
    carriesEngineWords c.toList = false := by
  intro c mem
  obtain ⟨mem', filled⟩ := List.mem_filter.mp mem
  rw [List.map_map] at mem'
  obtain ⟨x, inside, rfl⟩ := List.mem_map.mp mem'
  have fits := (own x inside).2.2
  rw [Function.comp_apply] at filled ⊢
  cases is : fate x with
  | rendered c =>
    rw [is] at fits
    exact fits.2.2.2
  | _ => simp [is, Fate.condition] at filled

end

end Clearotron.Verdict
