import Mathlib.Algebra.BigOperators.Group.List.Basic
import Mathlib.Algebra.GroupWithZero.Nat
import Clearotron.Register.Runs

/-!
# The ways an answer is enumerated

One inversion for each way of asking in pieces: what must have come back for the
whole to say `enumerated`, and what the whole then carries.
-/

namespace Clearotron

variable {P : Provider} {D : Deps} {part : Params → Bool → Account → Prop}
  {deeper : Params → String → Account → Prop} {q : Params} {e : Enumerated}

/-- The window a part answers: it was asked, and it enumerated. -/
def WindowOf (part : Params → Bool → Account → Prop) (q : Params) (w : Nat × List String)
    (acct : Account) : Prop :=
  part { q with names := some w.2 } true acct ∧ ∃ e, acct.answer = .enumerated e

/-- The figures of the parts, added as the kernel adds them. -/
def partTotals (parts : List Account) : Nat :=
  (parts.map fun p => p.answer.totalHits.getD 0).sum

/-- The records of the parts, merged as the kernel merges them. -/
def mergeParts (D : Deps) (merged : List Record) (parts : List Account) : List Record :=
  parts.foldl (fun acc p =>
    match p.answer with
    | .enumerated e => mergeBy D.recordKeyOf acc e.records
    | _ => acc) merged

/-- A slice in windows enumerates only where every window did. -/
theorem WindowsRun.enumerated {calls : List Event} {ceiling chunks : Nat}
    {windows : List (Nat × List String)} {st : WindowState} {acct : Account}
    (run : WindowsRun D part q calls ceiling chunks windows st acct)
    (answer : acct.answer = .enumerated e) :
    st.rescueNotes = [] ∧ ∃ parts, acct = .windows q calls (st.parts ++ parts) (.enumerated e) ∧
      List.Forall₂ (WindowOf part q) windows parts ∧
      e.totalHits = some (st.totalSum + partTotals parts) ∧
      e.records = mergeParts D st.merged parts := by
  induction run with
  | @done st =>
      change windowsAnswer chunks st = .enumerated e at answer
      rw [answer]
      unfold windowsAnswer at answer
      split at answer
      · next unrescued =>
          cases answer
          exact ⟨unrescued, [], by simp, .nil, by simp [partTotals], rfl⟩
      · cases answer
  | stop asked fold => cases fold <;> cases answer
  | @next index names rest st st' acct whole asked fold later ih =>
      obtain ⟨unrescued, parts, rfl, windows, totals, records⟩ := ih answer
      cases fold with
      | rescued => simp [WindowState.rescue] at unrescued
      | @kept e' enumerated under =>
          refine ⟨unrescued, acct :: parts, ?_, .cons ⟨asked, e', enumerated⟩ windows, ?_, ?_⟩
          · simp [WindowState.keep]
          · rw [totals]
            simp [WindowState.keep, partTotals, enumerated, Answer.totalHits, Nat.add_assoc]
          · rw [records]
            simp [WindowState.keep, mergeParts, enumerated]

/-- The half a part answers: as it stands, or halved in turn. -/
def HalfOf (part : Params → Bool → Account → Prop)
    (deeper : Params → String → Account → Prop) (q : Params) (asked again : List Account)
    (half : List String) (acct : Account) : Prop :=
  (acct ∈ asked ∧ part { q with regions := some half } false acct) ∨
    (acct ∈ again ∧ ∃ cause, deeper { q with regions := some half } cause acct)

theorem SettleRun.kept {cause : String} {half : List String} {acct : Account}
    {st st' : HalvesState} (run : SettleRun P D deeper q cause half acct st (.inr st')) :
    ∃ p e, p.answer = .enumerated e ∧
      ((p = acct ∧ st'.again = st.again) ∨
        (st'.again = st.again ++ [p] ∧ ∃ cause, deeper { q with regions := some half } cause p)) ∧
      st'.parts = st.parts ++ [p] ∧ st'.total = st.total + e.totalHits.getD 0 ∧
      st'.merged = mergeBy D.recordKeyOf st.merged e.records := by
  cases run with
  | @again p _ timedOut several onTime asked fold =>
      cases fold with
      | @kept e answer => exact ⟨p, e, answer, .inr ⟨rfl, _, asked⟩, rfl, rfl, rfl⟩
  | stands final fold =>
      cases fold with
      | @kept e answer => exact ⟨acct, e, answer, .inl ⟨rfl, rfl⟩, rfl, rfl, rfl⟩

/-- A split enumerates only where both halves did, and where their sum is not over
the ceiling. -/
theorem HalvesStep.enumerated {ceiling : Nat} {calls : List Event} {cause : String}
    {acct : Account} (run : HalvesStep P D part deeper ceiling q calls cause acct)
    (answer : acct.answer = .enumerated e) :
    1 < (q.regions.getD []).length ∧ ∃ asked again p p' e₁ e₂,
      acct = .halves q calls asked again [p, p'] (.enumerated e) ∧
      HalfOf part deeper q asked again (halfOf (q.regions.getD [])) p ∧
      HalfOf part deeper q asked again (otherHalf (q.regions.getD [])) p' ∧
      p.answer = .enumerated e₁ ∧ p'.answer = .enumerated e₂ ∧
      e.totalHits = some (e₁.totalHits.getD 0 + e₂.totalHits.getD 0) ∧
      e₁.totalHits.getD 0 + e₂.totalHits.getD 0 ≤ ceiling ∧
      e.records = mergeBy D.recordKeyOf (mergeBy D.recordKeyOf [] e₁.records) e₂.records := by
  cases run with
  | stalled => cases answer
  | @heard first second a st several left right timedOut both =>
      change a = .enumerated e at answer
      subst answer
      generalize outcome : (Answer.enumerated e, st) = r at both
      cases both with
      | first settle =>
          subst outcome
          cases settle with
          | again timedOut several onTime asked fold => cases fold
          | stands final fold => cases fold
      | second settle settle' =>
          subst outcome
          cases settle' with
          | again timedOut several onTime asked fold => cases fold
          | stands final fold => cases fold
      | @whole st₁ st₂ settle settle' =>
          obtain ⟨whole, rfl⟩ := Prod.mk.inj outcome
          obtain ⟨p, e₁, answer, from₁, parts, total, merged⟩ := settle.kept
          obtain ⟨p', e₂, answer', from₂, parts', total', merged'⟩ := settle'.kept
          unfold halvesAnswer at whole
          split at whole
          · cases whole
          · next under =>
              cases whole
              refine ⟨several, [first, second], st.again, p, p', e₁, e₂, ?_, ?_, ?_, answer,
                answer', ?_, ?_, ?_⟩
              · simp [parts', parts]
              · rcases from₁ with ⟨rfl, -⟩ | ⟨again, deep⟩
                · exact .inl ⟨by simp, left⟩
                · refine .inr ⟨?_, deep⟩
                  rcases from₂ with ⟨-, again'⟩ | ⟨again', -⟩ <;> simp [again', again]
              · rcases from₂ with ⟨rfl, -⟩ | ⟨again, deep⟩
                · exact .inl ⟨by simp, right⟩
                · exact .inr ⟨by simp [again], deep⟩
              · simp [total', total]
              · simp only [total', total] at under
                omega
              · simp [merged', merged]

/-- Every key of the probes has a count, and each count is that of a probe. -/
theorem mem_keys_countsOfProbes {κ : Type} [DecidableEq κ] {ceiling : Nat}
    {probes : List (κ × Probe)} {k : κ} :
    k ∈ (countsOfProbes ceiling probes).keys ↔ k ∈ probes.map Prod.fst := by
  simp [countsOfProbes]

theorem mem_countsOfProbes {κ : Type} [DecidableEq κ] {ceiling : Nat}
    {probes : List (κ × Probe)} {k : κ} {v : PartCount}
    (h : (k, v) ∈ (countsOfProbes ceiling probes).entries) :
    ∃ probe, (k, probe) ∈ probes ∧ v = legCount ceiling probe := by
  obtain mem | ⟨⟨k', probe⟩, mem, rfl, rfl⟩ := Keyed.mem_foldl_set h
  · simp at mem
  · exact ⟨probe, mem, rfl⟩

/-- A leg with a count over the ceiling, with a count to read, or with none at all is
left to the reading step. -/
theorem legCount_resolved {ceiling : Nat} {probe : Probe}
    (h : (legCount ceiling probe).isUnresolvedCount = false) :
    ∃ said, probe = .counted 0 said := by
  match probe with
  | .counted 0 said => exact ⟨said, rfl⟩
  | .counted (n + 1) said =>
      exfalso
      by_cases exceeds : ceiling < n + 1
      · simp [legCount, countedDisposition, exceeds, PartCount.isUnresolvedCount] at h
      · simp [legCount, countedDisposition, exceeds, PartCount.isUnresolvedCount] at h
  | .uncounted (some floor) _ => simp [legCount, PartCount.isUnresolvedCount] at h
  | .uncounted none _ => simp [legCount, PartCount.isUnresolvedCount] at h

/-- A stack enumerates only where each of its names was counted at zero. -/
theorem termsAnswer_enumerated {ceiling terms : Nat} {total floor : Option Nat}
    {probes : List (String × Probe)}
    (answer : termsAnswer ceiling total floor terms (countsOfProbes ceiling probes) =
      .enumerated e) :
    floor = none ∧ e.totalHits = total ∧ e.records = [] ∧
      ∀ t ∈ probes.map Prod.fst, ∃ said, (t, .counted 0 said) ∈ probes := by
  unfold termsAnswer at answer
  split at answer
  · next done =>
      cases answer
      refine ⟨done.2, rfl, rfl, fun t mem => ?_⟩
      have key : t ∈ (countsOfProbes ceiling probes).keys := mem_keys_countsOfProbes.mpr mem
      obtain ⟨v, entry⟩ := Keyed.exists_mem_of_mem_keys key
      obtain ⟨probe, probed, rfl⟩ := mem_countsOfProbes entry
      obtain ⟨said, rfl⟩ := legCount_resolved (Counts.unresolved_eq_zero.mp done.1 _ entry)
      exact ⟨said, probed⟩
  · cases answer

/-- A class settled keeps its count while other legs are read. -/
theorem LegsRun.keeps {ceiling : Nat} {legs : List TractableLeg} {st st' : ClassState}
    (run : LegsRun D part q ceiling legs st st') {c : Nat} {v : PartCount}
    (other : c ∉ legs.map TractableLeg.class_) (entry : (c, v) ∈ st.counts.entries) :
    (c, v) ∈ st'.counts.entries := by
  induction run with
  | done => exact entry
  | @skip leg legs st st' exceeds rest ih =>
      simp only [List.map_cons, List.mem_cons, not_or] at other
      exact ih other.2 (Keyed.mem_set.mpr (.inr ⟨other.1, entry⟩))
  | @read leg legs st st' acct under asked rest ih =>
      simp only [List.map_cons, List.mem_cons, not_or] at other
      refine ih other.2 ?_
      unfold foldLeg
      split <;> exact Keyed.mem_set.mpr (.inr ⟨other.1, entry⟩)

/-- Where nothing is left to the reading step, every leg was read and enumerated. -/
theorem LegsRun.enumerated {ceiling : Nat} {legs : List TractableLeg} {st st' : ClassState}
    (run : LegsRun D part q ceiling legs st st')
    (distinct : (legs.map TractableLeg.class_).Nodup) (done : st'.counts.unresolved = 0) :
    ∃ accts, st'.legs = st.legs ++ accts ∧
      List.Forall₂ (fun leg acct => part (q.ofClass leg.class_) true acct ∧
        ∃ e, acct.answer = .enumerated e) legs accts := by
  have resolved := Counts.unresolved_eq_zero.mp done
  induction run with
  | done => exact ⟨[], by simp, .nil⟩
  | @skip leg legs st st' exceeds rest ih =>
      simp only [List.map_cons, List.nodup_cons] at distinct
      have entry := rest.keeps distinct.1 Keyed.mem_set_self
      simpa [PartCount.isUnresolvedCount] using resolved _ entry
  | @read leg legs st st' acct under asked rest ih =>
      simp only [List.map_cons, List.nodup_cons] at distinct
      obtain ⟨accts, parts, legs⟩ := ih distinct.2 done resolved
      have enumerated : ∃ e, acct.answer = .enumerated e := by
        cases answer : acct.answer with
        | enumerated e => exact ⟨e, rfl⟩
        | missingElement text =>
            have entry := rest.keeps distinct.1 (c := leg.class_)
              (v := { totalHits := some leg.n, disposition := .error, totalCounts := leg.said })
              (by simp only [foldLeg, answer]; exact Keyed.mem_set_self)
            simpa [PartCount.isUnresolvedCount] using resolved _ entry
        | incomplete i =>
            have entry := rest.keeps distinct.1 (c := leg.class_)
              (by simp only [foldLeg, answer]; exact Keyed.mem_set_self)
            have := resolved _ entry
            simp only [PartCount.isUnresolvedCount] at this
            split at this <;> simp at this
      exact ⟨acct :: accts, by rw [parts, foldLeg_legs]; simp, .cons ⟨asked, enumerated⟩ legs⟩

theorem tractableLeg_some {ceiling : Nat} {cp : Nat × Probe} {leg : TractableLeg}
    (h : tractableLeg ceiling cp = some leg) : leg.class_ = cp.1 := by
  unfold tractableLeg at h
  split at h
  · split at h <;> cases h
    rfl
  · cases h

theorem tractable_sublist (ceiling : Nat) (probes : List (Nat × Probe)) :
    ((probes.filterMap (tractableLeg ceiling)).map TractableLeg.class_).Sublist
      (probes.map Prod.fst) := by
  induction probes with
  | nil => exact .slnil
  | cons cp probes ih =>
      rw [List.filterMap_cons, List.map_cons]
      split
      · exact ih.cons _
      · next leg h =>
          rw [List.map_cons, tractableLeg_some h]
          exact ih.cons_cons _

theorem tractableLegs_perm (ceiling : Nat) (probes : List (Nat × Probe)) :
    (tractableLegs ceiling probes).Perm (probes.filterMap (tractableLeg ceiling)) :=
  List.perm_insertionSort _ _

theorem Params.splitClasses_nodup (q : Params) : q.splitClasses.Nodup := by
  unfold Params.splitClasses
  split
  · exact List.nodup_reverse.mpr (List.nodup_dedup _)
  · exact List.nodup_nil

theorem tractableLegs_distinct {ceiling : Nat} {probes : List (Nat × Probe)}
    (distinct : (probes.map Prod.fst).Nodup) :
    ((tractableLegs ceiling probes).map TractableLeg.class_).Nodup :=
  ((tractableLegs_perm ceiling probes).map TractableLeg.class_).nodup_iff.mpr
    (distinct.sublist (tractable_sublist ceiling probes))

/-- A probe is a leg to read exactly where its count is between one and the ceiling. -/
theorem tractableLeg_isSome {ceiling : Nat} {cp : Nat × Probe} :
    (tractableLeg ceiling cp).isSome = true ↔
      (legCount ceiling cp.2).disposition = .unenumerated := by
  obtain ⟨c, probe⟩ := cp
  match probe with
  | .counted n said =>
      simp only [tractableLeg, legCount]
      split <;> simp_all
  | .uncounted (some floor) _ => simp [tractableLeg, legCount]
  | .uncounted none _ => simp [tractableLeg, legCount]

/-- A leg that is not to be read is settled by its count. -/
theorem mem_settledClasses {ceiling : Nat} {probes : List (Nat × Probe)} {c : Nat}
    {probe : Probe} (distinct : (probes.map Prod.fst).Nodup) (mem : (c, probe) ∈ probes)
    (settled : tractableLeg ceiling (c, probe) = none) :
    (c, legCount ceiling probe) ∈ (settledClasses ceiling probes).entries := by
  have kept : (c, probe) ∈ probes.filter
      fun cp => (legCount ceiling cp.2).disposition ≠ .unenumerated := by
    refine List.mem_filter.mpr ⟨mem, ?_⟩
    have unread : ¬ (tractableLeg ceiling (c, probe)).isSome = true := by simp [settled]
    rw [tractableLeg_isSome] at unread
    simpa using unread
  have distinct' : ((probes.filter
      fun cp => (legCount ceiling cp.2).disposition ≠ .unenumerated).map Prod.fst).Nodup :=
    distinct.sublist (List.filter_sublist.map _)
  exact Keyed.mem_foldl_set_of_nodup distinct' kept

/-- An owner's question enumerates class by class only where every class was counted at
zero or was read and enumerated. -/
theorem classesAnswer_enumerated {ceiling : Nat} {total floor : Option Nat}
    {probes : List (Nat × Probe)} {st : ClassState} {classes : Nat}
    (distinct : (probes.map Prod.fst).Nodup)
    (run : LegsRun D part q ceiling (tractableLegs ceiling probes)
      { counts := settledClasses ceiling probes } st)
    (answer : classesAnswer ceiling total floor classes st = .enumerated e) :
    floor = none ∧ e.totalHits = total ∧
      List.Forall₂ (fun leg acct => part (q.ofClass leg.class_) true acct ∧
        ∃ e, acct.answer = .enumerated e) (tractableLegs ceiling probes) st.legs ∧
      ∀ cp ∈ probes, (∃ said, cp.2 = .counted 0 said) ∨
        (tractableLeg ceiling cp).isSome = true := by
  unfold classesAnswer at answer
  split at answer
  · next done =>
      cases answer
      obtain ⟨accts, legs, read⟩ := run.enumerated (tractableLegs_distinct distinct) done.1
      refine ⟨done.2, rfl, by rw [legs]; simpa using read, ?_⟩
      rintro ⟨c, probe⟩ mem
      cases tractable : tractableLeg ceiling (c, probe) with
      | some leg => exact .inr rfl
      | none =>
          left
          have entry := mem_settledClasses distinct mem tractable
          have unread : c ∉ (tractableLegs ceiling probes).map TractableLeg.class_ := by
            intro h
            obtain ⟨leg, legMem, rfl⟩ := List.mem_map.mp h
            have := (tractableLegs_perm ceiling probes).mem_iff.mp legMem
            obtain ⟨cp, cpMem, isLeg⟩ := List.mem_filterMap.mp this
            have same : cp = (leg.class_, probe) :=
              List.inj_on_of_nodup_map distinct cpMem mem (tractableLeg_some isLeg).symm
            rw [same, tractable] at isLeg
            cases isLeg
          have last := run.keeps unread entry
          exact legCount_resolved (Counts.unresolved_eq_zero.mp done.1 _ last)
  · cases answer

end Clearotron
