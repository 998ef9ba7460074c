import Clearotron.Recall.Cases

/-!
# Every position ends

Where the join reports nothing unended, each position has an ending: a line of the findings
document that cites one of its records, a decision of placement about one, or, below the
top slice, a ruled crowd that counts at least the positions that are left.
-/

namespace Clearotron

variable {T : RecallText}

theorem rankLe_iff {a b : Candidate} :
    rankLe T a b = true ↔ basisRank b.basis < basisRank a.basis ∨
      basisRank b.basis = basisRank a.basis ∧ (statusRank T b.status < statusRank T a.status ∨
        statusRank T b.status = statusRank T a.status ∧ (b.year < a.year ∨
          b.year = a.year ∧
            T.localeLe (a.recordId.getD "null") (b.recordId.getD "null") = true)) := by
  unfold rankLe
  split
  · rename_i basis
    rw [decide_eq_true_eq]
    omega
  · split
    · rw [decide_eq_true_eq]
      omega
    · split
      · rw [decide_eq_true_eq]
        omega
      · constructor
        · intro before
          exact .inr ⟨by omega, .inr ⟨by omega, .inr ⟨by omega, before⟩⟩⟩
        · intro ranks
          obtain _ | ⟨_, _ | ⟨_, _ | ⟨_, before⟩⟩⟩ := ranks
          · omega
          · omega
          · omega
          · exact before

theorem rankLe_trans (a b c : Candidate) (ab : rankLe T a b = true) (bc : rankLe T b c = true) :
    rankLe T a c = true := by
  rw [rankLe_iff] at ab bc ⊢
  obtain _ | ⟨_, _ | ⟨_, _ | ⟨_, ab⟩⟩⟩ := ab
  · omega
  · omega
  · omega
  · obtain _ | ⟨_, _ | ⟨_, _ | ⟨_, bc⟩⟩⟩ := bc
    · omega
    · omega
    · omega
    · exact .inr ⟨by omega, .inr ⟨by omega, .inr ⟨by omega, T.localeLe_trans _ _ _ ab bc⟩⟩⟩

theorem rankLe_total (a b : Candidate) : (rankLe T a b || rankLe T b a) = true := by
  rw [Bool.or_eq_true, rankLe_iff, rankLe_iff]
  have ids := T.localeLe_total (a.recordId.getD "null") (b.recordId.getD "null")
  rw [Bool.or_eq_true] at ids
  obtain basis | basis | basis := Nat.lt_trichotomy (basisRank b.basis) (basisRank a.basis)
  · exact .inl (.inl basis)
  · obtain status | status | status :=
      Nat.lt_trichotomy (statusRank T b.status) (statusRank T a.status)
    · exact .inl (.inr ⟨basis, .inl status⟩)
    · obtain year | year | year := Nat.lt_trichotomy b.year a.year
      · exact .inl (.inr ⟨basis, .inr ⟨status, .inl year⟩⟩)
      · exact ids.imp (fun ab => .inr ⟨basis, .inr ⟨status, .inr ⟨year, ab⟩⟩⟩)
          fun ba => .inr ⟨basis.symm, .inr ⟨status.symm, .inr ⟨year.symm, ba⟩⟩⟩
      · exact .inr (.inr ⟨basis.symm, .inr ⟨status.symm, .inl year⟩⟩)
    · exact .inr (.inr ⟨basis.symm, .inl status⟩)
  · exact .inr (.inl basis)

/-- Candidates that do not tie are ranked the same in any order. -/
theorem rankCandidates_perm {candidates others : List Candidate} (perm : others.Perm candidates)
    (noTies : ∀ a ∈ candidates, ∀ b ∈ candidates, rankLe T a b = true → rankLe T b a = true →
      a = b) : rankCandidates T others = rankCandidates T candidates := by
  refine @List.Perm.eq_of_pairwise _ (fun a b => rankLe T a b = true) _ _ ?_
    (List.pairwise_mergeSort rankLe_trans rankLe_total _)
    (List.pairwise_mergeSort rankLe_trans rankLe_total _) ?_
  · intro a b mem mem' ab ba
    exact noTies a (perm.subset ((List.mergeSort_perm ..).subset mem)) b
      ((List.mergeSort_perm ..).subset mem') ab ba
  · exact ((List.mergeSort_perm ..).trans perm).trans (List.mergeSort_perm ..).symm

def Endings.part (e : Endings) (inNeg : Bool) : List String :=
  if inNeg then e.dropRows else e.carried

/-- A line of the document cites the record, inside its negative results or outside them. -/
def CitesIn (T : RecallText) (document : String) (inNeg : Bool) (key : String) : Prop :=
  ∃ before line after, document.toList.splitOn '\n' = before ++ line :: after ∧
    before.foldl inNegativesAfter false = inNeg ∧ headingOf line = none ∧
    ∃ uri ∈ urisOf 0 line, T.lower (String.ofList uri) = key

theorem mem_citedIn {line : List Char} {key : String} :
    key ∈ citedIn T line ↔
      headingOf line = none ∧ ∃ uri ∈ urisOf 0 line, T.lower (String.ofList uri) = key := by
  unfold citedIn
  cases headingOf line with
  | none => simp
  | some heading => simp

theorem endingsFrom_part (inNeg neg : Bool) (line : List Char) (lines : List (List Char)) :
    (endingsFrom T inNeg (line :: lines)).part neg =
      (if inNeg = neg then citedIn T line else []) ++
        (endingsFrom T (inNegativesAfter inNeg line) lines).part neg := by
  cases inNeg <;> cases neg <;> rfl

theorem mem_endingsFrom {inNeg neg : Bool} {lines : List (List Char)} {key : String} :
    key ∈ (endingsFrom T inNeg lines).part neg ↔
      ∃ before line after, lines = before ++ line :: after ∧
        before.foldl inNegativesAfter inNeg = neg ∧ key ∈ citedIn T line := by
  induction lines generalizing inNeg with
  | nil => cases neg <;> simp [endingsFrom, Endings.part]
  | cons v lines ih =>
      rw [endingsFrom_part, List.mem_append, ih]
      constructor
      · rintro (here | ⟨before, line, after, rfl, inside, cites⟩)
        · split at here
          · rename_i same
            exact ⟨[], v, lines, rfl, same, here⟩
          · cases here
        · exact ⟨v :: before, line, after, rfl, inside, cites⟩
      · rintro ⟨before, line, after, split, inside, cites⟩
        cases before with
        | nil =>
            obtain ⟨rfl, rfl⟩ := List.cons.inj split
            have same : inNeg = neg := inside
            exact .inl (by rwa [if_pos same])
        | cons u before =>
            obtain ⟨rfl, rfl⟩ := List.cons.inj split
            exact .inr ⟨before, line, after, rfl, inside, cites⟩

/-- The document is read for the lines that cite a record. -/
theorem mem_parseFindingsEndings {document : String} {inNeg : Bool} {key : String} :
    key ∈ (parseFindingsEndings T document).part inNeg ↔ CitesIn T document inNeg key := by
  unfold parseFindingsEndings CitesIn
  simp only [mem_endingsFrom, mem_citedIn]

theorem mem_addCandidate {rows : List (List Member)} {groups : List PositionGroup}
    {c d : Candidate} (stands : d = c ∨ ∃ g ∈ groups, d ∈ g.candidates) :
    ∃ g ∈ addCandidate T rows groups c, d ∈ g.candidates := by
  unfold addCandidate
  dsimp only
  split
  · rename_i known
    rw [List.any_eq_true] at known
    obtain rfl | ⟨g, mem, inside⟩ := stands
    · obtain ⟨g, mem, named⟩ := known
      refine ⟨_, List.mem_map_of_mem mem, ?_⟩
      rw [if_pos (of_decide_eq_true named)]
      exact List.mem_append_right _ List.mem_cons_self
    · refine ⟨_, List.mem_map_of_mem mem, ?_⟩
      split
      · exact List.mem_append_left _ inside
      · exact inside
  · obtain rfl | ⟨g, mem, inside⟩ := stands
    · exact ⟨_, List.mem_append_right _ List.mem_cons_self, List.mem_cons_self⟩
    · exact ⟨g, List.mem_append_left _ mem, inside⟩

/-- Every candidate stands in a position. -/
theorem mem_groupByPosition {ranked : List Candidate} {positions : List (List String)}
    {c : Candidate} (mem : c ∈ ranked) :
    ∃ g ∈ groupByPosition T ranked positions, c ∈ g.candidates := by
  have folded (rows : List (List Member)) (groups : List PositionGroup)
      (stands : c ∈ ranked ∨ ∃ g ∈ groups, c ∈ g.candidates) :
      ∃ g ∈ ranked.foldl (addCandidate T rows) groups, c ∈ g.candidates := by
    clear mem
    induction ranked generalizing groups with
    | nil => exact stands.resolve_left List.not_mem_nil
    | cons d ranked ih =>
        rw [List.foldl_cons]
        obtain mem | old := stands
        · obtain rfl | mem := List.mem_cons.mp mem
          · exact ih _ (.inr (mem_addCandidate (.inl rfl)))
          · exact ih _ (.inl mem)
        · exact ih _ (.inr (mem_addCandidate (.inr old)))
  exact folded _ [] (.inl mem)

namespace RecallInput

variable {x : RecallInput}

/-- What ends a position by itself names one of its members. -/
theorem named_of_endingOf {g : PositionGroup} {tier : Tier} (ended : x.endingOf g tier ≠ none) :
    ∃ m ∈ g.members, m.key ∈ x.endings.part true ∨ m.key ∈ x.endings.part false ∨
      m.key ∈ x.placement.byName ∨ tier = .residual ∧ m.key ∈ x.placement.byGroup := by
  by_contra nothing
  push Not at nothing
  have unnamed (keys : List String) (e : Ending) (absent : ∀ m ∈ g.members, m.key ∉ keys) :
      ((g.members.find? fun m => m.key ∈ keys).map fun m => (e, m.display)) = none := by
    rw [Option.map_eq_none_iff, List.find?_eq_none]
    intro m mem
    simpa using absent m mem
  apply ended
  unfold endingOf
  dsimp only
  rw [unnamed x.endings.dropRows _ fun m mem => (nothing m mem).1,
    unnamed x.endings.carried _ fun m mem => (nothing m mem).2.1,
    unnamed x.placement.byName _ fun m mem => (nothing m mem).2.2.1, Option.none_or, Option.none_or,
    Option.none_or]
  split
  · rename_i below
    exact unnamed _ _ fun m mem => (nothing m mem).2.2.2 below
  · rfl

theorem ending_ne_crowd (g : PositionGroup) (tier : Tier) :
    (x.row tier g).ending ≠ some .crowd := by
  intro crowd
  obtain ⟨⟨e, u⟩, found, rfl⟩ := Option.map_eq_some_iff.mp crowd
  unfold endingOf at found
  dsimp only at found
  simp only [Option.or_eq_some_iff, Option.map_eq_some_iff] at found
  obtain ⟨_, _, named⟩ | ⟨-, ⟨_, _, named⟩ | ⟨-, ⟨_, _, named⟩ | ⟨-, last⟩⟩⟩ := found
  · cases named
  · cases named
  · cases named
  · split at last
    · obtain ⟨_, _, named⟩ := Option.map_eq_some_iff.mp last
      cases named
    · cases last

variable (x)

/-- The input with the endings of a findings document. -/
def withFindings (T : RecallText) (document : String) : RecallInput :=
  { x with endings := parseFindingsEndings T document }

/-- The register positions that the candidates form, strongest first. -/
def positionsOf (T : RecallText) : List PositionGroup :=
  groupByPosition T (rankCandidates T x.candidates) x.positions

/-- A line of the document or a decision of placement ends the position by itself. -/
def EndedAlone (T : RecallText) (document : String) (tier : Tier) (g : PositionGroup) : Prop :=
  ∃ m ∈ g.members, CitesIn T document true m.key ∨ CitesIn T document false m.key ∨
    m.key ∈ x.placement.byName ∨ tier = .residual ∧ m.key ∈ x.placement.byGroup

/-- The same input up to the letter case of ids, with the same ranking. -/
structure SameLetters (T : RecallText) (y : RecallInput) : Prop where
  ranked : (rankCandidates T y.candidates).map Candidate.lowered =
    (rankCandidates T x.candidates).map Candidate.lowered
  positions : y.positions.map (·.map asciiLower) = x.positions.map (·.map asciiLower)
  crowdRulings : y.crowdRulings = x.crowdRulings
  topSlice : y.topSlice = x.topSlice
  placement : y.placement = x.placement

variable {x}

theorem endedAlone_of_endingOf {document : String} {g : PositionGroup} {tier : Tier}
    (ended : (x.withFindings T document).endingOf g tier ≠ none) :
    x.EndedAlone T document tier g := by
  obtain ⟨m, mem, named⟩ := named_of_endingOf ended
  refine ⟨m, mem, ?_⟩
  rw [← mem_parseFindingsEndings, ← mem_parseFindingsEndings]
  exact named

theorem row_ending {g : PositionGroup} {tier : Tier} :
    (x.row tier g).ending = none ↔ x.endingOf g tier = none := Option.map_eq_none_iff

section

variable {ranked : List Candidate}
  (complete : (x.joinRanked T ranked).unended = [])

include complete

theorem top_ended (g : PositionGroup)
    (mem : g ∈ (groupByPosition T ranked x.positions).take x.topSlice.toNat) :
    x.endingOf g .topSlice ≠ none := by
  intro open'
  have noTop := (List.append_eq_nil_iff.mp complete).1
  rw [List.map_eq_nil_iff, List.filter_eq_nil_iff] at noTop
  exact noTop _ (List.mem_map_of_mem mem) (decide_eq_true (row_ending.mpr open'))

theorem rest_ended :
    (x.joinRanked T ranked).covers = true ∨ (x.joinRanked T ranked).residual = 0 := by
  have noRest := (List.append_eq_nil_iff.mp complete).2
  cases covers : (x.joinRanked T ranked).covers with
  | true => exact .inl rfl
  | false =>
      right
      change (if (x.joinRanked T ranked).covers then [] else _) = [] at noRest
      rw [covers, if_neg Bool.false_ne_true, List.map_eq_nil_iff] at noRest
      exact List.length_eq_zero_iff.mpr noRest

theorem residual_le_declared : (x.joinRanked T ranked).residual ≤ x.declared := by
  obtain covers | none' := rest_ended complete
  · exact (of_decide_eq_true covers).2
  · rw [none']
    exact Nat.zero_le _

theorem residual_ended (g : PositionGroup)
    (mem : g ∈ (groupByPosition T ranked x.positions).drop x.topSlice.toNat) :
    x.endingOf g .residual ≠ none ∨ x.crowdRulings ≠ [] := by
  obtain covers | none' := rest_ended complete
  · exact .inr (of_decide_eq_true covers).1
  · left
    intro open'
    have noRow := List.filter_eq_nil_iff.mp (List.length_eq_zero_iff.mp none')
    exact noRow _ (List.mem_map_of_mem mem) (decide_eq_true (row_ending.mpr open'))

end

end RecallInput

/-- No candidate falls out: what the join ends, where it reports nothing unended, and what
its result does not depend on. -/
theorem no_candidate_falls_out (T : RecallText) (x : RecallInput) (document : String) :
    (∀ c ∈ x.candidates, ∃ g ∈ x.positionsOf T, c ∈ g.candidates) ∧
    ((reconcileRecall T (x.withFindings T document)).unended = [] →
      (∀ g ∈ (x.positionsOf T).take x.topSlice.toNat, x.EndedAlone T document .topSlice g) ∧
      (∀ g ∈ (x.positionsOf T).drop x.topSlice.toNat,
        x.EndedAlone T document .residual g ∨ x.crowdRulings ≠ []) ∧
      (reconcileRecall T (x.withFindings T document)).residual ≤
        (reconcileRecall T (x.withFindings T document)).declared) ∧
    (∀ r ∈ (reconcileRecall T (x.withFindings T document)).topSlice, r.ending ≠ some .crowd) ∧
    (∀ others, others.Perm x.candidates →
      (∀ a ∈ x.candidates, ∀ b ∈ x.candidates, rankLe T a b = true → rankLe T b a = true →
        a = b) →
      reconcileRecall T { x with candidates := others } = reconcileRecall T x) ∧
    (∀ y written, x.SameLetters T y → asciiLower written = asciiLower document →
      (reconcileRecall T (y.withFindings T written)).lowered =
        (reconcileRecall T (x.withFindings T document)).lowered) := by
  refine ⟨?_, ?_, ?_, ?_, ?_⟩
  · intro c mem
    exact mem_groupByPosition ((List.mergeSort_perm ..).symm.subset mem)
  · intro complete
    refine ⟨?_, ?_, RecallInput.residual_le_declared complete⟩
    · intro g mem
      exact RecallInput.endedAlone_of_endingOf (RecallInput.top_ended complete g mem)
    · intro g mem
      exact (RecallInput.residual_ended complete g mem).imp_left
        RecallInput.endedAlone_of_endingOf
  · intro r mem
    obtain ⟨g, -, rfl⟩ := List.mem_map.mp mem
    exact RecallInput.ending_ne_crowd g .topSlice
  · intro others perm noTies
    have ranked := rankCandidates_perm perm noTies
    unfold reconcileRecall
    dsimp only
    rw [ranked]
    rfl
  · intro y written same letters
    obtain ⟨ranked, positions, rulings, top, placed⟩ := same
    have read : parseFindingsEndings T written = parseFindingsEndings T document := by
      rw [← parseFindingsEndings_lower, letters, parseFindingsEndings_lower]
    have input : (y.withFindings T written).lowered =
        { (x.withFindings T document).lowered with candidates := y.candidates } := by
      unfold RecallInput.withFindings RecallInput.lowered
      dsimp only
      rw [read, positions, rulings, top, placed]
    unfold reconcileRecall
    rw [← RecallInput.joinRanked_lowered, ← RecallInput.joinRanked_lowered, input]
    show RecallInput.joinRanked _ T ((rankCandidates T y.candidates).map _) = _
    rw [ranked]
    rfl

/-- A runtime that is only asked about ASCII ids, the shorter of them first. -/
def asciiRecall : RecallText where
  lower := asciiLower
  lower_ascii := asciiLower_asciiLower
  ascii_lower := asciiLower_asciiLower
  localeLe a b := decide (a.length ≤ b.length)
  localeLe_trans _ _ _ ab bc :=
    decide_eq_true (Nat.le_trans (of_decide_eq_true ab) (of_decide_eq_true bc))
  localeLe_total a b := by
    rw [Bool.or_eq_true, decide_eq_true_eq, decide_eq_true_eq]
    exact Nat.le_total _ _

def twist (id mark : String) : Candidate where
  recordId := some id
  markText := some mark
  basis := .tokenIdentical

def twists (first second : Candidate) : RecallInput where
  candidates := [first, second]

theorem rankCandidates_pair {first second : Candidate}
    (ranked : rankLe asciiRecall first second = true) :
    rankCandidates asciiRecall [first, second] = [first, second] := by
  refine List.mergeSort_of_pairwise ?_
  rw [List.pairwise_pair]
  exact ranked

theorem reconcileRecall_twists {first second : Candidate}
    (ranked : rankLe asciiRecall first second = true) :
    reconcileRecall asciiRecall (twists first second) =
      (twists first second).joinRanked asciiRecall [first, second] := by
  have candidates : (twists first second).candidates = [first, second] := rfl
  unfold reconcileRecall
  rw [candidates, rankCandidates_pair ranked]

def wavoTwists : RecallInput := twists (twist "/mark/us/1" "WAVO") (twist "/mark/us/22" "WAVO TWIST")

/-- The same with an id in upper case. -/
def wavoRecased : RecallInput := twists (twist "/mark/us/1" "WAVO") (twist "/MARK/US/22" "WAVO TWIST")

def wavoFindings : String := "- /mark/us/22\n## Negative results\n- /mark/us/1"

example : rankLe asciiRecall (twist "/mark/us/1" "WAVO") (twist "/mark/us/22" "WAVO TWIST") := by
  decide +kernel

theorem wavoTwists_ranked :
    rankCandidates asciiRecall wavoTwists.candidates = wavoTwists.candidates :=
  rankCandidates_pair (by decide +kernel)

theorem wavoRecased_ranked :
    rankCandidates asciiRecall wavoRecased.candidates = wavoRecased.candidates :=
  rankCandidates_pair (by decide +kernel)

theorem wavoTwists_complete :
    (reconcileRecall asciiRecall (wavoTwists.withFindings asciiRecall wavoFindings)).unended =
      [] := by
  have joined : reconcileRecall asciiRecall (wavoTwists.withFindings asciiRecall wavoFindings) =
      (wavoTwists.withFindings asciiRecall wavoFindings).joinRanked asciiRecall
        wavoTwists.candidates := congrArg _ wavoTwists_ranked
  rw [joined]
  decide +kernel

theorem wavoTwists_noTies : ∀ a ∈ wavoTwists.candidates, ∀ b ∈ wavoTwists.candidates,
    rankLe asciiRecall a b = true → rankLe asciiRecall b a = true → a = b := by
  decide +kernel

theorem wavoRecased_sameLetters : wavoTwists.SameLetters asciiRecall wavoRecased where
  ranked := by
    rw [wavoTwists_ranked, wavoRecased_ranked]
    decide +kernel
  positions := rfl
  crowdRulings := rfl
  topSlice := rfl
  placement := rfl

theorem no_candidate_falls_out_twists :
    (reconcileRecall asciiRecall (wavoTwists.withFindings asciiRecall wavoFindings)).residual ≤
        (reconcileRecall asciiRecall (wavoTwists.withFindings asciiRecall wavoFindings)).declared ∧
      reconcileRecall asciiRecall { wavoTwists with candidates := wavoTwists.candidates.reverse } =
        reconcileRecall asciiRecall wavoTwists ∧
      (reconcileRecall asciiRecall (wavoRecased.withFindings asciiRecall wavoFindings)).lowered =
        (reconcileRecall asciiRecall (wavoTwists.withFindings asciiRecall wavoFindings)).lowered := by
  obtain ⟨-, ends, -, perm, recase⟩ :=
    no_candidate_falls_out asciiRecall wavoTwists wavoFindings
  exact ⟨(ends wavoTwists_complete).2.2,
    perm _ wavoTwists.candidates.reverse_perm wavoTwists_noTies,
    recase wavoRecased wavoFindings wavoRecased_sameLetters rfl⟩

def setAside : RecallInput where
  candidates := [twist "/mark/us/1" "WAVO"]
  placement := { byName := ["/mark/us/1"] }

/-- A position that placement set aside ends with an empty document; of two candidates that
tie, the one that comes first is shown; and an id is shown as it is written. -/
theorem endings_outside_the_findings :
    ((reconcileRecall asciiRecall (setAside.withFindings asciiRecall "")).unended = [] ∧
      ∀ inNeg, ¬ CitesIn asciiRecall "" inNeg "/mark/us/1") ∧
    reconcileRecall asciiRecall (twists (twist "/mark/us/1" "WAVO") (twist "/mark/us/1" "VAWO")) ≠
      reconcileRecall asciiRecall
        (twists (twist "/mark/us/1" "VAWO") (twist "/mark/us/1" "WAVO")) ∧
    reconcileRecall asciiRecall (twists (twist "/mark/us/1" "WAVO") (twist "/mark/us/ab" "WAVO")) ≠
      reconcileRecall asciiRecall
        (twists (twist "/mark/us/1" "WAVO") (twist "/mark/us/AB" "WAVO")) := by
  have alone : reconcileRecall asciiRecall (setAside.withFindings asciiRecall "") =
      (setAside.withFindings asciiRecall "").joinRanked asciiRecall
        [twist "/mark/us/1" "WAVO"] := congrArg _ (List.mergeSort_singleton _)
  refine ⟨⟨?_, ?_⟩, ?_, ?_⟩
  · rw [alone]
    decide +kernel
  · intro inNeg cites
    rw [← mem_parseFindingsEndings] at cites
    cases inNeg <;> exact absurd cites (by decide +kernel)
  · rw [reconcileRecall_twists (by decide +kernel), reconcileRecall_twists (by decide +kernel)]
    decide +kernel
  · rw [reconcileRecall_twists (by decide +kernel), reconcileRecall_twists (by decide +kernel)]
    decide +kernel

end Clearotron
