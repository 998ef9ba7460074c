import Clearotron.Recall.Join

/-!
# Letter case in the recall join

The join matches records by keys without letter case. What it computes from ids written in
another case is what it computed before, up to the case of the ids it prints.
-/

namespace Clearotron

theorem isUpper_iff {c : Char} : c.isUpper = true ↔ 65 ≤ c.toNat ∧ c.toNat ≤ 90 := by
  unfold Char.isUpper
  rw [decide_eq_true_eq, ge_iff_le, UInt32.le_iff_toNat_le,
    UInt32.le_iff_toNat_le]
  rfl

theorem toNat_toLower {c : Char} (upper : c.isUpper = true) : c.toLower.toNat = c.toNat + 32 := by
  have range := isUpper_iff.mp upper
  have small : c.val.toNat ≤ 90 := range.2
  unfold Char.isUpper at upper
  rw [decide_eq_true_eq] at upper
  unfold Char.toLower
  rw [dif_pos upper]
  have sum : (c.val + ('a'.val - 'A'.val)).toNat = (c.val.toNat + 32) % 2 ^ 32 :=
    UInt32.toNat_add _ _
  have fits : (c.val.toNat + 32) % 2 ^ 32 = c.val.toNat + 32 := by omega
  exact sum.trans fits

theorem toLower_of_not_upper {c : Char} (lower : ¬ c.isUpper = true) : c.toLower = c := by
  unfold Char.isUpper at lower
  rw [decide_eq_true_eq] at lower
  unfold Char.toLower
  exact dif_neg lower

@[simp]
theorem toLower_toLower (c : Char) : c.toLower.toLower = c.toLower := by
  by_cases upper : c.isUpper = true
  · refine toLower_of_not_upper fun again => ?_
    have moved := toNat_toLower upper
    have range := isUpper_iff.mp upper
    have next := isUpper_iff.mp again
    omega
  · rw [toLower_of_not_upper upper, toLower_of_not_upper upper]

theorem toLower_comp : Char.toLower ∘ Char.toLower = Char.toLower := funext toLower_toLower

/-- What is asked of no letter does not tell a letter's case. -/
theorem toLower_of_plain {p : Char → Bool}
    (plain : ∀ c, p c = true → c.toNat < 65 ∨ 122 < c.toNat) (c : Char) :
    p c.toLower = p c := by
  by_cases upper : c.isUpper = true
  · have range := isUpper_iff.mp upper
    have moved := toNat_toLower upper
    have notBefore : p c ≠ true := fun holds => by
      have := plain c holds
      omega
    have notAfter : p c.toLower ≠ true := fun holds => by
      have := plain _ holds
      omega
    rw [Bool.eq_false_iff.mpr notBefore, Bool.eq_false_iff.mpr notAfter]
  · rw [toLower_of_not_upper upper]

theorem isSpace_plain (c : Char) (space : Text.isSpace c = true) :
    c.toNat < 65 ∨ 122 < c.toNat := by
  simp only [Text.isSpace, List.mem_cons, List.not_mem_nil, or_false, Bool.or_eq_true,
    Bool.and_eq_true, decide_eq_true_eq] at space
  omega

theorem isSpace_toLower : Text.isSpace ∘ Char.toLower = Text.isSpace :=
  funext (toLower_of_plain isSpace_plain)

theorem isLetterOf_toLower : isLetterOf ∘ Char.toLower = isLetterOf := by
  funext c
  simp only [isLetterOf, Function.comp_apply, toLower_toLower]

theorem isIdChar_toLower : isIdChar ∘ Char.toLower = isIdChar := by
  funext c
  simp only [isIdChar, isLetterOf, Function.comp_apply, toLower_toLower]

theorem asciiLower_asciiLower (s : String) : asciiLower (asciiLower s) = asciiLower s := by
  simp [asciiLower, toLower_comp]

section

variable {first : Char → Bool} (firstLower : first ∘ Char.toLower = first)

include firstLower

theorem uriAt_lower (s : List Char) : uriAt first (s.map Char.toLower) = uriAt first s := by
  have slash (t : List Char) : (t.map Char.toLower).head? = some '/' ↔ t.head? = some '/' := by
    cases t with
    | nil => rfl
    | cons c t =>
        have plain := @toLower_of_plain (fun c => c = '/') (fun c isSlash => by
          rw [of_decide_eq_true isSlash]
          decide) c
        simpa using plain
  have begins (t : List Char) : (t.map Char.toLower).head?.any first = t.head?.any first := by
    cases t with
    | nil => rfl
    | cons c t => exact congrFun firstLower c
  have mark (t : List Char) : (t.map Char.toLower).map Char.toLower = t.map Char.toLower := by
    rw [List.map_map, toLower_comp]
  unfold uriAt
  dsimp only
  simp only [← List.map_take, ← List.map_drop, List.takeWhile_map, isLetterOf_toLower,
    isIdChar_toLower, List.length_map, slash, begins, mark]

theorem firstUri_lower (s : List Char) :
    firstUri first (s.map Char.toLower) = (firstUri first s).map (·.map Char.toLower) := by
  induction s with
  | nil => rfl
  | cons c s ih =>
      have here := uriAt_lower firstLower (c :: s)
      rw [List.map_cons] at here ⊢
      rw [firstUri, firstUri, here]
      cases uriAt first (c :: s) with
      | none => exact ih
      | some n =>
          rw [← List.map_cons]
          exact congrArg some List.map_take.symm

end

theorem urisOf_lower (n : ℕ) (s : List Char) :
    urisOf n (s.map Char.toLower) = (urisOf n s).map (·.map Char.toLower) := by
  induction s generalizing n with
  | nil => cases n <;> rfl
  | cons c s ih =>
      cases n with
      | succ n => exact ih n
      | zero =>
          have here := @uriAt_lower (fun _ => true) rfl (c :: s)
          rw [List.map_cons] at here ⊢
          rw [urisOf, urisOf, here]
          cases uriAt (fun _ => true) (c :: s) with
          | none => exact ih 0
          | some m =>
              dsimp only
              rw [ih, List.map_cons, ← List.map_cons, List.map_take]

theorem trim_asciiLower (s : String) :
    (Text.trim (asciiLower s)).toList = (Text.trim s).toList.map Char.toLower := by
  simp [Text.trim, asciiLower, List.dropWhile_map, isSpace_toLower, ← List.map_reverse]

theorem normalizeRecordUri_lower (u : String) :
    normalizeRecordUri (asciiLower u) = normalizeRecordUri u := by
  unfold normalizeRecordUri
  rw [trim_asciiLower, firstUri_lower (by funext c; simp), Option.map_map]
  simp [Function.comp_def]

theorem canon_lower (T : RecallText) (u : String) : canon T (asciiLower u) = canon T u := by
  unfold canon
  rw [normalizeRecordUri_lower]
  cases normalizeRecordUri u with
  | none => exact T.lower_ascii u
  | some m => rfl

theorem lines_lower (s : List Char) :
    (s.map Char.toLower).splitOn '\n' = (s.splitOn '\n').map (·.map Char.toLower) := by
  have ends (c : Char) : (c.toLower == '\n') = (c == '\n') :=
    @toLower_of_plain (· == '\n') (fun c isEnd => by
      rw [eq_of_beq isEnd]
      decide) c
  unfold List.splitOn
  induction s with
  | nil => rfl
  | cons c s ih =>
      rw [List.map_cons, List.splitOnP_cons_eq_if_modifyHead, List.splitOnP_cons_eq_if_modifyHead,
        ih, ends]
      split
      · rfl
      · cases s.splitOnP (· == '\n') <;> rfl

theorem headingOf_lower (line : List Char) :
    headingOf (line.map Char.toLower) = (headingOf line).map asciiLower := by
  have sign : (fun c : Char => decide (c = '#')) ∘ Char.toLower = fun c => decide (c = '#') :=
    funext <| @toLower_of_plain (fun c => decide (c = '#')) fun c isSign => by
      rw [of_decide_eq_true isSign]
      decide
  have goesOn : (fun c : Char => decide (c.toNat ∉ [10, 13, 8232, 8233])) ∘ Char.toLower =
      fun c => decide (c.toNat ∉ [10, 13, 8232, 8233]) := by
    funext c
    have ends := @toLower_of_plain (fun c => decide (c.toNat ∈ [10, 13, 8232, 8233]))
      (fun c isEnd => by
        simp only [List.mem_cons, List.not_mem_nil, or_false, decide_eq_true_eq] at isEnd
        omega) c
    simpa using congrArg not ends
  have begins (t : List Char) :
      (t.map Char.toLower).head?.any Text.isSpace = t.head?.any Text.isSpace := by
    cases t with
    | nil => rfl
    | cons c t => exact congrFun isSpace_toLower c
  unfold headingOf
  dsimp only
  rw [List.takeWhile_map, sign, List.length_map, ← List.map_drop, begins, List.dropWhile_map,
    isSpace_toLower, List.takeWhile_map, goesOn]
  split
  · simp [asciiLower]
  · rfl

theorem inNegativesAfter_lower (inNeg : Bool) (line : List Char) :
    inNegativesAfter inNeg (line.map Char.toLower) = inNegativesAfter inNeg line := by
  unfold inNegativesAfter
  rw [headingOf_lower]
  cases headingOf line with
  | none => rfl
  | some heading =>
      have letters : (asciiLower heading).toList.map Char.toLower =
          heading.toList.map Char.toLower := by simp [asciiLower, toLower_comp]
      show Text.includesFold (asciiLower heading) _ = Text.includesFold heading _
      unfold Text.includesFold
      rw [letters]

theorem citedIn_lower (T : RecallText) (line : List Char) :
    citedIn T (line.map Char.toLower) = citedIn T line := by
  unfold citedIn
  rw [headingOf_lower, Option.isSome_map, urisOf_lower, List.map_map]
  have letters (uri : List Char) :
      T.lower (String.ofList (uri.map Char.toLower)) = T.lower (String.ofList uri) := by
    have same := T.lower_ascii (String.ofList uri)
    unfold asciiLower at same
    rwa [String.toList_ofList] at same
  split
  · rfl
  · exact List.map_congr_left fun uri _ => letters uri

theorem endingsFrom_lower (T : RecallText) (inNeg : Bool) (lines : List (List Char)) :
    endingsFrom T inNeg (lines.map (·.map Char.toLower)) = endingsFrom T inNeg lines := by
  induction lines generalizing inNeg with
  | nil => rfl
  | cons line lines ih =>
      rw [List.map_cons]
      unfold endingsFrom
      rw [inNegativesAfter_lower, citedIn_lower, ih]

/-- The endings of a document do not depend on its letter case. -/
theorem parseFindingsEndings_lower (T : RecallText) (document : String) :
    parseFindingsEndings T (asciiLower document) = parseFindingsEndings T document := by
  unfold parseFindingsEndings
  have text : (asciiLower document).toList = document.toList.map Char.toLower := by
    simp [asciiLower]
  rw [text, lines_lower, endingsFrom_lower]

def Candidate.lowered (c : Candidate) : Candidate :=
  { c with recordId := c.recordId.map asciiLower }

def Member.lowered (m : Member) : Member := { m with display := asciiLower m.display }

def PositionGroup.lowered (g : PositionGroup) : PositionGroup :=
  { g with members := g.members.map Member.lowered, candidates := g.candidates.map Candidate.lowered }

def RecallRow.lowered (r : RecallRow) : RecallRow :=
  { r with
    recordId := r.recordId.map asciiLower
    positionRecords := r.positionRecords.map asciiLower
    candidateRecords := r.candidateRecords.map (·.map asciiLower)
    endedBy := r.endedBy.map asciiLower }

def UnendedRow.lowered (u : UnendedRow) : UnendedRow := { u with row := u.row.lowered }

/-- The artifact with the ids it prints in lower case. -/
def RecallArtifact.lowered (a : RecallArtifact) : RecallArtifact :=
  { a with
    topSlice := a.topSlice.map RecallRow.lowered
    rest := a.rest.map RecallRow.lowered
    unended := a.unended.map UnendedRow.lowered }

@[simp] theorem Member.lowered_key (m : Member) : m.lowered.key = m.key := rfl

@[simp] theorem PositionGroup.lowered_key (g : PositionGroup) : g.lowered.key = g.key := rfl

theorem RecallRow.counted_lowered (r : RecallRow) (covers : Bool) :
    r.lowered.counted covers = (r.counted covers).lowered := by
  unfold counted
  by_cases counts : r.ending = none ∧ covers = true
  · have lowered : r.lowered.ending = none ∧ covers = true := counts
    rw [if_pos lowered, if_pos counts]
    rfl
  · have lowered : ¬ (r.lowered.ending = none ∧ covers = true) := counts
    rw [if_neg lowered, if_neg counts]

section

variable (T : RecallText)

@[simp] theorem Candidate.lowered_key (c : Candidate) : c.lowered.key T = c.key T := by
  unfold Candidate.key Candidate.lowered
  cases c.recordId with
  | none => rfl
  | some u => exact canon_lower T u

theorem addMember_lowered (members : List Member) (u : String) :
    addMember T (members.map Member.lowered) (asciiLower u) =
      (addMember T members u).map Member.lowered := by
  unfold addMember
  have known : (members.map Member.lowered).any (fun m => m.key = canon T u) =
      members.any fun m => m.key = canon T u := List.any_map
  rw [canon_lower, known]
  split
  · rfl
  · rw [List.map_append]
    rfl

theorem membersOf_lowered (position : List String) :
    membersOf T (position.map asciiLower) = (membersOf T position).map Member.lowered := by
  have folded (members : List Member) :
      (position.map asciiLower).foldl (addMember T) (members.map Member.lowered) =
        (position.foldl (addMember T) members).map Member.lowered := by
    induction position generalizing members with
    | nil => rfl
    | cons u position ih =>
        rw [List.map_cons, List.foldl_cons, List.foldl_cons, addMember_lowered]
        exact ih _
  let byKey (a b : Member) : Bool := decide (Text.utf16 a.key ≤ Text.utf16 b.key)
  have sorted : ((position.foldl (addMember T) []).mergeSort byKey).map Member.lowered =
      ((position.foldl (addMember T) []).map Member.lowered).mergeSort byKey :=
    List.map_mergeSort fun a _ b _ => rfl
  exact (congrArg (List.mergeSort · byKey) (folded [])).trans sorted.symm

theorem positionRows_lowered (positions : List (List String)) :
    positionRows T (positions.map (·.map asciiLower)) =
      (positionRows T positions).map (·.map Member.lowered) := by
  have rows : (positions.map (·.map asciiLower)).map (membersOf T) =
      (positions.map (membersOf T)).map (·.map Member.lowered) := by
    rw [List.map_map, List.map_map]
    exact List.map_congr_left fun position _ => membersOf_lowered T position
  have named : (fun ms : List Member => decide (ms ≠ [])) ∘ (·.map Member.lowered) =
      fun ms => decide (ms ≠ []) := by
    funext ms
    simp
  unfold positionRows
  rw [rows, List.filter_map, named]

theorem headKey_lowered (members : List Member) :
    headKey (members.map Member.lowered) = headKey members := by
  cases members <;> rfl

theorem positionKey_lowered (rows : List (List Member)) (uri : String) :
    positionKey (rows.map (·.map Member.lowered)) uri = positionKey rows uri := by
  have holds : (fun ms : List Member => ms.any fun m => m.key = uri) ∘ List.map Member.lowered =
      fun ms : List Member => ms.any fun m => m.key = uri := by
    funext ms
    exact List.any_map
  have keys : headKey ∘ List.map Member.lowered = headKey := funext headKey_lowered
  unfold positionKey
  rw [← List.map_reverse, List.find?_map, holds, Option.map_map, keys]

theorem addCandidate_lowered (rows : List (List Member)) (groups : List PositionGroup)
    (c : Candidate) :
    addCandidate T (rows.map (·.map Member.lowered)) (groups.map PositionGroup.lowered) c.lowered =
      (addCandidate T rows groups c).map PositionGroup.lowered := by
  unfold addCandidate
  dsimp only
  rw [Candidate.lowered_key, positionKey_lowered, List.any_map]
  have known : (fun g : PositionGroup => decide (g.key = positionKey rows (c.key T))) ∘
      PositionGroup.lowered = fun g => decide (g.key = positionKey rows (c.key T)) := rfl
  rw [known]
  split
  · rw [List.map_map, List.map_map]
    refine List.map_congr_left fun g _ => ?_
    rw [Function.comp_apply, Function.comp_apply, PositionGroup.lowered_key]
    split
    · simp [PositionGroup.lowered]
    · rfl
  · have heads : (fun ms : List Member => decide (headKey ms = positionKey rows (c.key T))) ∘
        List.map Member.lowered =
          fun ms : List Member => decide (headKey ms = positionKey rows (c.key T)) := by
      funext ms
      rw [Function.comp_apply, headKey_lowered]
    have alone : c.lowered.recordId.getD (c.key T) = asciiLower (c.recordId.getD (c.key T)) := by
      unfold Candidate.lowered
      cases c.recordId with
      | none => exact (T.ascii_lower _).symm
      | some u => rfl
    rw [List.map_append, ← List.map_reverse, List.find?_map, heads, alone]
    cases rows.reverse.find? fun ms => headKey ms = positionKey rows (c.key T) <;> rfl

theorem groupByPosition_lowered (ranked : List Candidate) (positions : List (List String)) :
    groupByPosition T (ranked.map Candidate.lowered) (positions.map (·.map asciiLower)) =
      (groupByPosition T ranked positions).map PositionGroup.lowered := by
  have folded (groups : List PositionGroup) :
      (ranked.map Candidate.lowered).foldl
          (addCandidate T ((positionRows T positions).map (·.map Member.lowered)))
          (groups.map PositionGroup.lowered) =
        (ranked.foldl (addCandidate T (positionRows T positions)) groups).map
          PositionGroup.lowered := by
    induction ranked generalizing groups with
    | nil => rfl
    | cons c ranked ih =>
        rw [List.map_cons, List.foldl_cons, List.foldl_cons, addCandidate_lowered]
        exact ih _
  unfold groupByPosition
  rw [positionRows_lowered]
  exact folded []

end

namespace RecallInput

variable (x : RecallInput)

/-- The input with the ids of its positions in lower case. -/
def lowered : RecallInput := { x with positions := x.positions.map (·.map asciiLower) }

theorem endingOf_lowered (g : PositionGroup) (tier : Tier) :
    x.lowered.endingOf g.lowered tier =
      (x.endingOf g tier).map fun e => (e.1, asciiLower e.2) := by
  have named (keys : List String) (e : Ending) :
      ((g.members.map Member.lowered).find? fun m => m.key ∈ keys).map (fun m => (e, m.display)) =
        ((g.members.find? fun m => m.key ∈ keys).map fun m => (e, m.display)).map
          fun e => (e.1, asciiLower e.2) := by
    rw [List.find?_map, Option.map_map, Option.map_map]
    rfl
  unfold endingOf
  dsimp only [lowered, PositionGroup.lowered]
  rw [named, named, named, Option.map_or, Option.map_or, Option.map_or]
  split
  · rw [named]
  · rfl

theorem row_lowered (tier : Tier) (g : PositionGroup) :
    x.lowered.row tier g.lowered = (x.row tier g).lowered := by
  unfold row
  rw [endingOf_lowered]
  unfold RecallRow.lowered
  dsimp only [PositionGroup.lowered]
  rw [List.map_map, List.map_map, List.map_map, List.map_map, Option.map_map, Option.map_map,
    Option.map_map]
  cases g.candidates <;> rfl

theorem rows_lowered (tier : Tier) (groups : List PositionGroup) :
    (groups.map PositionGroup.lowered).map (x.lowered.row tier) =
      (groups.map (x.row tier)).map RecallRow.lowered := by
  rw [List.map_map, List.map_map]
  exact List.map_congr_left fun g _ => x.row_lowered tier g

theorem joinRanked_lowered (T : RecallText) (ranked : List Candidate) :
    x.lowered.joinRanked T (ranked.map Candidate.lowered) = (x.joinRanked T ranked).lowered := by
  have stays (rows : List RecallRow) : (rows.map RecallRow.lowered).filter (·.ending = none) =
      (rows.filter (·.ending = none)).map RecallRow.lowered := List.filter_map
  have counted (rows : List RecallRow) (covers : Bool) :
      (rows.map RecallRow.lowered).map (fun r => r.counted covers) =
        (rows.map fun r => r.counted covers).map RecallRow.lowered := by
    rw [List.map_map, List.map_map]
    exact List.map_congr_left fun r _ => r.counted_lowered covers
  have keys : (ranked.map Candidate.lowered).map (·.key T) = ranked.map (·.key T) := by
    rw [List.map_map]
    exact List.map_congr_left fun c _ => c.lowered_key T
  have groups : groupByPosition T (ranked.map Candidate.lowered) x.lowered.positions =
      (groupByPosition T ranked x.positions).map PositionGroup.lowered :=
    groupByPosition_lowered T ranked x.positions
  have same : x.lowered.topSlice = x.topSlice ∧ x.lowered.crowdRulings = x.crowdRulings ∧
      x.lowered.declared = x.declared ∧ x.lowered.restWhy = x.restWhy := ⟨rfl, rfl, rfl, rfl⟩
  unfold joinRanked RecallArtifact.lowered
  dsimp only
  simp only [groups, keys, same, ← List.map_take, ← List.map_drop, rows_lowered, stays,
    List.length_map, List.map_append, RecallArtifact.mk.injEq, true_and]
  refine ⟨counted _ _, ?_⟩
  · congr 1
    · rw [List.map_map, List.map_map]
      rfl
    · split
      · rfl
      · rw [List.map_map, List.map_map]
        rfl

end RecallInput

end Clearotron
