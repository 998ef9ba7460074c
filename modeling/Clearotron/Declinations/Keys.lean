import Clearotron.Recall.Cases

/-!
# What a decision is kept under

A record's decision is kept under its uri as `normalizeRecordUri` reads it, a page's under its
address behind `page:`. A key that was normalised once is read back as itself, and no record's
key is a page's.
-/

namespace Clearotron

section

variable {first : Char → Bool} {s : List Char} {n : ℕ}

/-- A uri is its mark, its office, a slash and its id, and the match ends with the id. -/
theorem uriAt_eq_some (found : uriAt first s = some n) :
    ∃ mark office id rest, s = mark ++ (office ++ '/' :: (id ++ rest)) ∧
      n = (mark ++ (office ++ '/' :: id)).length ∧ mark.length = 6 ∧
      mark.map Char.toLower = "/mark/".toList ∧ (∀ c ∈ office, isLetterOf c) ∧
      2 ≤ office.length ∧ office.length ≤ 6 ∧ (∀ c ∈ id, isIdChar c) ∧
      id.head?.any first = true := by
  unfold uriAt at found
  dsimp only at found
  split at found
  · next shape =>
      obtain ⟨mark, two, six, slash, begins⟩ := shape
      have length : (s.take 6).length = 6 := by
        have lengths := congrArg List.length mark
        simpa using lengths
      generalize officeIs : (s.drop 6).takeWhile isLetterOf = office at *
      have split : s.drop 6 = office ++ (s.drop 6).drop office.length := by
        have whole := List.takeWhile_append_dropWhile (p := isLetterOf) (l := s.drop 6)
        rw [officeIs] at whole
        conv_lhs => rw [← whole]
        congr 1
        conv_rhs => rw [← whole]
        simp
      generalize behindIs : (s.drop 6).drop office.length = behind at *
      obtain ⟨c, behind, rfl⟩ : ∃ c rest, behind = c :: rest := by
        cases behind with
        | nil => cases slash
        | cons c rest => exact ⟨c, rest, rfl⟩
      obtain rfl : c = '/' := by simpa using slash
      rw [List.drop_one, List.tail_cons] at begins found
      refine ⟨s.take 6, office, behind.takeWhile isIdChar, behind.dropWhile isIdChar, ?_, ?_,
        length, mark, ?_, two, six, fun c => List.mem_takeWhile_imp, begins⟩
      · rw [List.takeWhile_append_dropWhile, ← split, List.take_append_drop]
      · have := Option.some.inj found
        simp only [List.length_append, List.length_cons, length]
        omega
      · rw [← officeIs]
        exact fun c => List.mem_takeWhile_imp
  · cases found

theorem uriAt_of_parts {mark office id : List Char} (six : mark.length = 6)
    (isMark : mark.map Char.toLower = "/mark/".toList) (letters : ∀ c ∈ office, isLetterOf c)
    (two : 2 ≤ office.length) (atMost : office.length ≤ 6) (chars : ∀ c ∈ id, isIdChar c)
    (begins : id.head?.any first = true) :
    uriAt first (mark ++ (office ++ '/' :: id)) =
      some (mark ++ (office ++ '/' :: id)).length := by
  have behind : (mark ++ (office ++ '/' :: id)).drop 6 = office ++ '/' :: id := by
    rw [List.drop_append_of_le_length (by omega), List.drop_eq_nil_of_le (by omega),
      List.nil_append]
  have front : (mark ++ (office ++ '/' :: id)).take 6 = mark := by
    rw [List.take_append_of_le_length (by omega), List.take_of_length_le (by omega)]
  have officeIs : (office ++ '/' :: id).takeWhile isLetterOf = office := by
    rw [List.takeWhile_append_of_pos letters, List.takeWhile_cons_of_neg (by decide),
      List.append_nil]
  have idIs : id.takeWhile isIdChar = id := List.takeWhile_eq_self_iff.mpr chars
  unfold uriAt
  simp only [behind, front, officeIs, List.drop_left, List.head?_cons, List.drop_one,
    List.tail_cons, idIs]
  rw [if_pos ⟨isMark, two, atMost, trivial, begins⟩]
  simp only [List.length_append, List.length_cons, six]
  congr 1
  omega

/-- The match of a uri matches itself whole. -/
theorem uriAt_take (found : uriAt first s = some n) :
    uriAt first (s.take n) = some n ∧ (s.take n).length = n := by
  obtain ⟨mark, office, id, rest, rfl, rfl, six, isMark, letters, two, atMost, chars, begins⟩ :=
    uriAt_eq_some found
  have same : (mark ++ (office ++ '/' :: (id ++ rest))).take
      (mark ++ (office ++ '/' :: id)).length = mark ++ (office ++ '/' :: id) := by
    have regroup : mark ++ (office ++ '/' :: (id ++ rest)) =
        (mark ++ (office ++ '/' :: id)) ++ rest := by simp
    rw [regroup, List.take_left]
  rw [same]
  exact ⟨uriAt_of_parts six isMark letters two atMost chars begins, rfl⟩

theorem firstUri_of_uriAt (found : uriAt first s = some n) (some' : s ≠ []) :
    firstUri first s = some (s.take n) := by
  cases s with
  | nil => exact absurd rfl some'
  | cons c s =>
      unfold firstUri
      rw [found]

theorem exists_of_firstUri {m : List Char} (found : firstUri first s = some m) :
    ∃ t n, uriAt first t = some n ∧ m = t.take n := by
  induction s with
  | nil => cases found
  | cons c s ih =>
      unfold firstUri at found
      split at found
      · next n here => exact ⟨_, n, here, (Option.some.inj found).symm⟩
      · exact ih found

end

theorem isSpace_of_toLower (c : Char) : Text.isSpace c.toLower = Text.isSpace c :=
  congrFun isSpace_toLower c

theorem isSpace_of_isIdChar {c : Char} (id : isIdChar c = true) : Text.isSpace c = false := by
  rw [← isSpace_of_toLower]
  have range : (97 ≤ c.toLower.toNat ∧ c.toLower.toNat ≤ 122) ∨
      (48 ≤ c.toLower.toNat ∧ c.toLower.toNat ≤ 57) ∨ c.toLower.toNat = 95 ∨
      c.toLower.toNat = 45 := by
    simp only [isIdChar, isLetterOf, Bool.or_eq_true, Bool.and_eq_true, decide_eq_true_eq] at id
    rcases id with ((letter | digit) | underscore) | hyphen
    · exact .inl letter
    · exact .inr (.inl digit)
    · exact .inr (.inr (.inl (by rw [underscore]; rfl)))
    · exact .inr (.inr (.inr (by rw [hyphen]; rfl)))
  refine Bool.eq_false_iff.mpr fun space => ?_
  simp only [Text.isSpace, List.mem_cons, List.not_mem_nil, or_false, Bool.or_eq_true,
    Bool.and_eq_true, decide_eq_true_eq] at space
  omega

theorem isIdChar_of_isLetterOf {c : Char} (letter : isLetterOf c = true) : isIdChar c = true := by
  simp [isIdChar, letter]

theorem isSpace_of_mem_mark {mark : List Char} (isMark : mark.map Char.toLower = "/mark/".toList)
    {c : Char} (mem : c ∈ mark) : Text.isSpace c = false := by
  have lower : c.toLower ∈ "/mark/".toList := isMark ▸ List.mem_map_of_mem mem
  rw [← isSpace_of_toLower]
  have plain : ("/mark/".toList.all fun c => !Text.isSpace c) = true := by decide
  simpa using List.all_eq_true.mp plain _ lower

theorem isSpace_of_uriAt {first : Char → Bool} {s : List Char} {n : ℕ}
    (found : uriAt first s = some n) : ∀ c ∈ s.take n, Text.isSpace c = false := by
  obtain ⟨whole, length⟩ := uriAt_take found
  obtain ⟨mark, office, id, rest, is, lengthIs, -, isMark, letters, -, -, chars, -⟩ :=
    uriAt_eq_some whole
  have end' : rest = [] := by
    rw [← List.length_eq_zero_iff]
    have lengths := congrArg List.length is
    simp only [length, List.length_append, List.length_cons] at lengths lengthIs
    omega
  subst end'
  rw [is]
  intro c mem
  simp only [List.append_nil, List.mem_append, List.mem_cons] at mem
  rcases mem with mem | mem | rfl | mem
  · exact isSpace_of_mem_mark isMark mem
  · exact isSpace_of_isIdChar (isIdChar_of_isLetterOf (letters c mem))
  · decide
  · exact isSpace_of_isIdChar (chars c mem)

/-- A normalised uri, character by character. -/
theorem exists_of_normalizeRecordUri {u k : String} (is : normalizeRecordUri u = some k) :
    ∃ first s n, first ∘ Char.toLower = first ∧ uriAt first s = some n ∧
      k = String.ofList ((s.take n).map Char.toLower) ∧
      (fun c : Char => c.toLower ≠ '_' && c.toLower ≠ '-') = first := by
  unfold normalizeRecordUri at is
  obtain ⟨m, found, rfl⟩ := Option.map_eq_some_iff.mp is
  obtain ⟨t, n, at_, rfl⟩ := exists_of_firstUri found
  exact ⟨_, t, n, by funext c; simp, at_, rfl, rfl⟩

/-- A key that was normalised is read back as itself. -/
theorem normalizeRecordUri_self {u k : String} (is : normalizeRecordUri u = some k) :
    normalizeRecordUri k = some k := by
  obtain ⟨first, s, n, firstLower, found, rfl, rfl⟩ := exists_of_normalizeRecordUri is
  obtain ⟨whole, length⟩ := uriAt_take found
  have blank : ∀ c ∈ (String.ofList ((s.take n).map Char.toLower)).toList,
      Text.isSpace c = false := by
    intro c mem
    rw [String.toList_ofList] at mem
    obtain ⟨d, there, rfl⟩ := List.mem_map.mp mem
    rw [isSpace_of_toLower]
    exact isSpace_of_uriAt found d there
  have some' : s.take n ≠ [] := by
    intro none'
    rw [none'] at whole
    exact absurd whole (by simp [uriAt])
  unfold normalizeRecordUri
  rw [Text.trim_of_no_space blank, String.toList_ofList, firstUri_lower firstLower,
    firstUri_of_uriAt whole some', Option.map_some, Option.map_some, List.map_map, toLower_comp,
    List.take_of_length_le length.le]

def pageKeyPrefix : String := "page:"

/-- A page's key is no record's. -/
theorem normalizeRecordUri_ne_page {u k : String} (is : normalizeRecordUri u = some k)
    (page : String) : k ≠ pageKeyPrefix ++ page := by
  obtain ⟨first, s, n, firstLower, found, rfl, rfl⟩ := exists_of_normalizeRecordUri is
  obtain ⟨whole, length⟩ := uriAt_take found
  obtain ⟨mark, office, id, rest, split, -, six, isMark, -⟩ := uriAt_eq_some whole
  intro same
  have chars := congrArg String.toList same
  rw [String.toList_ofList, split, List.map_append, isMark, String.toList_append] at chars
  exact absurd chars (by simp [pageKeyPrefix])

end Clearotron
