import Mathlib.Data.Option.Basic
import Clearotron.Placement.Rows

/-!
# What one pass does to the rows

A pass answers a candidate's row from the row the form held of it and from the submitted rows
that select it. Here each part of a pass is read back: which rows it answers from, which rows it
keeps, and what a row of the next form is.
-/

namespace Clearotron.Placement

variable {T : PlacementText} {input : PlacementInput} {c c' r s row : Row} {sel : String}
  {f : SeatFields} {prior submitted : List Row}

section Matching

variable (band : WholeBand input) (sound : SoundRows T input prior)

include sound in
theorem eq_of_key (mem : r ∈ prior) (mem' : s ∈ prior) (same : formRowKey T r = formRowKey T s) :
    r = s :=
  List.inj_on_of_nodup_map sound.nodup mem mem' same

include band sound in
/-- The form's own row of a candidate is the one that is found. -/
theorem indexRows_prior (mem : r ∈ prior) (h : IsRegisterRow input r c sel f)
    (rowId : row.rowId = c.rowId) : indexRows T false prior row = some r := by
  have id' := upper_rowId (T := T) h.candidate
  have named : r.rowId.any (· ≠ "") = true := by
    rw [h.rowId, h.candidate.rowId]
    have ne : shortId "PR" (registerKey c.records) ≠ "" := by
      intro same
      have := congrArg String.toList same
      simp [shortId, registerKey_ne, String.toList_append] at this
    simpa using ne
  unfold indexRows
  cases found : prior.reverse.find? fun r =>
      r.rowId.any (· ≠ "") ∧ T.upper (Text.trim (r.rowId.getD "")) = T.upper (row.rowId.getD "") with
  | none =>
    have none' := List.find?_eq_none.mp found r (List.mem_reverse.mpr mem)
    refine absurd (decide_eq_true ⟨named, ?_⟩) none'
    rw [rowId, h.rowId, id'.1, id'.2]
  | some p =>
    have there := List.mem_reverse.mp (List.mem_of_find?_eq_some found)
    have same : T.upper (Text.trim (p.rowId.getD "")) = T.upper (row.rowId.getD "") := by
      have := List.find?_some found
      exact (of_decide_eq_true this).2
    rw [rowId, id'.2] at same
    refine congrArg some (eq_of_key sound there mem ?_)
    obtain ⟨c', sel', f', h'⟩ | seat := sound.each p there
    · rw [h'.rowId, (upper_rowId (T := T) h'.candidate).1] at same
      have ids : c'.rowId = c.rowId := by
        rw [h'.candidate.rowId, h.candidate.rowId] at same ⊢
        exact congrArg some same
      have is : c' = c :=
        band.apart c' (mem_candidates h'.selects.resolves) c (mem_candidates h.selects.resolves) ids
      rw [h'.key, h.key, is]
    · rw [seat.rowId, Option.getD_some, (shortId_upper T.toLocale (by simp)).1,
        h.candidate.rowId] at same
      exact absurd same (shortId_seat_ne (registerKey_ne _) seatKey_ne)

include band in
/-- A submitted row that answers a candidate's row selects that candidate. -/
theorem indexRows_submitted (speaks : ∀ s ∈ submitted, SpeaksOfOne T input s)
    (selects : Selects input sel c) (found : indexRows T true submitted (judge c sel f) = some s) :
    s ∈ submitted ∧ input.index.candidateOf s = some c := by
  have inBand := mem_candidates selects.resolves
  unfold indexRows at found
  obtain byId | ⟨-, later⟩ := (Option.orElse_eq_some _ _ _).mp found
  · have mem := List.mem_reverse.mp (List.mem_of_find?_eq_some byId)
    have holds := List.find?_some byId
    exact ⟨mem, speaks s mem c inBand (.inl (of_decide_eq_true holds))⟩
  · obtain byKey | ⟨-, byUri⟩ := (Option.orElse_eq_some _ _ _).mp later
    · have mem := List.mem_reverse.mp (List.mem_of_find?_eq_some byKey)
      have holds := List.find?_some byKey
      exact ⟨mem, speaks s mem c inBand (.inr (.inl (of_decide_eq_true holds)))⟩
    · rw [if_pos rfl] at byUri
      obtain ⟨u, ofRow, byUri⟩ := List.exists_of_findSome?_eq_some byUri
      have mem := List.mem_of_find?_eq_some byUri
      have holds := List.find?_some byUri
      have ofSubmitted := of_decide_eq_true holds
      refine ⟨mem, ?_⟩
      -- the id in common resolves to the candidate on both sides
      have resolved : input.index.get u = some c := by
        obtain ⟨v, there, rfl⟩ := List.mem_map.mp (List.mem_filter.mp ofRow).1
        obtain there | there := List.mem_append.mp there
        · exact band.whole c inBand v there
        · rw [selectionOf_judge selects] at there
          obtain rfl : v = sel := by simpa using there
          exact selects.resolves
      obtain ⟨v, there, is⟩ := List.mem_map.mp (List.mem_filter.mp ofSubmitted).1
      have resolved' : input.index.resolve v = some c := by
        unfold SelectionIndex.resolve
        rw [is]
        exact resolved
      obtain there | there := List.mem_append.mp there
      · exact speaks s mem c inBand (.inr (.inr ⟨v, there, .inl resolved'⟩))
      · unfold SelectionIndex.candidateOf
        rw [Option.mem_toList.mp there]
        exact resolved'

end Matching

theorem tidy_filter (s : Option String) (trimmed : ∀ t ∈ s, Text.trim t = t) :
    IsTidy (s.filter (· ≠ "")) := by
  cases s with
  | none => simp [IsTidy]
  | some t =>
    by_cases blank : t = ""
    · simp [IsTidy, blank]
    · simpa [IsTidy, blank] using trimmed t rfl

theorem trimmed_map (s : Option String) : ∀ t ∈ s.map Text.trim, Text.trim t = t := by
  intro t mem
  obtain ⟨u, -, rfl⟩ := Option.map_eq_some_iff.mp mem
  exact Text.trim_trim u

theorem trimmed_orElse {s s' : Option String} (left : ∀ t ∈ s, Text.trim t = t)
    (right : ∀ t ∈ s', Text.trim t = t) : ∀ t ∈ orElse s s', Text.trim t = t := by
  intro t mem
  unfold orElse at mem
  obtain mine | ⟨-, theirs⟩ := (Option.orElse_eq_some _ _ _).mp mem
  · exact left t (Option.filter_eq_some_iff.mp mine).1
  · exact right t theirs

/-- Whatever judgment a row takes, it is trimmed. -/
theorem trimmed_mergedFields (p s : Option Row) (row : Row) :
    (∀ t ∈ (mergedFields T p s row).tier, Text.trim t = t) ∧
      ∀ t ∈ (mergedFields T p s row).reason, Text.trim t = t := by
  unfold mergedFields
  split
  · exact ⟨trimmed_map _, trimmed_map _⟩
  · split
    · exact ⟨trimmed_map _, trimmed_map _⟩
    · exact ⟨trimmed_orElse (trimmed_map _) (trimmed_map _),
        trimmed_orElse (trimmed_map _) (trimmed_map _)⟩

/-- The judgment a candidate's row takes from what the form held and what was submitted. -/
def givenFields (T : PlacementText) (p s : Option Row) (row : Row) : SeatFields :=
  let fields := mergedFields T p s row
  ⟨fields.tier.filter (· ≠ ""), fields.reason.filter (· ≠ ""), fields.borderline⟩

theorem judgedRow_eq (p s : Option Row) :
    judgedRow T p s { c with select := some sel } =
      judge c sel (givenFields T p s { c with select := some sel }) := rfl

/-- A merged row is a candidate's row of the form. -/
theorem isRegisterRow_mergedRow (selects : Selects input sel c) :
    ∃ f, IsRegisterRow input (mergedRow T input prior submitted { c with select := some sel }) c sel f := by
  unfold mergedRow
  dsimp only
  rw [judgedRow_eq]
  generalize row : ({ c with select := some sel } : Row) = next
  generalize p : indexRows T false prior next = p'
  generalize s : indexRows T true submitted next = s'
  have trimmed := trimmed_mergedFields (T := T) p' s' next
  have tier : IsTidy (givenFields T p' s' next).tier := tidy_filter _ trimmed.1
  have reason : IsTidy (givenFields T p' s' next).reason := tidy_filter _ trimmed.2
  split
  · refine ⟨⟨none, (givenFields T p' s' next).reason, (givenFields T p' s' next).borderline⟩,
      rfl, selects, by simp [IsTidy], reason, ?_⟩
    simp [isFilteredFloor]
  · rename_i kept
    exact ⟨_, rfl, selects, tier, reason, by simpa using kept⟩

/-- The form's own settled row stands as it is, or a submitted judgment has its place. -/
theorem mergedRow_settled (h : IsRegisterRow input r c sel f)
    (settled : rowIsSettled T r r = true)
    (own : indexRows T false prior { c with select := some sel } = some r)
    (unfiltered : ∀ s, indexRows T true submitted { c with select := some sel } = some s →
      rowIsSettled T s r = true → isFilteredFloor input { r with tier := (seatFields s).tier } = false) :
    mergedRow T input prior submitted { c with select := some sel } = r ∨
      ∃ s, indexRows T true submitted { c with select := some sel } = some s ∧
        rowIsSettled T s r = true ∧
        mergedRow T input prior submitted { c with select := some sel } = judge c sel (seatFields s) := by
  have facts (q : Row) : rowIsSettled T q { c with select := some sel } = rowIsSettled T q r := by
    rw [h.is]
    exact rowIsSettled_congr rfl rfl rfl rfl rfl
  unfold mergedRow
  dsimp only
  rw [judgedRow_eq, own]
  cases found : indexRows T true submitted { c with select := some sel } with
  | none =>
    left
    have given : givenFields T (some r) none { c with select := some sel } = f := by
      unfold givenFields mergedFields
      rw [if_neg (by simp), if_pos (by simpa [facts] using settled)]
      dsimp only [Option.getD_some]
      rw [h.fields, filter_of_tidy h.tier, filter_of_tidy h.reason]
    rw [given, ← h.is, if_neg (by simp [h.kept])]
  | some s =>
    by_cases accepted : rowIsSettled T s r = true
    · right
      obtain ⟨t, isTier, tier⟩ := tier_of_settled accepted
      have reason := reason_of_settled accepted
      have given : givenFields T (some r) (some s) { c with select := some sel } = seatFields s := by
        unfold givenFields mergedFields
        rw [if_pos (by simpa [facts] using accepted)]
        dsimp only [Option.getD_some]
        have tierThere : (seatFields s).tier.filter (· ≠ "") = (seatFields s).tier := by
          have ne : t ≠ "" := by
            intro blank
            rw [blank] at isTier
            revert isTier
            decide
          simp [tier, ne]
        have reasonThere : (seatFields s).reason.filter (· ≠ "") = (seatFields s).reason := by
          cases is : (seatFields s).reason with
          | none => rfl
          | some w =>
            have ne : w ≠ "" := by
              intro blank
              rw [is, blank] at reason
              revert reason
              decide
            simp [ne]
        rw [tierThere, reasonThere]
      refine ⟨s, rfl, accepted, ?_⟩
      rw [given, if_neg]
      have kept := unfiltered s found accepted
      rw [Bool.not_eq_true]
      rw [h.is] at kept
      exact kept
    · left
      have given : givenFields T (some r) (some s) { c with select := some sel } = f := by
        unfold givenFields mergedFields
        rw [if_neg (by simpa [facts] using accepted), if_pos (by simpa [facts] using settled)]
        dsimp only [Option.getD_some]
        rw [h.fields, filter_of_tidy h.tier, filter_of_tidy h.reason]
      rw [given, ← h.is, if_neg (by simp [h.kept])]

end Clearotron.Placement
