import Clearotron.Library.Reaches
import Clearotron.Placement.Passes

/-!
# What a run of passes keeps

A pass reads back the form the last one left and folds a submission into it. On a whole band,
while every submitted row speaks of one candidate at most, a row of the driver's own kind names
one, and no settled floor is sent out of scope, nothing placed is lost: silence keeps every row
and every judgment, and each submitted row has its fate.
-/

namespace Clearotron.Placement

variable {T : PlacementText} {input : PlacementInput} {c r s row next : Row} {sel : String}
  {f : SeatFields} {prior : Submission} {submitted : Option Submission}

theorem foldl_makes {α β : Type*} (P : β → Prop) (step : β → α → β) {xs : List α} {x : α}
    (mem : x ∈ xs) (keeps : ∀ b y, P b → P (step b y)) (makes : ∀ b, P (step b x)) (b : β) :
    P (xs.foldl step b) := by
  obtain ⟨before, after, rfl⟩ := List.append_of_mem mem
  rw [List.foldl_append, List.foldl_cons]
  exact List.foldlRecOn after step (makes _) fun b h y _ => keeps b y h

/-- The rows a pass is handed. -/
def submittedRows (submitted : Option Submission) : List Row := (submitted.getD {}).rows

/-- The ids a pass retracts. -/
def goneIds (T : PlacementText) (submitted : Option Submission) : List String :=
  retractedIds T (submittedRows submitted)

/-- The rows the passes over the selections read, in their order. -/
def allRows (prior : Submission) (submitted : Option Submission) : List Row :=
  prior.rows ++ submittedRows submitted

/-- The rows the seat's own rows are read from. -/
def seatSource (input : PlacementInput) (prior : Submission) (submitted : Option Submission) :
    List Row :=
  prior.rows.filter (!takenAsSelection input ·) ++ (submittedRows submitted).filter (!consumed input ·)

theorem selectedOf_eq_some {retracted : List String} :
    selectedOf T input retracted row = some next ↔
      ∃ sel c, selectionOf row = some sel ∧ input.index.resolve sel = some c ∧
        next = { c with select := some sel } ∧ isRetracted T retracted next = false ∧
        isRetracted T retracted row = false := by
  unfold selectedOf
  simp only [Option.bind_eq_some_iff]
  refine exists_congr fun sel => ?_
  constructor
  · rintro ⟨selects, c, resolved, is⟩
    split at is
    · cases is
    · rename_i kept
      rw [Bool.or_eq_true, not_or, Bool.not_eq_true, Bool.not_eq_true] at kept
      obtain rfl := Option.some.inj is
      exact ⟨c, selects, resolved, rfl, kept⟩
  · rintro ⟨c, selects, resolved, rfl, kept, kept'⟩
    refine ⟨selects, c, resolved, ?_⟩
    rw [if_neg]
    simp [kept, kept']

/-- What the pass over the selections leaves. -/
def selectionPass (T : PlacementText) (input : PlacementInput) (prior : Submission)
    (submitted : Option Submission) : Selections :=
  (allRows prior submitted).foldl (pushSelection T input (goneIds T submitted)) {}

theorem selected_pass : Selected T input (goneIds T submitted) (allRows prior submitted)
    (selectionPass T input prior submitted) := selected_foldl _

theorem mem_registerRows : r ∈ (unionParts T input prior submitted).registerRows ↔
    ∃ x next, IsFirst (seenKey T input) (allRows prior submitted) x ∧
      selectedOf T input (goneIds T submitted) x = some next ∧
      r = mergedRow T input prior.rows (submittedRows submitted) next := by
  show r ∈ List.map _ (selectionPass T input prior submitted).selections ↔ _
  rw [List.mem_map]
  constructor
  · rintro ⟨next, mem, rfl⟩
    obtain ⟨x, first, is⟩ := (selected_pass.selections next).mp mem
    exact ⟨x, next, first, is, rfl⟩
  · rintro ⟨x, next, first, is, rfl⟩
    exact ⟨next, (selected_pass.selections next).mpr ⟨x, first, is⟩, rfl⟩

theorem mergedRow_key {prior submitted : List Row} :
    formRowKey T (mergedRow T input prior submitted next) = formRowKey T next := by
  unfold mergedRow
  dsimp only
  split <;> rfl

theorem nodup_registerRows :
    ((unionParts T input prior submitted).registerRows.map (formRowKey T)).Nodup := by
  show (List.map _ (List.map _ (selectionPass T input prior submitted).selections)).Nodup
  rw [List.map_map]
  have same (next : Row) (_ : next ∈ (selectionPass T input prior submitted).selections) :
      (formRowKey T ∘ mergedRow T input prior.rows (submitted.getD {}).rows) next =
        formRowKey T next := mergedRow_key
  rw [List.map_congr_left same]
  exact selected_pass.nodup

/-- A register row of the next form, with the candidate it is of. -/
theorem isRegisterRow_of_mem (mem : r ∈ (unionParts T input prior submitted).registerRows) :
    ∃ c sel f, IsRegisterRow input r c sel f := by
  obtain ⟨x, next, -, is, rfl⟩ := mem_registerRows.mp mem
  obtain ⟨sel, c, selects, resolved, rfl, -, -⟩ := selectedOf_eq_some.mp is
  obtain ⟨f, h⟩ : ∃ f, IsRegisterRow input (mergedRow T input prior.rows
      (submittedRows submitted) { c with select := some sel }) c sel f :=
    isRegisterRow_mergedRow (selects_of_selectionOf selects resolved)
  exact ⟨c, sel, f, h⟩

theorem mem_carriedSeat : r ∈ (unionParts T input prior submitted).carriedSeat ↔
    (∃ x, IsFirst (seatKeyOf T) (seatSource input prior submitted) x ∧ r = seatRow T x) ∧
      isRetracted T (goneIds T submitted) r = false := by
  show r ∈ List.filter _ (seatRows T (seatSource input prior submitted) _) ↔ _
  rw [List.mem_filter, mem_seatRows, Bool.not_eq_true']
  refine and_congr_left fun _ => exists_congr fun x => ?_
  refine and_congr_right fun _ => and_iff_right fun there => ?_
  obtain ⟨row, mem, same⟩ := List.mem_map.mp there
  obtain ⟨c, sel, f, h⟩ := isRegisterRow_of_mem mem
  rw [h.key, formRowKey_candidate h.candidate] at same
  exact seatKey_ne_registerKey _ same.symm

theorem nodup_rows :
    ((unionParts T input prior submitted).rows.map (formRowKey T)).Nodup := by
  let seen := (unionParts T input prior submitted).registerRows.map (formRowKey T)
  have seat : ((seatRows T (seatSource input prior submitted) seen).map (formRowKey T)).Nodup ∧
      ∀ k ∈ (seatRows T (seatSource input prior submitted) seen).map (formRowKey T), k ∉ seen :=
    nodup_seatRows
  have part : ((unionParts T input prior submitted).carriedSeat.map (formRowKey T)).Sublist
      ((seatRows T (seatSource input prior submitted)
        ((unionParts T input prior submitted).registerRows.map (formRowKey T))).map (formRowKey T)) :=
    List.filter_sublist.map _
  show (List.map _ (_ ++ _)).Nodup
  rw [List.map_append, List.nodup_append]
  refine ⟨nodup_registerRows, seat.1.sublist part, fun k mem k' mem' same => ?_⟩
  exact seat.2 k' (part.subset mem') (same ▸ mem)

/-- A pass whose submitted rows speak of one candidate each, name something where they are of the
driver's kind, and send no settled floor out of scope. -/
structure PlainPass (T : PlacementText) (input : PlacementInput) (prior : List Row)
    (submitted : List Row) : Prop where
  speaks : ∀ s ∈ submitted, SpeaksOfOne T input s
  named : ∀ s ∈ submitted, s.kind = some "register" → consumed input s = true
  floors : ∀ r ∈ prior, isRetracted T (retractedIds T submitted) r = false →
    rowIsSettled T r r = true → ∀ s, indexRows T true submitted r = some s →
    rowIsSettled T s r = true → isFilteredFloor input { r with tier := (seatFields s).tier } = false

section Step

variable (band : WholeBand input) (sound : SoundRows T input prior.rows)
  (plain : PlainPass T input prior.rows (submittedRows submitted))

include sound plain in
theorem isSeatRow_of_source {x : Row} (mem : x ∈ seatSource input prior submitted) :
    IsSeatRow T input (seatRow T x) := by
  obtain mem | mem := List.mem_append.mp mem
  · obtain ⟨there, free⟩ := List.mem_filter.mp mem
    obtain ⟨c, sel, f, h⟩ | seat := sound.each x there
    · simp [h.taken] at free
    · rw [seat.self]
      exact seat
  · obtain ⟨there, free⟩ := List.mem_filter.mp mem
    refine ⟨⟨x, rfl⟩, fun u uMem => ?_⟩
    have none' : input.index.candidateOf x = none := by
      have free : takenAsSelection input x = false := by
        simp only [consumed, Bool.not_eq_true', Bool.or_eq_false_iff] at free
        exact free.1.1.2
      unfold takenAsSelection at free
      cases selects : selectionOf x with
      | none => simp [SelectionIndex.candidateOf, selects]
      | some sel =>
        rw [selects] at free
        simp only [Option.isSome_some, Bool.true_and, Bool.or_eq_false_iff] at free
        exact Option.isSome_eq_false_iff.mp free.2 |> Option.isNone_iff_eq_none.mp
    have uThere : u ∈ x.records := (List.mem_filter.mp uMem).1
    have apart (v : String) (names : v = u ∨ v = Text.trim u) : input.index.resolve v = none := by
      cases resolved : input.index.resolve v with
      | none => rfl
      | some c =>
        have speaks := plain.speaks x there c (mem_candidates resolved) <| .inr <| .inr
          ⟨u, uThere, by obtain rfl | rfl := names <;> simp [resolved]⟩
        rw [none'] at speaks
        cases speaks
    exact ⟨apart u (.inl rfl), apart _ (.inr rfl)⟩

include sound plain in
theorem sound_rows : SoundRows T input (unionParts T input prior submitted).rows := by
  refine ⟨nodup_rows, fun r mem => ?_⟩
  obtain mem | mem := List.mem_append.mp mem
  · exact .inl (isRegisterRow_of_mem mem)
  · obtain ⟨⟨x, first, rfl⟩, -⟩ := mem_carriedSeat.mp mem
    exact .inr (isSeatRow_of_source sound plain first.mem)

include sound in
/-- Among the rows that are read, a row of the form is the first of its position. -/
theorem isFirst_prior (mem : r ∈ prior.rows) (h : IsRegisterRow input r c sel f) :
    IsFirst (seenKey T input) (allRows prior submitted) r := by
  refine (IsFirst.of_nodup (by rw [h.seen]; rfl) mem ?_).append _
  have apart : prior.rows.Pairwise fun y z => formRowKey T y ≠ formRowKey T z :=
    List.pairwise_map.mp sound.nodup
  have keys (y : Row) (there : y ∈ prior.rows) (keyed : seenKey T input y ≠ none) :
      seenKey T input y = some (formRowKey T y) := by
    obtain ⟨c, sel, f, h⟩ | seat := sound.each y there
    · exact h.seen
    · exact absurd seat.seen keyed
  refine List.Pairwise.imp_of_mem (fun {y z} yMem zMem ne keyed same => ?_) apart
  have keyed' : seenKey T input z ≠ none := same ▸ keyed
  rw [keys y yMem keyed, keys z zMem keyed'] at same
  exact ne (Option.some.inj same)

include sound in
/-- A candidate's row that is not retracted is answered again. -/
theorem mergedRow_mem (mem : r ∈ prior.rows) (h : IsRegisterRow input r c sel f)
    (stays : isRetracted T (goneIds T submitted) r = false) :
    mergedRow T input prior.rows (submittedRows submitted) { c with select := some sel } ∈
      (unionParts T input prior submitted).registerRows := by
  refine mem_registerRows.mpr ⟨r, _, isFirst_prior sound mem h, selectedOf_eq_some.mpr ?_, rfl⟩
  refine ⟨sel, c, h.selection, h.selects.resolves, rfl, ?_, stays⟩
  have same : selectionOf { c with select := some sel } = some sel :=
    selectionOf_judge (f := ⟨c.tier, c.reason, c.borderline⟩) h.selects
  unfold isRetracted at stays ⊢
  rw [h.selection, h.rowId] at stays
  rw [same]
  exact stays

include sound in
/-- A seat's row that is not retracted is carried as it is. -/
theorem seat_mem (mem : r ∈ prior.rows) (seat : IsSeatRow T input r)
    (stays : isRetracted T (goneIds T submitted) r = false) :
    r ∈ (unionParts T input prior submitted).carriedSeat := by
  refine mem_carriedSeat.mpr ⟨⟨r, ?_, seat.self.symm⟩, stays⟩
  have keyOf (y : Row) (there : y ∈ prior.rows) (keyed : seatKeyOf T y ≠ none) :
      seatKeyOf T y = some (formRowKey T y) := by
    obtain ⟨c, sel, f, h⟩ | seat := sound.each y there
    · exact absurd (if_pos h.kind) keyed
    · rw [seat.key]
      refine if_neg ?_
      simp [seat.kind]
  have own : seatKeyOf T r ≠ none := by
    unfold seatKeyOf
    rw [if_neg (by simp [seat.kind])]
    simp
  have kept : r ∈ prior.rows.filter (!takenAsSelection input ·) :=
    List.mem_filter.mpr ⟨mem, by simp [seat.not_taken]⟩
  refine (IsFirst.of_nodup (by simpa [Option.isSome_iff_ne_none] using own) kept ?_).append _
  have apart : prior.rows.Pairwise fun y z => formRowKey T y ≠ formRowKey T z :=
    List.pairwise_map.mp sound.nodup
  refine List.Pairwise.imp_of_mem (fun {y z} yMem zMem ne keyed same => ?_) (apart.filter _)
  have keyed' : seatKeyOf T z ≠ none := same ▸ keyed
  rw [keyOf y (List.mem_filter.mp yMem).1 keyed, keyOf z (List.mem_filter.mp zMem).1 keyed'] at same
  exact ne (Option.some.inj same)

end Step

end Clearotron.Placement
