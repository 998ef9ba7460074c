import Clearotron.Placement.Kept

/-!
# Every pass of a run keeps what was placed

The parts are put together here: one pass keeps what the form held, and every pass of a run
starts from rows it can keep. The lines a step was served may change from one pass to the next.
A floor's row is where this stops: a filtered tier is refused, and takes the accepted one with it.
-/

namespace Clearotron.Placement

variable {T : PlacementText} {input : PlacementInput} {c r r' s row : Row} {sel : String}
  {f : SeatFields} {prior : Submission} {submitted : Option Submission}

theorem seatFields_trimmed (s : Row) :
    seatFields (judge c sel (seatFields s)) = seatFields s := by
  have trimmed (t : Option String) : (t.map Text.trim).map Text.trim = t.map Text.trim := by
    cases t with
    | none => rfl
    | some text => simp only [Option.map_some, Text.trim_trim]
  show SeatFields.mk ((s.tier.map Text.trim).map Text.trim) ((s.reason.map Text.trim).map Text.trim)
    s.borderline = seatFields s
  rw [trimmed, trimmed]
  rfl

/-- Two rows of a form with a record of one candidate in each are one row. -/
theorem eq_of_candidate {rows : List Row} (band : WholeBand input) (sound : SoundRows T input rows)
    (mem : r ∈ rows) (mem' : r' ∈ rows) (one : ∃ u ∈ r.records, input.index.resolve u = some c)
    (other : ∃ u ∈ r'.records, input.index.resolve u = some c) : r = r' := by
  have owner (q : Row) (there : q ∈ rows) (holds : ∃ u ∈ q.records, input.index.resolve u = some c) :
      formRowKey T q = formRowKey T c := by
    obtain ⟨u, uMem, resolved⟩ := holds
    obtain ⟨c', sel, f, h⟩ | seat := sound.each q there
    · rw [h.records] at uMem
      have whole := band.whole c' (mem_candidates h.selects.resolves) u uMem
      rw [h.key, Option.some.inj (whole.symm.trans resolved)]
    · rw [(seat.foreign u uMem).1] at resolved
      cases resolved
  exact eq_of_key sound mem mem' ((owner r mem one).trans (owner r' mem' other).symm)

section Pass

variable (band : WholeBand input) (sound : SoundRows T input prior.rows)
  (plain : PlainPass T input prior.rows (submittedRows submitted))

include sound in
theorem row_stays (mem : r ∈ prior.rows) (stays : isRetracted T (goneIds T submitted) r = false) :
    ∃ r' ∈ (unionPlacementForm T input prior submitted).form.rows,
      r'.rowId = r.rowId ∧ formRowKey T r' = formRowKey T r ∧ r'.records = r.records := by
  obtain ⟨c, sel, f, h⟩ | seat := sound.each r mem
  · obtain ⟨f', h'⟩ : ∃ f', IsRegisterRow input (mergedRow T input prior.rows
        (submittedRows submitted) { c with select := some sel }) c sel f' :=
      isRegisterRow_mergedRow h.selects
    refine ⟨_, List.mem_append_left _ (mergedRow_mem sound mem h stays), ?_, ?_, ?_⟩
    · rw [h'.rowId, h.rowId]
    · rw [h'.key, h.key]
    · rw [h'.records, h.records]
  · exact ⟨r, List.mem_append_right _ (seat_mem sound mem seat stays), rfl, rfl, rfl⟩

include band sound plain in
theorem row_settled (mem : r ∈ prior.rows) (settled : rowIsSettled T r r = true)
    (stays : isRetracted T (goneIds T submitted) r = false) :
    ∃ r' ∈ (unionPlacementForm T input prior submitted).form.rows,
      rowIsSettled T r' r' = true ∧ r'.records = r.records ∧
      (r' = r ∨ ∃ s ∈ submittedRows submitted, rowIsSettled T s r = true ∧
        input.index.candidateOf s = input.index.candidateOf r ∧ seatFields r' = seatFields s) := by
  obtain ⟨c, sel, f, h⟩ | seat := sound.each r mem
  · have there := mergedRow_mem sound mem h stays
    have asked : indexRows T true (submittedRows submitted) { c with select := some sel } =
        indexRows T true (submittedRows submitted) r := by
      rw [h.is]
      rfl
    have own : indexRows T false prior.rows { c with select := some sel } = some r :=
      indexRows_prior band sound mem h rfl
    obtain same | ⟨s, found, accepted, is⟩ := mergedRow_settled h settled own
      fun s found accepted => plain.floors r mem stays settled s (asked ▸ found) accepted
    · rw [same] at there
      exact ⟨r, List.mem_append_left _ there, settled, rfl, .inl rfl⟩
    · have ofRow : indexRows T true (submittedRows submitted) (judge c sel f) = some s := by
        rw [← h.is, ← asked]
        exact found
      obtain ⟨sMem, selects⟩ := indexRows_submitted band plain.speaks h.selects ofRow
      rw [is] at there
      refine ⟨_, List.mem_append_left _ there, ?_, h.records.symm, .inr ⟨s, sMem, accepted, ?_, ?_⟩⟩
      · rw [← accepted, h.is]
        exact rowIsSettled_congr (seatFields_trimmed s) rfl rfl rfl rfl
      · rw [selects, h.candidateOf]
      · exact seatFields_trimmed s
  · exact ⟨r, List.mem_append_right _ (seat_mem sound mem seat stays), settled, rfl, .inl rfl⟩

include band sound plain in
theorem passKeeps : PassKeeps T input prior submitted where
  stays r mem := by
    cases stays : isRetracted T (goneIds T submitted) r with
    | true => exact .inl rfl
    | false => exact .inr (row_stays sound mem stays)
  once r mem r' mem' := by
    have next := sound_rows sound plain
    exact ⟨eq_of_key next mem mem', fun c one other => eq_of_candidate band next mem mem' one other⟩
  settled r mem settled := by
    cases stays : isRetracted T (goneIds T submitted) r with
    | true => exact .inl rfl
    | false => exact .inr (row_settled band sound plain mem settled stays)
  unfiltered r mem kind := by
    obtain ⟨c, sel, f, h⟩ | seat := (sound_rows sound plain).each r mem
    · exact h.kept
    · exact absurd (seat.kind.symm.trans kind) (by simp)
  fates s mem :=
    { selection := selectionFate band (List.mem_append_right _ mem)
      setAside := fun _ => setAsideFate mem
      group := groupFate mem
      seat := seatFate plain mem }
  counts := by
    have bound := List.countP_le_length (p := fun r => rowIsSettled T r r)
      (l := (unionParts T input prior submitted).rows)
    have split := List.length_eq_countP_add_countP (fun r => rowIsSettled T r r)
      (l := (unionParts T input prior submitted).rows)
    refine ⟨(Nat.add_sub_cancel' bound).symm, ?_⟩
    show (unionParts T input prior submitted).rows.length - _ =
      (List.filter _ (unionParts T input prior submitted).rows).length
    rw [← List.countP_eq_length_filter]
    have opposite : List.countP (fun r => !rowIsSettled T r r) (unionParts T input prior submitted).rows =
        List.countP (fun r => ¬rowIsSettled T r r = true) (unionParts T input prior submitted).rows :=
      List.countP_congr fun r _ => by simp
    rw [opposite]
    omega

end Pass

section Serving

variable (served : Option Served)

theorem WholeBand.serve (band : WholeBand input) : WholeBand { input with served } :=
  ⟨band.whole, band.apart⟩

theorem SoundRows.serve {rows : List Row} (sound : SoundRows T input rows) :
    SoundRows T { input with served } rows := by
  refine ⟨sound.nodup, fun r mem => ?_⟩
  obtain ⟨c, sel, f, h⟩ | seat := sound.each r mem
  · exact .inl ⟨c, sel, f, h.is, ⟨h.selects.trimmed, h.selects.named, h.selects.resolves⟩, h.tier,
      h.reason, h.kept⟩
  · exact .inr ⟨seat.is, seat.foreign⟩

theorem SoundRows.unserve {rows : List Row} (sound : SoundRows T { input with served } rows) :
    SoundRows T input rows := by
  have back := sound.serve input.served
  exact back

theorem PlainPass.serve {rows given : List Row} (plain : PlainPass T input rows given) :
    PlainPass T { input with served } rows given :=
  ⟨plain.speaks, plain.named, plain.floors⟩

end Serving

/-- One pass: what the step was served may have changed, and the form it leaves is read back. -/
def Pass (T : PlacementText) (input : PlacementInput) (prior next : Submission) : Prop :=
  ∃ served submitted, PlainPass T input prior.rows (submittedRows submitted) ∧
    next = (unionPlacementForm T { input with served } prior submitted).form.readBack

/-- What a run has left of a form, before its next pass. -/
abbrev PassesTo (T : PlacementText) (input : PlacementInput) : Submission → Prop :=
  Reaches (· = {}) (Pass T input)

theorem sound_of_passes (reached : PassesTo T input prior) : SoundRows T input prior.rows := by
  let Sound (st : Submission) : Prop := SoundRows T input st.rows
  have sound : Sound prior := by
    refine reached.invariant ?_ ?_
    · rintro _ rfl
      exact soundRows_nil
    · rintro st _ sound ⟨served, submitted, plain, rfl⟩
      exact (sound_rows (sound.serve served) (plain.serve served)).unserve
  exact sound

/-- Whatever passes went before, a pass keeps what was placed. -/
theorem placements_kept (T : PlacementText) (input : PlacementInput) (band : WholeBand input)
    {prior : Submission} (reached : PassesTo T input prior) (served : Option Served)
    (submitted : Option Submission) (plain : PlainPass T input prior.rows (submittedRows submitted)) :
    PassKeeps T { input with served } prior submitted :=
  passKeeps (band.serve served) ((sound_of_passes reached).serve served) (plain.serve served)

/-- A runtime that knows lower-case letters without accents. -/
def plainText : PlacementText where
  toLocale := plainLocale
  foldDiacritics := id
  decompose := id
  isLatin := fun _ => true
  isCombining := fun _ => false
  isLetterOrNumber := Char.isAlphanum

/-- A floor of the European register in a position that has a record of another office. -/
def floorBand : PlacementInput where
  floors := some [{ recordId := "/mark/eu/b1", markText := some "luna", ownerName := some "luna gmbh" }]
  positions := some [{ markText := some "luna", owners := ["luna gmbh"]
                       records := ["/mark/eu/b1", "/mark/us/b2"] }]

/-- A judgment on the position, by the record of the other office. -/
def judgment (tier reason : String) : Option Submission :=
  some { rows := [{ select := some "/mark/us/b2", tier := some tier, reason := some reason }] }

/-- The form after the position was placed on the second sheet. -/
def placedForm : Form :=
  (unionPlacementForm plainText floorBand {} (judgment "sheet-2" "live, identical, class 9")).form

/-- A filtered tier is refused on a floor's position, and the accepted tier it was sent over is gone. -/
theorem filtered_tier_unsettles :
    let later := unionPlacementForm plainText floorBand placedForm.readBack
      (judgment "out-of-scope-filtered" "its customers are hospitals")
    placedForm.rows.map (fun r => (r.tier, rowIsSettled plainText r r)) = [(some "sheet-2", true)] ∧
      later.form.rows.map (fun r => (r.tier, rowIsSettled plainText r r)) = [(none, false)] ∧
      later.form.rows.map (·.records) = placedForm.rows.map (·.records) ∧
      later.form.tierRefused.map (·.id) = ["/mark/us/b2"] ∧ later.outstanding = 1 := by
  decide +kernel

theorem placements_kept_floor :
    PassKeeps plainText floorBand placedForm.readBack
      (judgment "headline-candidate" "live, identical, same class 9") := by
  have band : WholeBand floorBand := ⟨by decide +kernel, by decide +kernel⟩
  have first : PlainPass plainText floorBand [] (submittedRows
      (judgment "sheet-2" "live, identical, class 9")) :=
    ⟨by decide +kernel, by decide +kernel, by simp⟩
  have later : PlainPass plainText floorBand placedForm.readBack.rows (submittedRows
      (judgment "headline-candidate" "live, identical, same class 9")) := by
    refine ⟨by decide +kernel, by decide +kernel, fun r mem _ _ s found _ => ?_⟩
    have each : ∀ r ∈ placedForm.readBack.rows, ∀ s ∈ indexRows plainText true (submittedRows
        (judgment "headline-candidate" "live, identical, same class 9")) r,
        isFilteredFloor floorBand { r with tier := (seatFields s).tier } = false := by
      decide +kernel
    exact each r mem s found
  exact placements_kept plainText floorBand band (.step (.start rfl) ⟨none, _, first, rfl⟩) none _ later

end Clearotron.Placement
