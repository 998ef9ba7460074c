import Clearotron.Placement.PassRuns

/-!
# A judgment once placed is kept

Each submitted row has its fate: it is a selection, a row of the seat's, a set-aside or a group's
row of the form, or it is reported back, or this pass retracted what it stands for. With what a
pass keeps of the rows it found, this holds of every pass of a run, from the first form on.
-/

namespace Clearotron.Placement

variable {T : PlacementText} {input : PlacementInput} {c r s row : Row} {sel : String}
  {f : SeatFields} {prior : Submission} {submitted : Option Submission}

section

variable (T input)

/-- The position a row selects is on the form, or this pass retracted it; a selection the band
does not hold is reported. -/
def SelectionFate (prior : Submission) (submitted : Option Submission) (form : Form) (s : Row) : Prop :=
  (∃ sel, selectionOf s = some sel ∧ input.index.resolve sel = none ∧
      ∃ x ∈ form.unresolved, x.select = sel) ∨
    ∃ c, input.index.candidateOf s = some c ∧
      ((∃ r ∈ form.rows, formRowKey T r = formRowKey T c) ∨
        ∃ x ∈ allRows prior submitted, input.index.candidateOf x = some c ∧
          (isRetracted T (goneIds T submitted) x = true ∨
            isRetracted T (goneIds T submitted) { c with select := selectionOf x } = true))

/-- A row of the seat's stands on the form, or this pass retracted it. -/
def SeatFate (prior : Submission) (submitted : Option Submission) (form : Form) (s : Row) : Prop :=
  s.kind ≠ some "register" ∧
    ((∃ r ∈ form.rows, r.kind = some "seat" ∧ formRowKey T r = seatKey T s) ∨
      ∃ x ∈ allRows prior submitted, seatKey T x = seatKey T s ∧
        isRetracted T (goneIds T submitted) (seatRow T x) = true)

/-- Does this pass retract an id, as it is written or in upper case? -/
def Retracts (submitted : Option Submission) (id : String) : Prop :=
  id ∈ goneIds T submitted ∨ T.upper id ∈ goneIds T submitted

/-- The line of a set-aside id has a ground on the form, or this pass retracted the line's; or
the id is reported. -/
def SetAsideFate (submitted : Option Submission) (form : Form) (m : String) : Prop :=
  (∃ x ∈ form.setAsideRefused, x.id = m) ∨
    ∃ line, lineOf T input m = some line ∧
      ((∃ e ∈ form.setAside, e.key = line) ∨
        ∃ id, lineOf T input id = some line ∧ Retracts T submitted id)

/-- A group's row stands on the form, or this pass retracted it; or it is reported. -/
def GroupFate (submitted : Option Submission) (form : Form) (s : Row) : Prop :=
  (∃ x ∈ form.groupRefused, x.id = Text.trim (s.setAsideGroup.getD "")) ∨
    ∃ g, groupName T (s.setAsideGroup.getD "") = some g ∧
      ((∃ e ∈ form.setAsideGroups, e.setAsideGroup = g) ∨ Retracts T submitted ("group:" ++ g.text))

/-- What becomes of a submitted row, in each part it has. -/
structure HasFate (prior : Submission) (submitted : Option Submission) (form : Form) (s : Row) :
    Prop where
  selection : takenAsSelection input s = true → SelectionFate T input prior submitted form s
  setAside : ∀ m ∈ setAsideMembers s, SetAsideFate T input submitted form m
  group : isSetAsideGroupRow s = true → GroupFate T submitted form s
  seat : consumed input s = false → SeatFate T prior submitted form s

/-- What a pass over these rows keeps. -/
structure PassKeeps (prior : Submission) (submitted : Option Submission) : Prop where
  /-- a row leaves only when it is retracted -/
  stays : ∀ r ∈ prior.rows, isRetracted T (goneIds T submitted) r = true ∨
    ∃ r' ∈ (unionPlacementForm T input prior submitted).form.rows,
      r'.rowId = r.rowId ∧ formRowKey T r' = formRowKey T r ∧ r'.records = r.records
  /-- no two rows are one position -/
  once : ∀ r ∈ (unionPlacementForm T input prior submitted).form.rows,
    ∀ r' ∈ (unionPlacementForm T input prior submitted).form.rows,
      (formRowKey T r = formRowKey T r' → r = r') ∧
        ∀ c, (∃ u ∈ r.records, input.index.resolve u = some c) →
          (∃ u ∈ r'.records, input.index.resolve u = some c) → r = r'
  /-- a settled row stays as it is, unless it is retracted or has a submitted judgment about the
  same records -/
  settled : ∀ r ∈ prior.rows, rowIsSettled T r r = true →
    isRetracted T (goneIds T submitted) r = true ∨
      ∃ r' ∈ (unionPlacementForm T input prior submitted).form.rows,
        rowIsSettled T r' r' = true ∧ r'.records = r.records ∧
        (r' = r ∨ ∃ s ∈ submittedRows submitted, rowIsSettled T s r = true ∧
          input.index.candidateOf s = input.index.candidateOf r ∧ seatFields r' = seatFields s)
  /-- no floor's row is out of scope -/
  unfiltered : ∀ r ∈ (unionPlacementForm T input prior submitted).form.rows,
    r.kind = some "register" → isFilteredFloor input r = false
  fates : ∀ s ∈ submittedRows submitted,
    HasFate T input prior submitted (unionPlacementForm T input prior submitted).form s
  counts : (unionPlacementForm T input prior submitted).total =
      (unionPlacementForm T input prior submitted).settled +
        (unionPlacementForm T input prior submitted).outstanding ∧
    (unionPlacementForm T input prior submitted).outstanding =
      (outstandingPlacementRows T (unionPlacementForm T input prior submitted).form).length

end

theorem registerKey_ne_unseen (records : List String) (sel : String) :
    registerKey records ≠ "?" ++ sel := by
  intro same
  have first := congrArg (fun s => s.toList[0]?) same
  simp [registerKey, String.toList_append] at first

theorem selectionFate (band : WholeBand input) (mem : s ∈ allRows prior submitted)
    (taken : takenAsSelection input s = true) :
    SelectionFate T input prior submitted (unionPlacementForm T input prior submitted).form s := by
  unfold takenAsSelection at taken
  obtain ⟨some', own⟩ := Bool.and_eq_true_iff.mp taken
  obtain ⟨sel, selects⟩ := Option.isSome_iff_exists.mp some'
  cases resolved : input.index.resolve sel with
  | none =>
    have foreign : s.kind ≠ some "seat" := by
      simpa [SelectionIndex.candidateOf, selects, resolved] using own
    have keyed : seenKey T input s = some ("?" ++ sel) := by
      unfold seenKey
      rw [selects]
      dsimp only
      rw [resolved]
      exact if_neg foreign
    obtain ⟨y, first, is⟩ := IsFirst.exists_of_mem mem keyed
    -- the first row that is seen so is one that the band does not hold
    obtain ⟨u, reported, same⟩ : ∃ u, unresolvedOf input y = some u ∧ u.select = sel := by
      unfold seenKey at is
      unfold unresolvedOf
      cases ySelects : selectionOf y with
      | none => simp [ySelects] at is
      | some sel' =>
        rw [ySelects] at is
        dsimp only at is
        cases yResolved : input.index.resolve sel' with
        | none =>
          rw [yResolved] at is
          dsimp only at is
          split at is
          · cases is
          · rename_i yForeign
            refine ⟨_, by rw [Option.bind_some, if_neg (by simp [yResolved, yForeign])], ?_⟩
            have same : "?" ++ sel' = "?" ++ sel := Option.some.inj is
            have texts := congrArg String.toList same
            simp only [String.toList_append, List.append_cancel_left_eq] at texts
            exact String.toList_inj.mp texts
        | some c =>
          rw [yResolved] at is
          have isC := isCandidate (mem_candidates yResolved)
          exact absurd ((formRowKey_candidate isC).symm.trans (Option.some.inj is))
            (registerKey_ne_unseen _ _)
    exact .inl ⟨sel, selects, resolved, u, (selected_pass.unresolved u).mpr ⟨y, first, reported⟩, same⟩
  | some c =>
    have isC : input.index.candidateOf s = some c := by
      unfold SelectionIndex.candidateOf
      rw [selects]
      exact resolved
    have keyed : seenKey T input s = some (formRowKey T c) := by
      unfold seenKey
      rw [selects]
      dsimp only
      rw [resolved]
    obtain ⟨y, first, is⟩ := IsFirst.exists_of_mem mem keyed
    refine .inr ⟨c, isC, ?_⟩
    have inBand := isCandidate (mem_candidates resolved)
    unfold seenKey at is
    cases ySelects : selectionOf y with
    | none => simp [ySelects] at is
    | some sel' =>
      rw [ySelects] at is
      dsimp only at is
      cases yResolved : input.index.resolve sel' with
      | none =>
        rw [yResolved] at is
        dsimp only at is
        split at is
        · cases is
        · exact absurd ((formRowKey_candidate inBand).symm.trans (Option.some.inj is).symm)
            (registerKey_ne_unseen _ _)
      | some c' =>
        rw [yResolved] at is
        have isC' := isCandidate (mem_candidates yResolved)
        have keys : registerKey c'.records = registerKey c.records := by
          rw [← formRowKey_candidate (T := T) isC', ← formRowKey_candidate (T := T) inBand]
          exact Option.some.inj is
        obtain rfl : c' = c := band.apart c' (mem_candidates yResolved) c (mem_candidates resolved) <| by
          rw [isC'.rowId, inBand.rowId, keys]
        by_cases gone : (isRetracted T (goneIds T submitted) { c' with select := some sel' } ||
            isRetracted T (goneIds T submitted) y) = true
        · refine .inr ⟨y, first.mem, ?_, ?_⟩
          · unfold SelectionIndex.candidateOf
            rw [ySelects]
            exact yResolved
          · rw [ySelects]
            exact ((Bool.or_eq_true _ _).mp gone).symm
        · rw [Bool.or_eq_true, not_or, Bool.not_eq_true, Bool.not_eq_true] at gone
          refine .inl ⟨_, List.mem_append_left _ (mem_registerRows.mpr ⟨y, _, first,
            selectedOf_eq_some.mpr ⟨sel', c', ySelects, yResolved, rfl, gone.1, gone.2⟩, rfl⟩), ?_⟩
          exact mergedRow_key

theorem seatFate (plain : PlainPass T input prior.rows (submittedRows submitted))
    (mem : s ∈ submittedRows submitted) (free : consumed input s = false) :
    SeatFate T prior submitted (unionPlacementForm T input prior submitted).form s := by
  have own : s.kind ≠ some "register" := fun is => by
    rw [plain.named s mem is] at free
    cases free
  have keyed : seatKeyOf T s = some (seatKey T s) := if_neg own
  have there : s ∈ seatSource input prior submitted :=
    List.mem_append_right _ (List.mem_filter.mpr ⟨mem, by simp [free]⟩)
  obtain ⟨x, first, is⟩ := IsFirst.exists_of_mem there keyed
  have same : seatKey T x = seatKey T s := by
    unfold seatKeyOf at is
    split at is
    · cases is
    · exact Option.some.inj is
  refine ⟨own, ?_⟩
  cases gone : isRetracted T (goneIds T submitted) (seatRow T x) with
  | false =>
    refine .inl ⟨seatRow T x, List.mem_append_right _ (mem_carriedSeat.mpr ⟨⟨x, first, rfl⟩, gone⟩),
      rfl, ?_⟩
    rw [formRowKey_seatRow, same]
  | true =>
    refine .inr ⟨x, ?_, same, gone⟩
    obtain there | there := List.mem_append.mp first.mem
    · exact List.mem_append_left _ (List.mem_filter.mp there).1
    · exact List.mem_append_right _ (List.mem_filter.mp there).1

/-- What the pass over the set-asides has made of a member. -/
def MemberSettled (T : PlacementText) (input : PlacementInput) (m : String) (st : SetAsides) : Prop :=
  (∃ x ∈ st.refused, x.id = m) ∨
    ∃ line e, lineOf T input m = some line ∧ (line, e) ∈ st.entries.entries

/-- Every entry stands by its own line. -/
def EntriesOwn (T : PlacementText) (input : PlacementInput) (st : SetAsides) : Prop :=
  ∀ k e, (k, e) ∈ st.entries.entries → e.key = k ∧ lineOf T input e.setAside = some k

theorem setAsideEntry_ok {m : String} {e : SetAsideEntry}
    (taken : setAsideEntry T input row m = .ok e) :
    e.setAside = m ∧ lineOf T input m = some e.key := by
  unfold setAsideEntry at taken
  cases resolved : input.index.resolve m with
  | none =>
    rw [resolved] at taken
    cases taken
  | some canonical =>
    rw [resolved] at taken
    dsimp only at taken
    by_cases blank : Text.trim (row.ground.getD "") = ""
    · rw [if_pos blank] at taken
      cases taken
    · rw [if_neg blank] at taken
      split at taken
      · cases taken
      · obtain rfl := Except.ok.inj taken
        refine ⟨rfl, ?_⟩
        unfold lineOf
        rw [resolved]
        rfl

theorem mem_pushRefusal {refused : List Refusal} {x y : Refusal} :
    x ∈ pushRefusal refused y ↔ x ∈ refused ∨ x = y := by
  unfold pushRefusal
  split
  · rename_i there
    constructor
    · exact .inl
    · rintro (mem | rfl)
      · exact mem
      · exact there
  · simp

theorem takeMember_own {m : String} {st : SetAsides} (own : EntriesOwn T input st) :
    EntriesOwn T input (takeMember T input row st m) := by
  unfold takeMember
  split
  · exact own
  · rename_i e taken
    intro k e' mem
    obtain ⟨rfl, rfl⟩ | ⟨-, mem⟩ := Keyed.mem_set.mp mem
    · obtain ⟨rfl, line⟩ := setAsideEntry_ok taken
      exact ⟨rfl, line⟩
    · exact own k e' (Keyed.mem_erase.mp mem).1

theorem takeMember_keeps {m m' : String} {st : SetAsides} (there : MemberSettled T input m st) :
    MemberSettled T input m (takeMember T input row st m') := by
  unfold takeMember
  obtain ⟨x, mem, is⟩ | ⟨line, e, isLine, mem⟩ := there
  · split
    · exact .inl ⟨x, mem_pushRefusal.mpr (.inl mem), is⟩
    · exact .inl ⟨x, mem, is⟩
  · split
    · exact .inr ⟨line, e, isLine, mem⟩
    · rename_i e' taken
      by_cases same : line = e'.key
      · exact .inr ⟨line, e', isLine, Keyed.mem_set.mpr (.inl ⟨same, rfl⟩)⟩
      · exact .inr ⟨line, e, isLine,
          Keyed.mem_set.mpr (.inr ⟨same, Keyed.mem_erase.mpr ⟨mem, same⟩⟩)⟩

theorem takeMember_makes {m : String} (st : SetAsides) :
    MemberSettled T input m (takeMember T input row st m) := by
  unfold takeMember
  split
  · rename_i why refused
    exact .inl ⟨⟨m, why⟩, mem_pushRefusal.mpr (.inr rfl), rfl⟩
  · rename_i e taken
    obtain ⟨-, line⟩ := setAsideEntry_ok taken
    exact .inr ⟨e.key, e, line, Keyed.mem_set_self⟩

/-- What the pass over the set-asides leaves, before retractions. -/
def setAsidePass (T : PlacementText) (input : PlacementInput) (prior : Submission)
    (submitted : Option Submission) : SetAsides :=
  (prior.setAside ++ (submitted.getD {}).setAside ++ (submitted.getD {}).rows).foldl
    (takeSetAside T input) {}

theorem form_setAsideRefused :
    (unionPlacementForm T input prior submitted).form.setAsideRefused =
      (setAsidePass T input prior submitted).refused := rfl

theorem form_setAside :
    (unionPlacementForm T input prior submitted).form.setAside =
      ((setAsidePass T input prior submitted).entries.keepIf fun _ e =>
        !(decide (e.setAside ∈ goneIds T submitted) ||
          decide (T.upper e.setAside ∈ goneIds T submitted))).entries.map (·.2) := rfl

theorem setAsidePass_own : EntriesOwn T input (setAsidePass T input prior submitted) := by
  refine List.foldlRecOn (motive := EntriesOwn T input) _ (takeSetAside T input)
    (fun k e mem => by cases mem) fun st own row _ => ?_
  exact List.foldlRecOn (motive := EntriesOwn T input) _ (takeMember T input row) own
    fun st own m _ => takeMember_own own

theorem takeSetAside_keeps {m : String} {st : SetAsides} (there : MemberSettled T input m st) :
    MemberSettled T input m (takeSetAside T input st row) := by
  unfold takeSetAside
  exact List.foldlRecOn (motive := MemberSettled T input m) _ (takeMember T input row) there
    fun st there m' _ => takeMember_keeps there

theorem takeSetAside_makes {m : String} (member : m ∈ setAsideMembers row) (st : SetAsides) :
    MemberSettled T input m (takeSetAside T input st row) := by
  unfold takeSetAside
  exact foldl_makes (MemberSettled T input m) (takeMember T input row) member
    (fun st m' there => takeMember_keeps there) (fun st => takeMember_makes st) st

theorem setAsidePass_settles {m : String} (mem : s ∈ submittedRows submitted)
    (member : m ∈ setAsideMembers s) :
    MemberSettled T input m (setAsidePass T input prior submitted) := by
  have there : s ∈ prior.setAside ++ (submitted.getD {}).setAside ++ (submitted.getD {}).rows :=
    List.mem_append_right _ mem
  unfold setAsidePass
  exact foldl_makes (MemberSettled T input m) (takeSetAside T input) there
    (fun st row there => takeSetAside_keeps there) (fun st => takeSetAside_makes member st) {}

theorem setAsideFate {m : String} (mem : s ∈ submittedRows submitted)
    (member : m ∈ setAsideMembers s) :
    SetAsideFate T input submitted (unionPlacementForm T input prior submitted).form m := by
  have settled : MemberSettled T input m (setAsidePass T input prior submitted) :=
    setAsidePass_settles mem member
  obtain refused | ⟨line, e, isLine, there⟩ := settled
  · refine .inl ?_
    rw [form_setAsideRefused]
    exact refused
  · refine .inr ⟨line, isLine, ?_⟩
    obtain ⟨rfl, ofEntry⟩ := setAsidePass_own line e there
    by_cases gone : Retracts T submitted e.setAside
    · exact .inr ⟨e.setAside, ofEntry, gone⟩
    · obtain ⟨absent, absent'⟩ := not_or.mp gone
      rw [form_setAside]
      exact .inl ⟨e, List.mem_map.mpr
        ⟨(e.key, e), Keyed.mem_keepIf.mpr ⟨there, by simp [absent, absent']⟩, rfl⟩, rfl⟩

/-- What the pass over the groups' rows has made of a row. -/
def GroupSettled (T : PlacementText) (row : Row) (st : GroupRows) : Prop :=
  (∃ x ∈ st.refused, x.id = Text.trim (row.setAsideGroup.getD "")) ∨
    ∃ g e, groupName T (row.setAsideGroup.getD "") = some g ∧ e.setAsideGroup = g ∧
      (g, e) ∈ st.entries.entries

theorem groupEntry_ok {e : GroupEntry} (taken : groupEntry T input row = .ok e) :
    groupName T (row.setAsideGroup.getD "") = some e.setAsideGroup := by
  unfold groupEntry at taken
  split at taken
  · cases taken
  · rename_i g named
    dsimp only at taken
    split at taken
    · cases taken
    · obtain rfl := Except.ok.inj taken
      exact named

theorem takeGroup_keeps {st : GroupRows} (there : GroupSettled T s st) :
    GroupSettled T s (takeGroup T input st row) := by
  unfold takeGroup
  obtain ⟨x, mem, is⟩ | ⟨g, e, named, own, mem⟩ := there
  · split
    · exact .inl ⟨x, mem_pushRefusal.mpr (.inl mem), is⟩
    · exact .inl ⟨x, mem, is⟩
  · split
    · exact .inr ⟨g, e, named, own, mem⟩
    · rename_i e' taken
      by_cases same : g = e'.setAsideGroup
      · exact .inr ⟨g, e', named, same.symm, Keyed.mem_set.mpr (.inl ⟨same, rfl⟩)⟩
      · exact .inr ⟨g, e, named, own,
          Keyed.mem_set.mpr (.inr ⟨same, Keyed.mem_erase.mpr ⟨mem, same⟩⟩)⟩

theorem takeGroup_makes (st : GroupRows) : GroupSettled T row (takeGroup T input st row) := by
  unfold takeGroup
  split
  · exact .inl ⟨_, mem_pushRefusal.mpr (.inr rfl), rfl⟩
  · rename_i e taken
    exact .inr ⟨_, e, groupEntry_ok taken, rfl, Keyed.mem_set_self⟩

/-- What the pass over the groups' rows leaves, before retractions. -/
def groupPass (T : PlacementText) (input : PlacementInput) (prior : Submission)
    (submitted : Option Submission) : GroupRows :=
  ((prior.setAside ++ (submitted.getD {}).setAside ++ (submitted.getD {}).rows).filter
    isSetAsideGroupRow).foldl (takeGroup T input) {}

theorem form_groupRefused :
    (unionPlacementForm T input prior submitted).form.groupRefused =
      (groupPass T input prior submitted).refused := rfl

theorem form_setAsideGroups :
    (unionPlacementForm T input prior submitted).form.setAsideGroups =
      ((groupPass T input prior submitted).entries.keepIf fun g _ =>
        !(decide ("group:" ++ g.text ∈ goneIds T submitted) ||
          decide (T.upper ("group:" ++ g.text) ∈ goneIds T submitted))).entries.map fun ge =>
        (unionParts T input prior submitted).coveredEntry T input ge.2 := rfl

theorem groupFate (mem : s ∈ submittedRows submitted) (isGroup : isSetAsideGroupRow s = true) :
    GroupFate T submitted (unionPlacementForm T input prior submitted).form s := by
  have settles : GroupSettled T s (groupPass T input prior submitted) := by
    have there : s ∈ (prior.setAside ++ (submitted.getD {}).setAside ++
        (submitted.getD {}).rows).filter isSetAsideGroupRow :=
      List.mem_filter.mpr ⟨List.mem_append_right _ mem, isGroup⟩
    unfold groupPass
    exact foldl_makes (GroupSettled T s) (takeGroup T input) there
      (fun st row there => takeGroup_keeps there) (fun st => takeGroup_makes st) {}
  obtain refused | ⟨g, e, named, own, there⟩ := settles
  · refine .inl ?_
    rw [form_groupRefused]
    exact refused
  · refine .inr ⟨g, named, ?_⟩
    by_cases gone : Retracts T submitted ("group:" ++ g.text)
    · exact .inr gone
    · obtain ⟨absent, absent'⟩ := not_or.mp gone
      rw [form_setAsideGroups]
      exact .inl ⟨_, List.mem_map.mpr
        ⟨(g, e), Keyed.mem_keepIf.mpr ⟨there, by simp [absent, absent']⟩, rfl⟩, own⟩

end Clearotron.Placement
