import Clearotron.Synthesis.Record

/-!
# Runs of calls, cuts and rollbacks

A run records calls, holds the files before a corrective pass, and puts them back when the pass
is rolled back. What a run promises is stated of its steps: what a call may leave of the three
files, and which record the next patch is merged onto. The writes of an accepted call are not
one write, nor are those of a rollback, so a cut between them breaks the promise, and a run
without such a cut keeps it.
-/

namespace Clearotron

namespace Synthesis

variable {Reads Received Call Doc Text : Type} (X : Transport Reads Received Call Doc Text)

/-- The three files render one accepted call: findings.json as it was accepted, or folded. -/
def Renders (files : Files Call Doc Text) (call : Call) : Prop :=
  ∃ reads against v, X.acceptSynthesis reads against call = .ok v ∧
    (files.findings = .holds v.findings ∨
      ∃ reads', files.findings = .holds (X.foldAfterSave reads' v.findings)) ∧
    files.narrative = .holds v.narrative ∧ files.accepted = .holds call

/-- Nothing was recorded yet, or the three files belong together. -/
def Together (files : Files Call Doc Text) : Prop := files = {} ∨ ∃ call, Renders X files call

/-- A run: its files, and what its corrective passes hold to put back. -/
structure Run (Call Doc Text : Type) where
  files : Files Call Doc Text := {}
  snaps : List (Files Call Doc Text) := []
  deriving DecidableEq

inductive Event (Reads Received Call Doc Text : Type)
  | call (reads : Reads) (received : Received)
  /-- a call whose writes are cut, by a failure or a kill, after `count` of them -/
  | cutCall (reads : Reads) (received : Received) (count : Nat) (tears : Bool)
  /-- a corrective pass begins -/
  | snapshot
  | rollback (snap : Files Call Doc Text) (back : PutBack)

/-- The files after a call whose writes all land. -/
def recorded (reads : Reads) (received : Received) (files : Files Call Doc Text) :
    Files Call Doc Text :=
  match recordSynthesis X reads files.lastAcceptedCall received with
  | .accepted call v =>
    let files := files.writeAll (writesOf call v)
    { files with findings := .holds (X.foldAfterSave reads v.findings) }
  | _ => files

inductive Step : Run Call Doc Text → Event Reads Received Call Doc Text → Run Call Doc Text → Prop
  | call {st : Run Call Doc Text} (reads : Reads) (received : Received) :
      Step st (.call reads received) { st with files := recorded X reads received st.files }
  | cutCall {st : Run Call Doc Text} {reads : Reads} {received : Received} {call : Call}
      {v : Rendered Doc Text} (count : Nat) (tears : Bool)
      (accepted : recordSynthesis X reads st.files.lastAcceptedCall received = .accepted call v) :
      Step st (.cutCall reads received count tears)
        { st with files := st.files.cut (writesOf call v) count tears }
  /-- a record that cannot be read leaves nothing to put back -/
  | snapshot {st : Run Call Doc Text} (readable : st.files.findings ≠ .absent) :
      Step st .snapshot { st with snaps := st.files :: st.snaps }
  | rollback {st : Run Call Doc Text} {snap : Files Call Doc Text} (back : PutBack)
      (held : snap ∈ st.snaps) :
      Step st (.rollback snap back) { st with files := rollback st.files snap back }

/-- What a step promises of the three files. -/
def Keeps (before after : Files Call Doc Text) : Event Reads Received Call Doc Text → Prop
  | .call reads received =>
    match recordSynthesis X reads before.lastAcceptedCall received with
    | .accepted call _ => Renders X after call
    | _ => after = before
  | .cutCall reads received _ _ =>
    match recordSynthesis X reads before.lastAcceptedCall received with
    | .accepted call _ => after = before ∨ Renders X after call
    | _ => after = before
  | .snapshot => after = before
  | .rollback snap _ => after = snap

/-- The base the next patch is merged onto is the record that stands. -/
def PatchesTheRecord (files : Files Call Doc Text) : Prop :=
  ∀ base, files.lastAcceptedCall = some base → Renders X files base

/-- What a run through these events promises of each state it reaches. -/
structure Promises (allowed : Run Call Doc Text → Event Reads Received Call Doc Text → Prop)
    (st : Run Call Doc Text) : Prop where
  together : Together X st.files
  patches : PatchesTheRecord X st.files
  steps : ∀ e st', allowed st e → Step X st e st' → Keeps X st.files st'.files e

/-- The run goes through these events only. -/
def StepWhere (allowed : Run Call Doc Text → Event Reads Received Call Doc Text → Prop)
    (st st' : Run Call Doc Text) : Prop := ∃ e, allowed st e ∧ Step X st e st'

/-- An accepted call's writes are cut before the first or after the last, with none torn, and a
rollback puts back every file that differs. -/
def Uncut (st : Run Call Doc Text) : Event Reads Received Call Doc Text → Prop
  | .cutCall _ _ count tears => 3 ≤ count ∨ count = 0 ∧ tears = false
  | .rollback snap back => back.Whole st.files snap
  | _ => True

section

variable {X}
variable {files snap : Files Call Doc Text} {call : Call} {v : Rendered Doc Text}

@[simp] theorem writeAll_writesOf :
    files.writeAll (writesOf call v) =
      ⟨.holds v.findings, .holds v.narrative, .holds call⟩ := rfl

theorem cut_none : files.cut (writesOf call v) 0 false = files := rfl

theorem cut_all {count : Nat} {tears : Bool} (all : 3 ≤ count) :
    files.cut (writesOf call v) count tears = files.writeAll (writesOf call v) := by
  have past : (writesOf call v)[count]? = none := List.getElem?_eq_none all
  have taken : (writesOf call v).take count = writesOf call v := List.take_of_length_le all
  simp only [Files.cut, past, taken]

/-- An accepted call was accepted by the function that renders it. -/
theorem accept_of_accepted {reads : Reads} {stored : Option Call} {received : Received}
    (accepted : recordSynthesis X reads stored received = .accepted call v) :
    ∃ against, X.acceptSynthesis reads against call = .ok v := by
  unfold recordSynthesis at accepted
  split at accepted
  · split at accepted <;> cases accepted
  · dsimp only at accepted
    split at accepted
    · cases accepted
    · split at accepted
      · cases accepted
      · split at accepted
        · cases accepted
        · next passes =>
            obtain ⟨rfl, rfl⟩ := Outcome.accepted.inj accepted
            exact ⟨_, passes⟩

theorem renders_of_writes {reads : Reads} {stored : Option Call} {received : Received}
    (accepted : recordSynthesis X reads stored received = .accepted call v) :
    Renders X (files.writeAll (writesOf call v)) call := by
  obtain ⟨against, passes⟩ := accept_of_accepted accepted
  exact ⟨reads, against, v, passes, .inl rfl, rfl, rfl⟩

theorem renders_of_recorded {reads : Reads} {received : Received}
    (accepted : recordSynthesis X reads files.lastAcceptedCall received = .accepted call v) :
    Renders X (recorded X reads received files) call := by
  obtain ⟨against, passes⟩ := accept_of_accepted accepted
  unfold recorded
  rw [accepted]
  exact ⟨reads, against, v, passes, .inr ⟨reads, rfl⟩, rfl, rfl⟩

/-- Files that belong together give the next patch the record that stands, or none. -/
theorem Together.patches (together : Together X files) : PatchesTheRecord X files := by
  intro base held
  obtain rfl | ⟨call, renders⟩ := together
  · cases held
  · have stored : files.accepted = .holds call := renders.choose_spec.choose_spec.choose_spec.2.2.2
    have same : call = base := by simpa [Files.lastAcceptedCall, stored, Held.read] using held
    exact same ▸ renders

/-- Where findings.json stands beside the others, so does the narrative. -/
theorem Together.narrative (together : Together X files) (readable : files.findings ≠ .absent) :
    files.narrative ≠ .absent := by
  obtain rfl | ⟨call, -, -, v, -, -, held, -⟩ := together
  · exact absurd rfl readable
  · rw [held]
    exact nofun

/-- A rollback that puts back every file that differs leaves the files of the snapshot. -/
theorem rollback_whole {back : PutBack} (whole : back.Whole files snap)
    (narrative : snap.narrative ≠ .absent) : rollback files snap back = snap := by
  obtain ⟨findings', accepted', narrative'⟩ := whole
  obtain ⟨findings, narrativeHeld, accepted⟩ := snap
  simp only [rollback, Files.mk.injEq]
  refine ⟨?_, ?_, ?_⟩
  · split
    · rfl
    · next missed => exact findings'.resolve_left missed
  · cases narrativeHeld with
    | absent => exact absurd rfl narrative
    | torn =>
        split
        · rfl
        · next missed => exact narrative'.resolve_left missed
    | holds text =>
        split
        · rfl
        · next missed => exact narrative'.resolve_left missed
  · split
    · rfl
    · next missed => exact accepted'.resolve_left missed

end

/-- Every state a run reaches, and every snapshot it holds, has its files together; a snapshot
holds a record. -/
structure Sound (st : Run Call Doc Text) : Prop where
  files : Together X st.files
  snaps : ∀ snap ∈ st.snaps, Together X snap ∧ snap.findings ≠ .absent

section

variable {X}
variable {st st' : Run Call Doc Text} {e : Event Reads Received Call Doc Text}

/-- The files after a step that was not cut are the ones it promises. -/
theorem Sound.keeps (sound : Sound X st) (uncut : Uncut st e) (step : Step X st e st') :
    Keeps X st.files st'.files e := by
  cases step with
  | call reads received =>
      cases outcome : recordSynthesis X reads st.files.lastAcceptedCall received with
      | saved => simp [Keeps, recorded, outcome]
      | refused reason => simp [Keeps, recorded, outcome]
      | accepted call v =>
          simp only [Keeps, outcome]
          exact renders_of_recorded outcome
  | @cutCall reads received call v count tears accepted =>
      simp only [Keeps, accepted]
      obtain all | ⟨rfl, rfl⟩ := uncut
      · rw [cut_all all]
        exact .inr (renders_of_writes accepted)
      · exact .inl cut_none
  | snapshot readable => rfl
  | rollback back held =>
      obtain ⟨together, readable⟩ := sound.snaps _ held
      exact rollback_whole uncut (together.narrative readable)

/-- Files a step leaves as it promises are together. -/
theorem Sound.together (sound : Sound X st) (step : Step X st e st')
    (keeps : Keeps X st.files st'.files e) : Together X st'.files := by
  cases step with
  | call reads received =>
      simp only [Keeps] at keeps
      split at keeps
      · exact .inr ⟨_, keeps⟩
      · exact (congrArg (Together X) keeps).mpr sound.files
  | cutCall count tears accepted =>
      simp only [Keeps, accepted] at keeps
      obtain same | renders := keeps
      · exact (congrArg (Together X) same).mpr sound.files
      · exact .inr ⟨_, renders⟩
  | snapshot readable => exact sound.files
  | rollback back held => exact (congrArg (Together X) keeps).mpr (sound.snaps _ held).1

theorem Sound.step (sound : Sound X st) (uncut : Uncut st e) (step : Step X st e st') :
    Sound X st' where
  files := sound.together step (sound.keeps uncut step)
  snaps := by
    cases step with
    | snapshot readable =>
        intro snap mem
        obtain rfl | mem := List.mem_cons.mp mem
        · exact ⟨sound.files, readable⟩
        · exact sound.snaps snap mem
    | _ => exact sound.snaps

theorem sound_of_run (reached : Reaches (· = {}) (StepWhere X Uncut) st) : Sound X st := by
  refine reached.invariant ?_ ?_
  · rintro _ rfl
    exact ⟨.inl rfl, by simp⟩
  · rintro s s' sound ⟨e, uncut, step⟩
    exact sound.step uncut step

end

/-- In a run none of whose accepted calls is cut between its writes, and none of whose rollbacks
leaves a file that differs, the three files always belong together, every step leaves them as
it promises, and the next patch is merged onto the record that stands. -/
theorem uncut_runs_keep {st : Run Call Doc Text}
    (reached : Reaches (· = {}) (StepWhere X Uncut) st) : Promises X Uncut st := by
  have sound := sound_of_run reached
  exact ⟨sound.files, sound.files.patches, fun e st' uncut step => sound.keeps uncut step⟩

/-- A transport over numbered records: a patch sends one half, and a record of two halves passes. -/
def numbered : Transport Unit (Option Nat × Option Nat) (Option Nat × Option Nat) Nat Nat where
  saves _ := none
  readSynthesisCall _ _ received := received
  half call := call.1.isNone || call.2.isNone
  registerPatchOf _ _ _ := false
  rejectedRow _ _ _ := none
  mergeSynthesisPatch _ base patch := .ok (patch.1 <|> base.1, patch.2 <|> base.2)
  blankOnRepeat _ call := call
  withSavedFindings _ call := call
  withoutUseChecks _ _ call := call
  acceptSynthesis _ _ call :=
    match call with
    | (some findings, some narrative) => .ok ⟨findings, narrative⟩
    | _ => .error "synthesis_record_unparseable"
  foldAfterSave _ doc := doc

/-- The first record, whole. -/
def firstCall : Event Unit (Option Nat × Option Nat) (Option Nat × Option Nat) Nat Nat :=
  .call () (some 1, some 1)

def afterFirst : Run (Option Nat × Option Nat) Nat Nat where
  files := ⟨.holds 1, .holds 1, .holds (some 1, some 1)⟩

theorem first_step : Step numbered {} firstCall afterFirst := Step.call (X := numbered) () _

/-- The files once a patch gave the record its second findings. -/
def afterPatch : Run (Option Nat × Option Nat) Nat Nat where
  files := ⟨.holds 2, .holds 1, .holds (some 2, some 1)⟩
  snaps := [afterFirst.files]

/-- A first record, a corrective pass that patches its findings, and the rollback of the pass. -/
theorem uncut_runs_keep_rollback :
    Promises numbered Uncut { afterFirst with snaps := [afterFirst.files] } := by
  have recorded' : Reaches (· = {}) (StepWhere numbered Uncut) afterFirst :=
    .step (.start rfl) ⟨firstCall, trivial, first_step⟩
  have begun : Reaches (· = {}) (StepWhere numbered Uncut)
      { afterFirst with snaps := [afterFirst.files] } :=
    .step recorded' ⟨.snapshot, trivial, .snapshot (by decide)⟩
  have patched : Reaches (· = {}) (StepWhere numbered Uncut) afterPatch :=
    .step begun ⟨.call () (some 2, none), trivial, .call () _⟩
  exact uncut_runs_keep numbered (.step patched
    ⟨.rollback afterFirst.files ⟨true, true, true⟩, by simp [Uncut, PutBack.Whole],
      .rollback _ (by decide)⟩)

/-- The second record replaces findings.json, and the write of the narrative fails: the findings
are the new record's, the narrative and the base are the old one's. -/
theorem cut_call_parts_the_files :
    ¬ ∀ st, Reaches (· = {}) (StepWhere numbered fun _ _ => True) st →
      Promises numbered (fun _ _ => True) st := by
  intro promised
  have first : Reaches (· = {}) (StepWhere numbered fun _ _ => True) afterFirst :=
    .step (.start rfl) ⟨firstCall, trivial, first_step⟩
  have accepted : recordSynthesis numbered () afterFirst.files.lastAcceptedCall
      (some 2, some 2) = .accepted (some 2, some 2) ⟨2, 2⟩ := by decide
  have kept := (promised _ first).steps _ _ trivial (Step.cutCall 1 false accepted)
  simp only [Keeps, accepted] at kept
  obtain same | ⟨reads, against, v, passes, -, narrative, held⟩ := kept
  · exact absurd same (by decide)
  · exact absurd held (by decide)

end Synthesis

end Clearotron
