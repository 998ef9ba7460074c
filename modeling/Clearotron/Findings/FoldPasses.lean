import Clearotron.Library.Reaches
import Clearotron.Findings.FoldFiles
import Clearotron.Findings.FoldRecord

/-!
# Passes over a folded record

A run saves the record, folds it at the seam, opens passes, and puts a snapshot back when a pass
is rolled back; a crash in any of these is followed by a pass that opens again. The record in
force is the one the last save wrote, or the one a rollback put back.
-/

namespace Clearotron

namespace Findings

/-- What a run holds: the files, the record in force, and the snapshots with the record each is of. -/
structure FoldRun where
  files : FoldFiles := {}
  record : Option ParsedDoc := none
  snaps : List (ParsedDoc × Snapshot) := []

inductive FoldEvent
  /-- an accepted save -/
  | save (p : ParsedDoc)
  | seam
  | openPass
  | snapshot
  | rollback (snap : ParsedDoc × Snapshot)

section

variable (T : FindingTexts) (M : Option Manifest) (parses : Doc → Bool)

def writesOf (files : FoldFiles) : FoldEvent → List FoldWrite
  | .save p => saveRecord T M parses files p.doc
  | .seam => foldFindingsFile T M parses files true
  | .openPass => openPass files
  | .snapshot => []
  | .rollback snap => rollback files snap.2

def recordAfter (record : Option ParsedDoc) : FoldEvent → Option ParsedDoc
  | .save p => some p
  | .rollback snap => some snap.1
  | _ => record

def snapsAfter (st : FoldRun) : FoldEvent → List (ParsedDoc × Snapshot)
  | .snapshot =>
    match st.record, st.files.findings with
    | some p, some doc => (p, snapshotFold st.files doc) :: st.snaps
    | _, _ => st.snaps
  | _ => st.snaps

def complete (st : FoldRun) (e : FoldEvent) : FoldRun where
  files := st.files.writeAll (writesOf T M parses st.files e)
  record := recordAfter st.record e
  snaps := snapsAfter st e

/-- The run crashes after this many writes, and resumes. -/
def crash (st : FoldRun) (e : FoldEvent) (count : ℕ) : FoldRun :=
  let done := (writesOf T M parses st.files e).take count
  let files := st.files.writeAll done
  { st with
    files := files.writeAll (openPass files)
    record := if done = [] then st.record else recordAfter st.record e }

/-- What folds in the document gives one the parser accepts. -/
def FoldsToParse (doc : Doc) : Prop :=
  (foldRecord T doc M).merges ≠ [] → parses (foldRecord T doc M).doc = true

/-- A record saved or folded past the seam folds to one the parser accepts, a folded record folds
no further, and past the seam no snapshot is put back of a record that was still to be folded. -/
def PlainFold (st : FoldRun) : FoldEvent → Prop
  | .save p => st.files.seamPassed = true → FoldsToParse T M parses p.doc
  | .seam => ∀ doc ∈ st.files.findings,
    FoldsToParse T M parses doc ∧ ((foldRecord T doc M).merges ≠ [] → st.files.map = none)
  | .rollback snap => st.files.seamPassed = true → snap.2.map = none →
    (foldRecord T snap.2.findings M).merges = []
  | _ => True

def FoldWrite.isFold : FoldWrite → Bool
  | .fold _ => true
  | _ => false

def FoldWrite.isFolded : FoldWrite → Bool
  | .folded _ => true
  | _ => false

/-- A crash falls before the first write, or after the state of the fold was written, or where no
fold is in force and none has been put into findings.json. -/
def HarmlessCrash (st : FoldRun) (e : FoldEvent) (count : ℕ) : Prop :=
  let done := (writesOf T M parses st.files e).take count
  done = [] ∨ (∃ w ∈ done, w.isFold = true) ∨ (st.files.map = none ∧ ∀ w ∈ done, w.isFolded = false)

/-- Can the event happen: is the snapshot one that was taken? -/
def MayHappen (st : FoldRun) : FoldEvent → Prop
  | .rollback snap => snap ∈ st.snaps
  | _ => True

/-- A plain step: an event in full, or one that a harmless crash has cut. -/
def PlainFoldStep (st st' : FoldRun) : Prop :=
  ∃ e, MayHappen st e ∧ PlainFold T M parses st e ∧
    (st' = complete T M parses st e ∨
      ∃ count, HarmlessCrash T M parses st e count ∧ st' = crash T M parses st e count)

/-- The record can be read back: it is findings.json and no fold is in force, or it is kept beside
its fold. -/
def Readable (p : ParsedDoc) (files : FoldFiles) : Prop :=
  (files.map = none ∧ files.findings = some p.doc) ∨
    ((foldRecord T p.doc M).merges ≠ [] ∧ files.map = (foldRecord T p.doc M).map ∧
      files.merges = mergeOrdinals (foldRecord T p.doc M).merges ∧
      files.findings = some (foldRecord T p.doc M).doc ∧ files.unfolded = some p.doc)

def Together (record : Option ParsedDoc) (files : FoldFiles) : Prop :=
  match record with
  | none => files.map = none ∧ files.findings = none
  | some p => Readable T M p files ∧
    (files.seamPassed = true → files.findings = some (foldRecord T p.doc M).doc)

/-- The snapshot is of the record. -/
def IsOf (snap : ParsedDoc × Snapshot) : Prop :=
  (snap.2.map = none ∧ snap.2.findings = snap.1.doc) ∨
    ((foldRecord T snap.1.doc M).merges ≠ [] ∧ snap.2.map = (foldRecord T snap.1.doc M).map ∧
      (snap.2.fold.map FoldState.merges).getD [] = mergeOrdinals (foldRecord T snap.1.doc M).merges ∧
      snap.2.findings = (foldRecord T snap.1.doc M).doc ∧ snap.2.unfolded = some snap.1.doc)

structure FoldInv (st : FoldRun) : Prop where
  together : Together T M st.record st.files
  snaps : ∀ snap ∈ st.snaps, IsOf T M snap

end

variable {T : FindingTexts} {M : Option Manifest} {parses : Doc → Bool} {files : FoldFiles}
  {p : ParsedDoc} {st st' : FoldRun} {record : Option ParsedDoc} {snap : ParsedDoc × Snapshot}

@[simp] theorem map_write_fold (state : FoldState) : (files.write (.fold state)).map = state.map := rfl

@[simp] theorem seamPassed_write_fold (state : FoldState) :
    (files.write (.fold state)).seamPassed = state.seamPassed := rfl

@[simp] theorem merges_write_fold (state : FoldState) :
    (files.write (.fold state)).merges = state.merges := rfl

theorem map_ne_none {doc : Doc} (some' : (foldRecord T doc M).merges ≠ []) :
    (foldRecord T doc M).map ≠ none := fun none' => some' (map_eq_none_iff.mp none')

/-- A record that can be read back can be read once a pass has opened. -/
theorem Readable.openPass (readable : Readable T M p files) :
    Together T M (some p) (files.writeAll (openPass files)) := by
  unfold Findings.openPass
  cases held : files.fold with
  | none => exact ⟨readable, by simp [FoldFiles.writeAll, FoldFiles.seamPassed, held]⟩
  | some state =>
    dsimp only
    by_cases passed : state.seamPassed = true
    · rw [if_pos passed]
      refine ⟨?_, by simp [FoldFiles.writeAll]⟩
      simpa [Readable, FoldFiles.writeAll, FoldFiles.write, FoldFiles.map, FoldFiles.merges, held]
        using readable
    · rw [if_neg passed]
      exact ⟨readable, by simp [FoldFiles.writeAll, FoldFiles.seamPassed, held, passed]⟩

theorem Together.openPass (together : Together T M record files) :
    Together T M record (files.writeAll (openPass files)) := by
  cases record with
  | some p => exact together.1.openPass
  | none =>
    unfold Findings.openPass
    cases held : files.fold with
    | none => exact together
    | some state =>
      have none' : state.map = none := by simpa [FoldFiles.map, held] using together.1
      dsimp only
      split
      · exact ⟨by simpa [FoldFiles.writeAll] using none', together.2⟩
      · exact together

/-- The fold of a record that stands in findings.json with no fold in force. -/
theorem together_fold (none' : files.map = none ∨ seam = false) (is : files.findings = some p.doc)
    (passed : seam = true ∨ files.seamPassed = true) (parse : FoldsToParse T M parses p.doc) :
    Together T M (some p) (files.writeAll (foldFindingsFile T M parses files seam)) := by
  have asked : (!seam && !files.seamPassed) = false := by
    obtain h | h := passed <;> simp [h]
  have notHeld : (seam && files.map.isSome && files.unfolded.isSome) = false := by
    obtain h | h := none' <;> simp [h]
  unfold foldFindingsFile
  rw [asked, is]
  simp only [Bool.false_eq_true, if_false]
  by_cases single : (foldRecord T p.doc M).merges = []
  · rw [if_pos single, notHeld, if_neg (by simp)]
    refine ⟨.inl ⟨rfl, is⟩, fun _ => ?_⟩
    rw [foldRecord_of_merges single]
    exact is
  · rw [if_neg single, if_pos (parse single)]
    exact ⟨.inr ⟨single, rfl, rfl, rfl, rfl⟩, fun _ => rfl⟩

theorem together_save (parse : files.seamPassed = true → FoldsToParse T M parses p.doc) :
    Together T M (some p) (files.writeAll (saveRecord T M parses files p.doc)) := by
  have written : (files.write (.record p.doc)).findings = some p.doc := rfl
  have same : (files.write (.record p.doc)).seamPassed = files.seamPassed := rfl
  unfold saveRecord
  show Together T M (some p) ((files.write (.record p.doc)).writeAll _)
  cases passed : files.seamPassed with
  | true => exact together_fold (.inr rfl) written (.inr passed) (parse passed)
  | false =>
    unfold foldFindingsFile
    rw [same, passed]
    simp only [Bool.not_false, Bool.and_self, if_true]
    cases held : (files.write (.record p.doc)).map with
    | none => exact ⟨.inl ⟨held, rfl⟩, fun h => absurd (same.symm.trans h) (by simp [passed])⟩
    | some map => exact ⟨.inl ⟨rfl, rfl⟩, fun h => by cases h⟩

theorem together_seam (together : Together T M record files)
    (plain : ∀ doc ∈ files.findings,
      FoldsToParse T M parses doc ∧ ((foldRecord T doc M).merges ≠ [] → files.map = none)) :
    Together T M record (files.writeAll (foldFindingsFile T M parses files true)) := by
  cases record with
  | none =>
    unfold foldFindingsFile
    rw [together.2]
    exact ⟨rfl, together.2⟩
  | some p =>
    obtain ⟨none', is⟩ | ⟨some', mapIs, mergesAre, is, kept⟩ := together.1
    · exact together_fold (.inl none') is (.inl rfl) (plain p.doc is).1
    · -- the fold stands: nothing folds in it, and its record is there
      have again : (foldRecord T (foldRecord T p.doc M).doc M).merges = [] := by
        by_contra more
        exact map_ne_none some' (mapIs.symm.trans ((plain _ is).2 more))
      obtain ⟨map, held⟩ := Option.ne_none_iff_exists'.mp (mapIs ▸ map_ne_none some' : files.map ≠ none)
      unfold foldFindingsFile
      rw [is]
      simp only [Bool.not_true, Bool.false_and, Bool.false_eq_true, if_false, again, if_true, held, kept,
        Option.isSome_some, Bool.and_self]
      refine ⟨.inr ⟨some', ?_, mergesAre, is, kept⟩, fun _ => is⟩
      exact held.symm.trans mapIs

theorem together_rollback (is : IsOf T M snap)
    (plain : files.seamPassed = true → snap.2.map = none →
      (foldRecord T snap.2.findings M).merges = []) :
    Together T M (some snap.1) (files.writeAll (rollback files snap.2)) := by
  obtain ⟨none', findings⟩ | ⟨some', mapIs, mergesAre, findings, kept⟩ := is
  · have past (passed : files.seamPassed = true) :
        some snap.2.findings = some (foldRecord T snap.1.doc M).doc := by
      have single := plain passed none'
      rw [findings] at single ⊢
      rw [foldRecord_of_merges single]
    unfold rollback restoreFold
    rw [none']
    dsimp only [Option.isSome_none]
    cases held : files.fold with
    | none =>
      refine ⟨.inl ⟨?_, congrArg some findings⟩, fun passed => ?_⟩
      · simp [FoldFiles.writeAll, FoldFiles.write, FoldFiles.map, held]
      · simp [FoldFiles.writeAll, FoldFiles.write, FoldFiles.seamPassed, held] at passed
    | some state => exact ⟨.inl ⟨rfl, congrArg some findings⟩, past⟩
  · obtain ⟨map, held⟩ := Option.ne_none_iff_exists'.mp (mapIs ▸ map_ne_none some' : snap.2.map ≠ none)
    unfold rollback restoreFold
    rw [held, kept]
    refine ⟨.inr ⟨some', held.symm.trans mapIs, mergesAre, congrArg some findings, rfl⟩, fun _ => ?_⟩
    exact congrArg some findings

/-- Writes that leave findings.json and the state of the fold. -/
def FoldWrite.isQuiet : FoldWrite → Bool
  | .unfolded _ | .noUnfolded => true
  | _ => false

theorem writeAll_quiet {writes : List FoldWrite} (quiet : ∀ w ∈ writes, w.isQuiet = true) :
    (files.writeAll writes).findings = files.findings ∧ (files.writeAll writes).fold = files.fold := by
  induction writes generalizing files with
  | nil => exact ⟨rfl, rfl⟩
  | cons w rest ih =>
    have step : ((files.write w).writeAll rest).findings = (files.write w).findings ∧
        ((files.write w).writeAll rest).fold = (files.write w).fold :=
      ih fun x mem => quiet x (List.mem_cons_of_mem _ mem)
    have first := quiet w List.mem_cons_self
    cases w with
    | unfolded doc => exact step
    | noUnfolded => exact step
    | record doc => cases first
    | folded doc => cases first
    | fold state => cases first

theorem not_record_of_fold {doc : Doc} {seam : Bool} :
    FoldWrite.record doc ∉ foldFindingsFile T M parses files seam := by
  unfold foldFindingsFile
  split
  · split <;> simp
  · split
    · simp
    · dsimp only
      split
      · split <;> simp
      · split <;> simp

theorem not_record_of_restore {doc : Doc} {snap : Snapshot} :
    FoldWrite.record doc ∉ restoreFold files snap := by
  unfold restoreFold
  split
  · simp
  · split <;> simp

theorem isQuiet_of {w : FoldWrite} (record : ∀ doc, w ≠ .record doc) (folded : w.isFolded = false)
    (fold : w.isFold = false) : w.isQuiet = true := by
  cases w with
  | record doc => exact absurd rfl (record doc)
  | folded doc => cases folded
  | fold state => cases fold
  | unfolded doc => rfl
  | noUnfolded => rfl

/-- A fold that is cut after its state was written can be read. -/
theorem readable_cut {count : ℕ} {seam : Bool} (none' : files.map = none ∨ seam = false)
    (is : files.findings = some p.doc)
    (parse : seam = true ∨ files.seamPassed = true → FoldsToParse T M parses p.doc)
    (cut : ∃ w ∈ (foldFindingsFile T M parses files seam).take count, w.isFold = true) :
    Readable T M p (files.writeAll ((foldFindingsFile T M parses files seam).take count)) := by
  have notHeld : (seam && files.map.isSome && files.unfolded.isSome) = false := by
    obtain h | h := none' <;> simp [h]
  revert cut
  unfold foldFindingsFile
  by_cases before : (!seam && !files.seamPassed) = true
  · rw [if_pos before]
    split
    · match count with
      | 0 => simp
      | 1 => exact fun _ => .inl ⟨rfl, is⟩
      | _ + 2 =>
        rw [List.take_of_length_le (by simp)]
        exact fun _ => .inl ⟨rfl, is⟩
    · simp
  · rw [if_neg before, is]
    dsimp only
    by_cases single : (foldRecord T p.doc M).merges = []
    · rw [if_pos single, notHeld, if_neg (by simp)]
      match count with
      | 0 => simp
      | 1 => exact fun _ => .inl ⟨rfl, is⟩
      | _ + 2 =>
        rw [List.take_of_length_le (by simp)]
        exact fun _ => .inl ⟨rfl, is⟩
    · have past : seam = true ∨ files.seamPassed = true := by
        by_contra neither
        obtain ⟨here, there⟩ := not_or.mp neither
        exact before (by simp [here, there])
      rw [if_neg single, if_pos (parse past single)]
      match count with
      | 0 => simp
      | 1 => simp [FoldWrite.isFold]
      | 2 => simp [FoldWrite.isFold]
      | _ + 3 =>
        rw [List.take_of_length_le (by simp)]
        exact fun _ => .inr ⟨single, rfl, rfl, rfl, rfl⟩

section Cut

variable {count : ℕ}

/-- What is written before the state of the fold leaves a record that no fold is in force over. -/
theorem readable_quiet {writes : List FoldWrite} (none' : files.map = none)
    (is : files.findings = some p.doc)
    (record : ∀ doc, FoldWrite.record doc ∉ writes)
    (folded : ∀ w ∈ writes, w.isFolded = false) (fold : ∀ w ∈ writes, w.isFold = false) :
    Readable T M p (files.writeAll writes) := by
  obtain ⟨findings, state⟩ : (files.writeAll writes).findings = files.findings ∧
      (files.writeAll writes).fold = files.fold := writeAll_quiet fun w mem =>
    isQuiet_of (fun doc same => record doc (same ▸ mem)) (folded w mem) (fold w mem)
  refine .inl ⟨?_, findings.trans is⟩
  unfold FoldFiles.map
  rw [state]
  exact none'

theorem no_fold {writes : List FoldWrite} (none' : ¬ ∃ w ∈ writes, w.isFold = true) :
    ∀ w ∈ writes, w.isFold = false := fun w mem => by
  rw [Bool.eq_false_iff]
  exact fun is => none' ⟨w, mem, is⟩

theorem readable_save_cut (parse : files.seamPassed = true → FoldsToParse T M parses p.doc)
    (some' : (saveRecord T M parses files p.doc).take count ≠ [])
    (harmless : (∃ w ∈ (saveRecord T M parses files p.doc).take count, w.isFold = true) ∨
      (files.map = none ∧
        ∀ w ∈ (saveRecord T M parses files p.doc).take count, w.isFolded = false)) :
    Readable T M p (files.writeAll ((saveRecord T M parses files p.doc).take count)) := by
  cases count with
  | zero => exact absurd rfl some'
  | succ count =>
    unfold saveRecord at harmless ⊢
    rw [List.take_succ_cons] at harmless ⊢
    show Readable T M p ((files.write (.record p.doc)).writeAll _)
    by_cases fold : ∃ w ∈ (foldFindingsFile T M parses (files.write (.record p.doc)) false).take count,
        w.isFold = true
    · exact readable_cut (.inr rfl) rfl (fun past => parse (past.resolve_left (by simp))) fold
    · obtain ⟨w, mem, is⟩ | ⟨none', folded⟩ := harmless
      · obtain rfl | mem := List.mem_cons.mp mem
        · cases is
        · exact absurd ⟨w, mem, is⟩ fold
      · exact readable_quiet none' rfl (fun doc mem => not_record_of_fold (List.mem_of_mem_take mem))
          (fun w mem => folded w (List.mem_cons_of_mem _ mem)) (no_fold fold)

theorem readable_seam_cut (readable : Readable T M p files)
    (plain : ∀ doc ∈ files.findings,
      FoldsToParse T M parses doc ∧ ((foldRecord T doc M).merges ≠ [] → files.map = none))
    (harmless : (∃ w ∈ (foldFindingsFile T M parses files true).take count, w.isFold = true) ∨
      (files.map = none ∧
        ∀ w ∈ (foldFindingsFile T M parses files true).take count, w.isFolded = false)) :
    Readable T M p (files.writeAll ((foldFindingsFile T M parses files true).take count)) := by
  obtain ⟨none', is⟩ | ⟨some', mapIs, mergesAre, is, kept⟩ := readable
  · by_cases fold : ∃ w ∈ (foldFindingsFile T M parses files true).take count, w.isFold = true
    · exact readable_cut (.inl none') is (fun _ => (plain _ is).1) fold
    · obtain fold' | ⟨-, folded⟩ := harmless
      · exact absurd fold' fold
      · exact readable_quiet none' is (fun doc mem => not_record_of_fold (List.mem_of_mem_take mem))
          folded (no_fold fold)
  · -- the fold stands, and its state is the one write there is
    have again : (foldRecord T (foldRecord T p.doc M).doc M).merges = [] := by
      by_contra more
      exact map_ne_none some' (mapIs.symm.trans ((plain _ is).2 more))
    obtain ⟨map, held⟩ := Option.ne_none_iff_exists'.mp (mapIs ▸ map_ne_none some' : files.map ≠ none)
    have writes : foldFindingsFile T M parses files true =
        [.fold { seamPassed := true, map := some map, merges := files.merges }] := by
      unfold foldFindingsFile
      rw [is]
      simp [again, held, kept]
    rw [writes]
    match count with
    | 0 => exact .inr ⟨some', mapIs, mergesAre, is, kept⟩
    | _ + 1 =>
      rw [List.take_of_length_le (by simp)]
      exact .inr ⟨some', held.symm.trans mapIs, mergesAre, is, kept⟩

theorem readable_rollback_cut (is : IsOf T M snap) (some' : (rollback files snap.2).take count ≠ [])
    (harmless : (∃ w ∈ (rollback files snap.2).take count, w.isFold = true) ∨
      (files.map = none ∧ ∀ w ∈ (rollback files snap.2).take count, w.isFolded = false)) :
    Readable T M snap.1 (files.writeAll ((rollback files snap.2).take count)) := by
  cases count with
  | zero => exact absurd rfl some'
  | succ count =>
    unfold rollback at harmless ⊢
    rw [List.take_succ_cons] at harmless ⊢
    obtain ⟨none', findings⟩ | ⟨folds, mapIs, mergesAre, findings, kept⟩ := is
    · rw [none'] at harmless ⊢
      dsimp only [Option.isSome_none, Bool.false_eq_true, if_false] at harmless ⊢
      show Readable T M snap.1 ((files.write (.record snap.2.findings)).writeAll _)
      by_cases fold : ∃ w ∈ (restoreFold files snap.2).take count, w.isFold = true
      · revert fold
        unfold restoreFold
        rw [none']
        dsimp only
        split
        · match count with
          | 0 => simp
          | 1 => simp [FoldWrite.isFold]
          | _ + 2 =>
            rw [List.take_of_length_le (by simp)]
            exact fun _ => .inl ⟨rfl, congrArg some findings⟩
        · match count with
          | 0 => simp
          | _ + 1 => simp [FoldWrite.isFold]
      · obtain ⟨w, mem, isFold⟩ | ⟨unmapped, folded⟩ := harmless
        · obtain rfl | mem := List.mem_cons.mp mem
          · cases isFold
          · exact absurd ⟨w, mem, isFold⟩ fold
        · exact readable_quiet unmapped (congrArg some findings)
            (fun doc mem => not_record_of_restore (List.mem_of_mem_take mem))
            (fun w mem => folded w (List.mem_cons_of_mem _ mem)) (no_fold fold)
    · obtain ⟨map, held⟩ := Option.ne_none_iff_exists'.mp (mapIs ▸ map_ne_none folds : snap.2.map ≠ none)
      obtain ⟨w, mem, isFold⟩ | ⟨-, folded⟩ := harmless
      · revert mem
        unfold restoreFold
        rw [held, kept]
        dsimp only
        match count with
        | 0 =>
          intro mem
          obtain rfl := List.mem_singleton.mp mem
          cases isFold
        | 1 =>
          intro mem
          obtain rfl | mem := List.mem_cons.mp mem
          · cases isFold
          · obtain rfl := List.mem_singleton.mp mem
            cases isFold
        | _ + 2 =>
          rw [List.take_of_length_le (by simp)]
          exact fun _ => .inr ⟨folds, held.symm.trans mapIs, mergesAre, congrArg some findings, rfl⟩
      · have first := folded _ List.mem_cons_self
        rw [held] at first
        cases first

end Cut

theorem isOf_snapshot (together : Together T M (some p) files) {doc : Doc}
    (is : files.findings = some doc) : IsOf T M (p, snapshotFold files doc) := by
  obtain ⟨none', findings⟩ | ⟨some', mapIs, mergesAre, findings, kept⟩ := together.1
  · exact .inl ⟨none', Option.some.inj (is.symm.trans findings)⟩
  · obtain ⟨map, held⟩ := Option.ne_none_iff_exists'.mp (mapIs ▸ map_ne_none some' : files.map ≠ none)
    refine .inr ⟨some', mapIs, mergesAre, Option.some.inj (is.symm.trans findings), ?_⟩
    unfold snapshotFold
    rw [held]
    exact kept

theorem FoldInv.complete (inv : FoldInv T M st) {e : FoldEvent} (may : MayHappen st e)
    (plain : PlainFold T M parses st e) : FoldInv T M (complete T M parses st e) := by
  cases e with
  | save p => exact ⟨together_save plain, inv.snaps⟩
  | seam => exact ⟨together_seam inv.together plain, inv.snaps⟩
  | openPass => exact ⟨inv.together.openPass, inv.snaps⟩
  | rollback snap => exact ⟨together_rollback (inv.snaps snap may) plain, inv.snaps⟩
  | snapshot =>
    refine ⟨inv.together, ?_⟩
    unfold Findings.complete snapsAfter
    dsimp only
    split
    · rename_i p doc isRecord is
      intro snap mem
      obtain rfl | mem := List.mem_cons.mp mem
      · exact isOf_snapshot (isRecord ▸ inv.together) is
      · exact inv.snaps snap mem
    · exact inv.snaps

theorem FoldInv.crash (inv : FoldInv T M st) {e : FoldEvent} {count : ℕ} (may : MayHappen st e)
    (plain : PlainFold T M parses st e) (harmless : HarmlessCrash T M parses st e count) :
    FoldInv T M (crash T M parses st e count) := by
  refine ⟨?_, inv.snaps⟩
  unfold Findings.crash
  dsimp only
  by_cases nothing : (writesOf T M parses st.files e).take count = []
  · rw [nothing, if_pos rfl]
    exact inv.together.openPass
  · rw [if_neg nothing]
    have harmless := harmless.resolve_left nothing
    cases e with
    | save p => exact (readable_save_cut plain nothing harmless).openPass
    | seam =>
      show Together T M st.record _
      have together := inv.together
      revert together
      cases st.record with
      | some p => exact fun together => (readable_seam_cut together.1 plain harmless).openPass
      | none =>
        intro together
        have writes : foldFindingsFile T M parses st.files true = [.fold { seamPassed := true }] := by
          unfold foldFindingsFile
          rw [together.2]
          simp
        refine Together.openPass ?_
        show Together T M none (st.files.writeAll ((foldFindingsFile T M parses st.files true).take count))
        rw [writes]
        match count with
        | 0 => exact together
        | _ + 1 =>
          rw [List.take_of_length_le (by simp)]
          exact ⟨rfl, together.2⟩
    | openPass =>
      have whole : (writesOf T M parses st.files .openPass).take count = openPass st.files := by
        refine List.take_of_length_le ?_
        have short : (openPass st.files).length ≤ 1 := by
          unfold Findings.openPass
          split
          · split <;> simp
          · simp
        cases count with
        | zero => exact absurd rfl nothing
        | succ count => exact short.trans (Nat.succ_le_succ (Nat.zero_le _))
      rw [whole]
      exact inv.together.openPass.openPass
    | snapshot => exact absurd List.take_nil nothing
    | rollback snap => exact (readable_rollback_cut (inv.snaps snap may) nothing harmless).openPass

/-- A finding was folded into one of findings.json: the fold of the conflict it is in. -/
def IsFoldOf (T : FindingTexts) (M : Option Manifest) (doc : Doc) (f f' : Finding) : Prop :=
  ∃ g, (consolidationKey T f, g) ∈ (conflicts T doc.findings).entries ∧ f ∈ g.members ∧
    f' = foldedAt T (frameworkOf doc M) doc.findings (consolidationKey T f) g

/-- What the files say of the record in force. -/
structure Numbered (T : FindingTexts) (M : Option Manifest) (p : ParsedDoc) (files : FoldFiles) :
    Prop where
  /-- the file `modelRecordPath` names holds the record -/
  model : modelRecord files = some p.doc
  /-- past the seam findings.json is its fold -/
  folded : files.seamPassed = true → files.findings = some (foldRecord T p.doc M).doc
  /-- there is no map exactly when findings.json is the record itself -/
  map_none : files.map = none ↔ files.findings = some p.doc
  /-- otherwise the map takes each finding to the one it was folded into -/
  map_some : ∀ map, files.map = some map → ∀ f ∈ p.doc.findings,
    ∃ doc f', files.findings = some doc ∧ f' ∈ doc.findings ∧ IsFoldOf T M p.doc f f' ∧
      map.modelToFolded.get f.ordinal = some f'.ordinal
  /-- what is kept of an ordinal of findings.json is one of the record, folded into it -/
  kept : ∀ doc, files.findings = some doc → ∀ n ∈ doc.findings.map Finding.ordinal, ∀ m,
    keptModelOrdinal files.fold n = some m → m ∈ p.doc.findings.map Finding.ordinal ∧
      ∀ map, files.map = some map → map.modelToFolded.get m = some n
  /-- and under a fold, of any ordinal -/
  kept_fold : files.map ≠ none → ∀ n m, keptModelOrdinal files.fold n = some m →
    m ∈ p.doc.findings.map Finding.ordinal

theorem keptModelOrdinal_none (none' : files.map = none) (n : ℕ) :
    keptModelOrdinal files.fold n = some n := by
  unfold keptModelOrdinal
  cases held : files.fold with
  | none => rfl
  | some state =>
    have none' : state.map = none := by simpa [FoldFiles.map, held] using none'
    dsimp only
    rw [none']

theorem numbered (together : Together T M (some p) files) : Numbered T M p files := by
  obtain ⟨⟨none', is⟩ | ⟨some', mapIs, mergesAre, is, kept⟩, past⟩ := together
  · refine ⟨?_, past, by simp [none', is], fun map held => ?_, fun doc held n mem m kept => ?_,
      fun held => absurd none' held⟩
    · unfold modelRecord
      rw [none']
      simpa using is
    · rw [none'] at held
      cases held
    · obtain rfl := Option.some.inj (is.symm.trans held)
      obtain rfl := Option.some.inj ((keptModelOrdinal_none none' n).symm.trans kept)
      refine ⟨mem, fun map held => ?_⟩
      rw [none'] at held
      cases held
  · obtain ⟨map, held⟩ := Option.ne_none_iff_exists'.mp (mapIs ▸ map_ne_none some' : files.map ≠ none)
    obtain ⟨state, ofState, ofMap⟩ := Option.bind_eq_some_iff.mp held
    have isMap : (foldRecord T p.doc M).map = some map := mapIs.symm.trans held
    have twice : ¬ (p.doc.findings.map (consolidationKey T)).Nodup := fun nodup =>
      some' (by rw [foldRecord_same nodup])
    have keeps (n m : ℕ) (answer : keptModelOrdinal files.fold n = some m) :=
      keptModelOrdinal_folded isMap ofMap (ofState ▸ answer)
    refine ⟨?_, past, ?_, fun map' held' f mem => ?_, fun doc _ n _ m answer => ?_,
      fun _ n m answer => (keeps n m answer).1⟩
    · unfold modelRecord
      rw [if_pos ⟨by simp [held], by simp [kept]⟩]
      exact kept
    · rw [held, is]
      refine ⟨fun none' => absurd none' (by simp), fun same => ?_⟩
      exact absurd (Option.some.inj same) (foldRecord_ne some')
    · obtain rfl := Option.some.inj (held.symm.trans held')
      obtain ⟨g, group, member⟩ := exists_group (consolidationKey T) mem
      refine ⟨_, _, is, ?_, ⟨g, group, member, rfl⟩, ?_⟩
      · rw [foldRecord_folds twice]
        exact mem_consolidated.mpr ⟨_, g, group, rfl⟩
      · rw [foldRecord_folds twice] at isMap
        obtain rfl := Option.some.inj isMap
        exact get_ordinalMap (frameworkOf p.doc M) p.once mem
    · obtain ⟨mem, mapped⟩ := keeps n m answer
      refine ⟨mem, fun map' held' => ?_⟩
      rw [Option.some.inj (held'.symm.trans held)]
      exact mapped

/-- In every run of plain steps the files say of the record in force what they should. -/
theorem numberings_agree (T : FindingTexts) (M : Option Manifest) (parses : Doc → Bool) {st : FoldRun}
    (reached : Reaches (· = {}) (PlainFoldStep T M parses) st) {p : ParsedDoc}
    (record : st.record = some p) : Numbered T M p st.files := by
  have inv : FoldInv T M st := by
    refine reached.invariant ?_ ?_
    · rintro _ rfl
      exact ⟨⟨rfl, rfl⟩, by simp⟩
    · rintro st _ inv ⟨e, may, plain, rfl | ⟨count, harmless, rfl⟩⟩
      · exact inv.complete may plain
      · exact inv.crash may plain harmless
  exact numbered (record ▸ inv.together)

/-- One conflict filed twice, and another. -/
def filedTwice : ParsedDoc where
  doc :=
    { findings :=
        [{ ordinal := 1, mark := "Luna", owner := { name := some "Acme" }, composite := some 3 },
          { ordinal := 2, mark := "LUNA", owner := { name := some "Acme" }, composite := some 2 },
          { ordinal := 3, mark := "Orion", owner := { name := some "Beta" }, composite := some 4 }] }
  once := by decide
  dated := by decide +kernel
  known := by decide

def anyDoc : Doc → Bool := fun _ => true

/-- The record before the seam, and the seam cut after findings.json is folded. -/
def saved : FoldRun := complete plainTexts none anyDoc {} (.save filedTwice)

def cutSeam : FoldRun := crash plainTexts none anyDoc saved .seam 2

/-- The folded file passes for the record, and the next seam removes the record itself. -/
theorem cut_seam_loses_the_record :
    let later := complete plainTexts none anyDoc cutSeam .seam
    cutSeam.record.map ParsedDoc.doc = some filedTwice.doc ∧
      (modelRecord cutSeam.files).map (fun doc => doc.findings.length) = some 2 ∧
      cutSeam.files.map = none ∧ later.files.unfolded = none ∧
      (modelRecord later.files).map (fun doc => doc.findings.length) = some 2 ∧
      keptModelOrdinal later.files.fold 2 = some 2 := by
  decide +kernel

theorem numberings_agree_filedTwice :
    Numbered plainTexts none filedTwice (complete plainTexts none anyDoc saved .seam).files := by
  have first : PlainFoldStep plainTexts none anyDoc {} saved :=
    ⟨.save filedTwice, trivial, fun _ _ => rfl, .inl rfl⟩
  have second : PlainFoldStep plainTexts none anyDoc saved (complete plainTexts none anyDoc saved .seam) :=
    ⟨.seam, trivial, fun _ _ => ⟨fun _ => rfl, fun _ => rfl⟩, .inl rfl⟩
  exact numberings_agree plainTexts none anyDoc (.step (.step (.start rfl) first) second) rfl

end Findings

end Clearotron
