import Mathlib.Data.List.Perm.Subperm
import Clearotron.Findings.FoldFacts

/-!
# The files of a fold

Once a pass is past the delivery seam every accepted save is folded again, so that findings.json
is the folded record. The record as the model wrote it is kept beside it while a fold is in force,
and the state of the fold holds the map between the two numberings. The three files are written
one after another, and a crash may fall between any two writes.
-/

namespace Clearotron

namespace Findings

/-- `fold.json`. -/
structure FoldState where
  seamPassed : Bool
  map : Option FoldMap := none
  /-- each merge, by the ordinal that was kept and those that were dropped -/
  merges : List (ℕ × List ℕ) := []
  deriving DecidableEq

structure FoldFiles where
  /-- `findings.json` -/
  findings : Option Doc := none
  /-- `findings-unfolded.json` -/
  unfolded : Option Doc := none
  fold : Option FoldState := none
  deriving DecidableEq

namespace FoldFiles

variable (files : FoldFiles)

def seamPassed : Bool := files.fold.any FoldState.seamPassed

def map : Option FoldMap := files.fold.bind FoldState.map

def merges : List (ℕ × List ℕ) := (files.fold.map FoldState.merges).getD []

end FoldFiles

/-- One write of a file, or its removal; a record put into findings.json is in the model's
numbering, or folded. -/
inductive FoldWrite
  | record (doc : Doc)
  | folded (doc : Doc)
  | unfolded (doc : Doc)
  | noUnfolded
  | fold (state : FoldState)
  deriving DecidableEq

def FoldFiles.write (files : FoldFiles) : FoldWrite → FoldFiles
  | .record doc => { files with findings := some doc }
  | .folded doc => { files with findings := some doc }
  | .unfolded doc => { files with unfolded := some doc }
  | .noUnfolded => { files with unfolded := none }
  | .fold state => { files with fold := some state }

def FoldFiles.writeAll (files : FoldFiles) (writes : List FoldWrite) : FoldFiles :=
  writes.foldl FoldFiles.write files

section

variable (T : FindingTexts) (manifest : Option Manifest) (parses : Doc → Bool)

def mergeOrdinals (merges : List Merge) : List (ℕ × List ℕ) := merges.map fun m => (m.kept, m.dropped)

/-- The writes `foldFindingsFile` makes; `parses` is the strict parser on the folded record. -/
def foldFindingsFile (files : FoldFiles) (seam : Bool) : List FoldWrite :=
  if !seam && !files.seamPassed then
    if files.map.isSome then [.fold { seamPassed := false }, .noUnfolded] else []
  else match files.findings with
    | none => [.fold { seamPassed := true }]
    | some doc =>
      let r := foldRecord T doc manifest
      if r.merges = [] then
        if seam && files.map.isSome && files.unfolded.isSome then
          [.fold { seamPassed := true, map := files.map, merges := files.merges }]
        else [.fold { seamPassed := true }, .noUnfolded]
      else if parses r.doc then
        [.unfolded doc, .folded r.doc,
          .fold { seamPassed := true, map := r.map, merges := mergeOrdinals r.merges }]
      else [.noUnfolded, .fold { seamPassed := seam || files.seamPassed }]

/-- An accepted save: the record is written, and folded. -/
def saveRecord (files : FoldFiles) (doc : Doc) : List FoldWrite :=
  .record doc :: foldFindingsFile T manifest parses (files.write (.record doc)) false

end

/-- A pass opens before the seam. -/
def openPass (files : FoldFiles) : List FoldWrite :=
  match files.fold with
  | some state => if state.seamPassed then [.fold { state with seamPassed := false }] else []
  | none => []

/-- `modelRecordPath`, by what the file holds. -/
def modelRecord (files : FoldFiles) : Option Doc :=
  if files.map.isSome ∧ files.unfolded.isSome then files.unfolded else files.findings

def keptModelOrdinal (state : Option FoldState) (ordinal : ℕ) : Option ℕ :=
  match state with
  | none => some ordinal
  | some state =>
    match state.map with
    | none => some ordinal
    | some map =>
      match map.foldedToModel.get ordinal with
      | none | some [] => none
      | some [m] => some m
      | some members => (state.merges.find? fun merge => merge.1 ∈ members).map Prod.fst

/-- The fold as it stood, with the findings.json it stood beside. -/
structure Snapshot where
  findings : Doc
  fold : Option FoldState
  unfolded : Option Doc
  deriving DecidableEq

def snapshotFold (files : FoldFiles) (findings : Doc) : Snapshot :=
  ⟨findings, files.fold, if files.map.isSome then files.unfolded else none⟩

def Snapshot.map (snap : Snapshot) : Option FoldMap := snap.fold.bind FoldState.map

def restoreFold (files : FoldFiles) (snap : Snapshot) : List FoldWrite :=
  match snap.map, snap.unfolded with
  | some map, some doc =>
    [.unfolded doc, .fold
      { seamPassed := files.seamPassed, map := some map
        merges := (snap.fold.map FoldState.merges).getD [] }]
  | _, _ =>
    .noUnfolded :: if files.fold.isSome then [.fold { seamPassed := files.seamPassed }] else []

/-- A rollback puts findings.json back, and its fold beside it. -/
def rollback (files : FoldFiles) (snap : Snapshot) : List FoldWrite :=
  (if snap.map.isSome then .folded snap.findings else .record snap.findings) :: restoreFold files snap

variable {T : FindingTexts} {M : Option Manifest} {doc : Doc} {p : ParsedDoc}

theorem map_eq_none_iff : (foldRecord T doc M).map = none ↔ (foldRecord T doc M).merges = [] := by
  by_cases twice : (doc.findings.map (consolidationKey T)).Nodup
  · rw [foldRecord_same twice]
    simp
  · rw [foldRecord_folds twice]
    simp [merges_eq_nil_iff, twice]

theorem foldRecord_of_merges (none' : (foldRecord T doc M).merges = []) :
    (foldRecord T doc M).doc = doc := by
  by_cases twice : (doc.findings.map (consolidationKey T)).Nodup
  · rw [foldRecord_same twice]
  · rw [foldRecord_folds twice] at none'
    exact absurd (merges_eq_nil_iff.mp none') twice

/-- Where something folds, the folded record is another one: it has fewer findings. -/
theorem foldRecord_ne (some' : (foldRecord T doc M).merges ≠ []) : (foldRecord T doc M).doc ≠ doc := by
  intro same
  refine some' ?_
  by_contra more
  have twice : ¬ (doc.findings.map (consolidationKey T)).Nodup := fun nodup => by
    rw [foldRecord_same nodup] at more
    exact more rfl
  have lengths := congrArg (fun d => d.findings.length) same
  rw [foldRecord_folds twice] at lengths
  simp only [consolidateFindings, List.length_map, List.length_zipIdx] at lengths
  -- as many conflicts as findings would mean that no two share a key
  have keys : (conflicts T doc.findings).keys.length = (doc.findings.map (consolidationKey T)).length := by
    rw [List.length_map]
    exact (List.length_map _).trans lengths
  have sub : (conflicts T doc.findings).keys ⊆ doc.findings.map (consolidationKey T) := fun k mem => by
    obtain ⟨g, there⟩ := Keyed.exists_mem_of_mem_keys mem
    exact (members_of_mem there).1
  have perm := (List.subperm_of_subset (conflicts T doc.findings).keys_nodup sub).perm_of_length_le keys.ge
  exact twice (perm.nodup_iff.mp (conflicts T doc.findings).keys_nodup)

theorem mem_bothWays {entries : List (ℕ × ℕ)} {m : Keyed ℕ (List ℕ)} {n v : ℕ} {members : List ℕ}
    (found : (entries.foldl (fun m kv => m.set kv.2 ((m.get kv.2).getD [] ++ [kv.1])) m).get n =
      some members) (mem : v ∈ members) :
    (∃ before, m.get n = some before ∧ v ∈ before) ∨ (v, n) ∈ entries := by
  induction entries generalizing m with
  | nil => exact .inl ⟨members, found, mem⟩
  | cons kv rest ih =>
    rw [List.foldl_cons] at found
    obtain ⟨before, held, there⟩ | there := ih found
    · rw [Keyed.get_set] at held
      split at held
      · rename_i same
        obtain rfl := Option.some.inj held
        obtain there | new := List.mem_append.mp there
        · cases earlier : m.get kv.2 with
          | none => simp [earlier] at there
          | some list =>
            rw [earlier] at there
            exact .inl ⟨list, same ▸ earlier, there⟩
        · rw [List.mem_singleton.mp new, same]
          exact .inr List.mem_cons_self
      · exact .inl ⟨before, held, there⟩
    · exact .inr (List.mem_cons_of_mem _ there)

/-- The ordinals a folded one stands for are those mapped to it. -/
theorem get_of_foldedToModel {ordinalMap : Keyed ℕ ℕ} {n v : ℕ} {members : List ℕ}
    (found : (bothWays ordinalMap).foldedToModel.get n = some members) (mem : v ∈ members) :
    ordinalMap.get v = some n := by
  obtain ⟨before, held, -⟩ | there := mem_bothWays found mem
  · cases held
  · exact Keyed.get_eq_some.mpr there

/-- The kept ordinal is one of the model's, and its finding was folded into the one asked for. -/
theorem keptModelOrdinal_folded {state : FoldState} {map : FoldMap} {n v : ℕ}
    (is : (foldRecord T doc M).map = some map) (held : state.map = some map)
    (kept : keptModelOrdinal (some state) n = some v) :
    v ∈ doc.findings.map Finding.ordinal ∧ map.modelToFolded.get v = some n := by
  have twice : ¬ (doc.findings.map (consolidationKey T)).Nodup := fun nodup => by
    rw [foldRecord_same nodup] at is
    cases is
  have mapIs : map = bothWays (consolidateFindings T doc.findings (frameworkOf doc M)).ordinalMap := by
    rw [foldRecord_folds twice] at is
    exact (Option.some.inj is).symm
  have mapped : map.modelToFolded.get v = some n := by
    unfold keptModelOrdinal at kept
    dsimp only at kept
    rw [held] at kept
    dsimp only at kept
    rw [mapIs] at kept ⊢
    split at kept
    · cases kept
    · cases kept
    · rename_i m found
      obtain rfl := Option.some.inj kept
      exact get_of_foldedToModel found (List.mem_singleton_self _)
    · rename_i members found
      obtain ⟨merge, first, rfl⟩ := Option.map_eq_some_iff.mp kept
      have among := List.find?_some first
      exact get_of_foldedToModel found (of_decide_eq_true among)
  refine ⟨?_, mapped⟩
  by_contra other
  have none' := get_ordinalMap_none (T := T) (frameworkOf doc M) other
  rw [mapIs] at mapped
  exact absurd (none'.symm.trans mapped) (by simp)

end Findings

end Clearotron
