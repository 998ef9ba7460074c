import Clearotron.Band.Named
import Clearotron.Library.Firsts
import Mathlib.Data.Set.Basic

/-!
# Bands merged

Several bands become one: a record is kept once, as it was first found, and carries the qids of
all it was found by; every descriptor is kept. A merged band is a band again, but what the next
merge reads of its records is the qid each was first found by.
-/

namespace Clearotron

namespace Band

/-- What the merge knows a record by. An object is another one wherever it is read. -/
inductive RecordId where
  | text (s : String)
  | number (q : Rat)
  | yes
  deriving DecidableEq

/-- `record_id`, where it is truthy. -/
def recordId (r : BandRecord) : Option RecordId :=
  match r.fields.get "record_id" with
  | some (.str s) => if s = "" then none else some (.text s)
  | some (.num q) => if q = 0 then none else some (.number q)
  | some (.bool true) => some .yes
  | _ => none

/-- A record of a merged band: as it was first found, with `_qids` and `_queries`. -/
structure MergedRecord where
  base : BandRecord
  qids : List String := []
  queries : List String := []

def pushNew (xs : List String) (x : String) : List String := if x ∈ xs then xs else xs ++ [x]

/-- What a further finding adds to a record. -/
def MergedRecord.stamp (m : MergedRecord) (r : BandRecord) : MergedRecord :=
  { m with
    qids := match r.qid with
      | some qid => pushNew m.qids qid
      | none => m.qids
    queries := if r.query = "" then m.queries else pushNew m.queries r.query }

def mergeRecord (merged : List MergedRecord) (r : BandRecord) : List MergedRecord :=
  if (recordId r).isSome ∧ merged.any (fun m => recordId m.base = recordId r) then
    merged.map fun m => if recordId m.base = recordId r then m.stamp r else m
  else merged ++ [(MergedRecord.mk r [] []).stamp r]

structure MergedBand where
  enumerated : List MergedRecord
  crowds : List Crowd

def found (bands : List NamedBand) : List BandRecord := bands.flatMap NamedBand.enumerated

def mergeNamedBands (bands : List NamedBand) : MergedBand where
  enumerated := (found bands).foldl mergeRecord []
  crowds := bands.flatMap NamedBand.crowds

/-- A merged band as the next merge reads it. -/
def MergedBand.asBand (m : MergedBand) : NamedBand := ⟨m.enumerated.map MergedRecord.base, m.crowds⟩

/-- Every qid that surfaced a merged record. -/
def recordQids (m : MergedRecord) : List String :=
  match m.base.qid with
  | some first => if first ∈ m.qids then m.qids else first :: m.qids
  | none => m.qids

/-- The qids a list of findings gives a record. -/
def qidsIn (records : List BandRecord) (x : BandRecord) : Set String :=
  { qid | match recordId x with
    | some id => ∃ r ∈ records, recordId r = some id ∧ r.qid = some qid
    | none => x.qid = some qid }

@[simp] theorem mem_pushNew {xs : List String} {x y : String} :
    y ∈ pushNew xs x ↔ y ∈ xs ∨ y = x := by
  unfold pushNew
  split
  · rename_i mem
    exact ⟨.inl, fun or => or.elim id (· ▸ mem)⟩
  · simp

@[simp] theorem mem_stamp_qids {m : MergedRecord} {r : BandRecord} {qid : String} :
    qid ∈ (m.stamp r).qids ↔ qid ∈ m.qids ∨ r.qid = some qid := by
  unfold MergedRecord.stamp
  cases r.qid with
  | none => simp
  | some first => simp [eq_comm]

@[simp] theorem stamp_base (m : MergedRecord) (r : BandRecord) : (m.stamp r).base = m.base := rfl

theorem mem_qidsIn_of_keyed {records : List BandRecord} {x : BandRecord} {id : RecordId}
    (keyed : recordId x = some id) {qid : String} : qid ∈ qidsIn records x ↔
      ∃ r ∈ records, recordId r = some id ∧ r.qid = some qid := by
  simp [qidsIn, keyed]

theorem mem_qidsIn_of_unkeyed {records : List BandRecord} {x : BandRecord}
    (unkeyed : recordId x = none) {qid : String} : qid ∈ qidsIn records x ↔ x.qid = some qid := by
  simp [qidsIn, unkeyed]

/-- A further finding adds its qid to the records of its own identity alone. -/
theorem mem_qidsIn_concat {records : List BandRecord} {r x : BandRecord} {qid : String} :
    qid ∈ qidsIn (records ++ [r]) x ↔ qid ∈ qidsIn records x ∨
      (recordId x).isSome ∧ recordId x = recordId r ∧ r.qid = some qid := by
  cases keyed : recordId x with
  | none => simp [mem_qidsIn_of_unkeyed keyed]
  | some id =>
    rw [mem_qidsIn_of_keyed keyed, mem_qidsIn_of_keyed keyed]
    constructor
    · rintro ⟨y, mem, same, is⟩
      obtain mem | own := List.mem_append.mp mem
      · exact .inl ⟨y, mem, same, is⟩
      · obtain rfl := List.mem_singleton.mp own
        exact .inr ⟨rfl, same.symm, is⟩
    · rintro (⟨y, mem, same, is⟩ | ⟨-, same, is⟩)
      · exact ⟨y, List.mem_append_left _ mem, same, is⟩
      · exact ⟨r, by simp, same.symm, is⟩

/-- What one finding does: it is stamped on the record it has, or stands as a new one. -/
theorem mergeRecord_cases (merged : List MergedRecord) (r : BandRecord) :
    (isFresh recordId (merged.map MergedRecord.base) r = true ∧
        mergeRecord merged r = merged ++ [(MergedRecord.mk r [] []).stamp r]) ∨
      (isFresh recordId (merged.map MergedRecord.base) r = false ∧ (recordId r).isSome ∧
        mergeRecord merged r =
          merged.map fun m => if recordId m.base = recordId r then m.stamp r else m) := by
  by_cases there : (recordId r).isSome ∧ merged.any (fun m => recordId m.base = recordId r)
  · refine .inr ⟨?_, there.1, if_pos there⟩
    obtain ⟨m, mem, same⟩ := List.any_eq_true.mp there.2
    have keyed : recordId r ≠ none := Option.isSome_iff_ne_none.mp there.1
    simp only [isFresh, keyed, false_or, decide_eq_false_iff_not]
    exact fun none' => none' _ (List.mem_map_of_mem mem) (of_decide_eq_true same)
  · refine .inl ⟨?_, if_neg there⟩
    rw [not_and] at there
    simp only [isFresh, decide_eq_true_eq]
    refine or_iff_not_imp_left.mpr fun keyed x mem same => ?_
    obtain ⟨m, there', rfl⟩ := List.mem_map.mp mem
    exact there (Option.isSome_iff_ne_none.mpr keyed)
      (List.any_eq_true.mpr ⟨m, there', decide_eq_true same⟩)

theorem map_base_mergeRecord (merged : List MergedRecord) (r : BandRecord) :
    (mergeRecord merged r).map MergedRecord.base =
      if isFresh recordId (merged.map MergedRecord.base) r then
        merged.map MergedRecord.base ++ [r]
      else merged.map MergedRecord.base := by
  obtain ⟨fresh, is⟩ | ⟨known, -, is⟩ := mergeRecord_cases merged r
  · rw [is, if_pos fresh, List.map_append]
    rfl
  · rw [is, if_neg (by simp [known]), List.map_map]
    refine List.map_congr_left fun m _ => ?_
    rw [Function.comp_apply]
    split <;> rfl

/-- The records of a merge are the first findings, in their order. -/
theorem map_base_merged (records : List BandRecord) :
    (records.foldl mergeRecord []).map MergedRecord.base = firsts recordId records := by
  induction records using List.reverseRecOn with
  | nil => rfl
  | append_singleton records r ih =>
    rw [List.foldl_append, List.foldl_cons, List.foldl_nil, map_base_mergeRecord, ih,
      isFresh_firsts, firsts_concat]

/-- A merged record has the qids of everything it was found by. -/
theorem mem_merged_qids (records : List BandRecord) :
    ∀ m ∈ records.foldl mergeRecord [], ∀ qid, qid ∈ m.qids ↔ qid ∈ qidsIn records m.base := by
  induction records using List.reverseRecOn with
  | nil => simp
  | append_singleton records r ih =>
    rw [List.foldl_append, List.foldl_cons, List.foldl_nil]
    intro m mem qid
    rw [mem_qidsIn_concat]
    obtain ⟨fresh, is⟩ | ⟨-, keyed, is⟩ := mergeRecord_cases (records.foldl mergeRecord []) r
    · rw [map_base_merged, isFresh_firsts] at fresh
      have alone : recordId r = none ∨ ∀ x ∈ records, recordId x ≠ recordId r := by
        simpa [isFresh] using fresh
      rw [is] at mem
      obtain mem | own := List.mem_append.mp mem
      · have other : ¬ ((recordId m.base).isSome ∧ recordId m.base = recordId r ∧
            r.qid = some qid) := by
          rintro ⟨keyed, same, -⟩
          have base : m.base ∈ records :=
            (firsts_sublist records).subset (map_base_merged records ▸ List.mem_map_of_mem mem)
          obtain unkeyed | none' := alone
          · rw [same, unkeyed] at keyed
            cases keyed
          · exact none' _ base same
        rw [ih m mem qid]
        simp [other]
      · obtain rfl := List.mem_singleton.mp own
        simp only [mem_stamp_qids, List.not_mem_nil, false_or, stamp_base]
        cases keyed : recordId r with
        | none => simp [mem_qidsIn_of_unkeyed keyed]
        | some id =>
          have before : qid ∉ qidsIn records r := by
            rw [mem_qidsIn_of_keyed keyed]
            rintro ⟨x, mem, same, -⟩
            rw [keyed] at alone
            exact (alone.resolve_left (by simp)) x mem same
          simp [before]
    · rw [is] at mem
      obtain ⟨m', there, rfl⟩ := List.mem_map.mp mem
      by_cases same : recordId m'.base = recordId r
      · rw [if_pos same, mem_stamp_qids, stamp_base, ih m' there qid]
        simp [same, keyed]
      · rw [if_neg same, ih m' there qid]
        simp [same]

/-- The first qid of a record is among those it carries. -/
theorem mem_recordQids (records : List BandRecord) (m : MergedRecord)
    (mem : m ∈ records.foldl mergeRecord []) (qid : String) :
    qid ∈ recordQids m ↔ qid ∈ qidsIn records m.base := by
  rw [← mem_merged_qids records m mem qid, recordQids]
  cases is : m.base.qid with
  | none => rfl
  | some first =>
    have base : m.base ∈ records :=
      (firsts_sublist records).subset (map_base_merged records ▸ List.mem_map_of_mem mem)
    have carried : first ∈ m.qids := by
      rw [mem_merged_qids records m mem first]
      cases keyed : recordId m.base with
      | none => exact (mem_qidsIn_of_unkeyed keyed).mpr is
      | some id => exact (mem_qidsIn_of_keyed keyed).mpr ⟨m.base, base, keyed, is⟩
    dsimp only
    rw [if_pos carried]

/-- A merged record as a reader sees it: its fields and the set of its qids. -/
def MergedRecord.view (m : MergedRecord) : BandRecord × Set String :=
  (m.base, { qid | qid ∈ recordQids m })

theorem map_view_merged (bands : List NamedBand) :
    (mergeNamedBands bands).enumerated.map MergedRecord.view =
      (firsts recordId (found bands)).map fun x => (x, qidsIn (found bands) x) := by
  rw [← map_base_merged, List.map_map]
  refine List.map_congr_left fun m mem => ?_
  exact congrArg (Prod.mk m.base) (Set.ext fun qid => mem_recordQids (found bands) m mem qid)

theorem found_asBand (mid : List NamedBand) :
    (mergeNamedBands mid).asBand.enumerated = firsts recordId (found mid) :=
  map_base_merged (found mid)

/-- What the next merge finds where some of the bands were merged before. -/
theorem found_remerged (before mid after : List NamedBand) :
    found (before ++ [(mergeNamedBands mid).asBand] ++ after) =
      found before ++ (firsts recordId (found mid) ++ found after) := by
  rw [found, List.flatMap_append, List.flatMap_append, List.flatMap_singleton, found_asBand,
    List.append_assoc]
  rfl

/-- The qids of the blocks a record appeared in. -/
def Surfaced (records : List BandRecord) (x : BandRecord) (qid : String) : Prop :=
  match recordId x with
  | some id => ∃ r ∈ records, recordId r = some id ∧ r.block = some qid
  | none => x.block = some qid

/-- A merge shows every record once and whole, with the qids of its blocks, and every
descriptor; and merging some of the bands before the rest changes nothing. -/
structure MergeKeeps (bands : List NamedBand) : Prop where
  records : (mergeNamedBands bands).enumerated.map MergedRecord.base =
    firsts recordId (found bands)
  once : ((mergeNamedBands bands).enumerated.filterMap fun m => recordId m.base).Nodup
  qids : ∀ m ∈ (mergeNamedBands bands).enumerated, ∀ qid,
    qid ∈ recordQids m ↔ Surfaced (found bands) m.base qid
  crowds : (mergeNamedBands bands).crowds = bands.flatMap NamedBand.crowds
  again : ∀ before mid after, bands = before ++ mid ++ after →
    (mergeNamedBands (before ++ [(mergeNamedBands mid).asBand] ++ after)).enumerated.map
        MergedRecord.view = (mergeNamedBands bands).enumerated.map MergedRecord.view ∧
      (mergeNamedBands (before ++ [(mergeNamedBands mid).asBand] ++ after)).crowds =
        (mergeNamedBands bands).crowds

/-- No provenance is stated by a record alone, and none hangs on a later finding alone. -/
structure NothingLost (bands : List NamedBand) : Prop where
  /-- a qid that a record of an unstamped block states is that of a block it appeared in -/
  stated : ∀ r ∈ found bands, r.block = none → ∀ qid, r.qid = some qid →
    (recordId r).isSome ∧ Surfaced (found bands) r qid
  /-- in bands merged before the rest, a record's first finding has each of its qids, or one of
  the other bands has -/
  carried : ∀ before mid after, bands = before ++ mid ++ after → ∀ r ∈ found mid,
    (recordId r).isSome → ∀ qid, r.qid = some qid →
      ∃ x ∈ found before ++ (firsts recordId (found mid) ++ found after),
        recordId x = recordId r ∧ x.qid = some qid

section

variable {bands : List NamedBand}

theorem qids_iff (stamped : ∀ r ∈ found bands, ∀ qid, r.block = some qid → r.qid = some qid) :
    (∀ m ∈ (mergeNamedBands bands).enumerated, ∀ qid,
        qid ∈ recordQids m ↔ Surfaced (found bands) m.base qid) ↔
      ∀ r ∈ found bands, r.block = none → ∀ qid, r.qid = some qid →
        (recordId r).isSome ∧ Surfaced (found bands) r qid := by
  have first (r : BandRecord) (mem : r ∈ firsts recordId (found bands)) :
      ∃ m ∈ (mergeNamedBands bands).enumerated, m.base = r := by
    rw [← map_base_merged] at mem
    obtain ⟨m, mem, is⟩ := List.mem_map.mp mem
    exact ⟨m, mem, is⟩
  have base (m : MergedRecord) (mem : m ∈ (mergeNamedBands bands).enumerated) :
      m.base ∈ found bands :=
    (firsts_sublist _).subset (map_base_merged (found bands) ▸ List.mem_map_of_mem mem)
  constructor
  · intro exact' r mem unstamped qid is
    cases keyed : recordId r with
    | none =>
      obtain ⟨m, there, same⟩ := first r (mem_firsts_of_unkeyed mem keyed)
      have carried : qid ∈ recordQids m := by
        rw [mem_recordQids _ m there, same]
        exact (mem_qidsIn_of_unkeyed keyed).mpr is
      have surfaced := (exact' m there qid).mp carried
      simp [Surfaced, same, keyed, unstamped] at surfaced
    | some id =>
      obtain ⟨x, mem', is'⟩ := (exists_mem_firsts recordId (found bands) id).mpr ⟨r, mem, keyed⟩
      obtain ⟨m, there, rfl⟩ := first x mem'
      have carried : qid ∈ recordQids m := by
        rw [mem_recordQids _ m there]
        exact (mem_qidsIn_of_keyed is').mpr ⟨r, mem, keyed, is⟩
      refine ⟨rfl, ?_⟩
      have surfaced := (exact' m there qid).mp carried
      simpa [Surfaced, keyed, is'] using surfaced
  · intro stated m mem qid
    rw [mem_recordQids _ m mem]
    cases keyed : recordId m.base with
    | none =>
      rw [mem_qidsIn_of_unkeyed keyed, Surfaced, keyed]
      refine ⟨fun is => ?_, stamped _ (base m mem) qid⟩
      cases block : m.base.block with
      | none => simpa [keyed] using (stated _ (base m mem) block qid is).1
      | some own =>
        have same := stamped _ (base m mem) own block
        rw [is] at same
        exact same.symm
    | some id =>
      rw [mem_qidsIn_of_keyed keyed, Surfaced, keyed]
      constructor
      · rintro ⟨r, there, same, is⟩
        cases block : r.block with
        | none => simpa [Surfaced, same] using (stated r there block qid is).2
        | some own =>
          have is' := stamped r there own block
          rw [is] at is'
          exact ⟨r, there, same, block.trans is'.symm⟩
      · rintro ⟨r, there, same, is⟩
        exact ⟨r, there, same, stamped r there qid is⟩

theorem again_iff (before mid after : List NamedBand) :
    (mergeNamedBands (before ++ [(mergeNamedBands mid).asBand] ++ after)).enumerated.map
        MergedRecord.view =
      (mergeNamedBands (before ++ mid ++ after)).enumerated.map MergedRecord.view ↔
    ∀ r ∈ found mid, (recordId r).isSome → ∀ qid, r.qid = some qid →
      ∃ x ∈ found before ++ (firsts recordId (found mid) ++ found after),
        recordId x = recordId r ∧ x.qid = some qid := by
  have all : found (before ++ mid ++ after) = found before ++ (found mid ++ found after) := by
    simp [found]
  rw [map_view_merged, map_view_merged, found_remerged, all, firsts_absorb, List.map_inj_left]
  have fewer : ∀ x ∈ found before ++ (firsts recordId (found mid) ++ found after),
      x ∈ found before ++ (found mid ++ found after) := by
    intro x mem
    simp only [List.mem_append] at mem ⊢
    exact mem.imp_right (Or.imp_left ((firsts_sublist _).subset ·))
  constructor
  · intro same r mem keyed qid is
    obtain ⟨id, keyed⟩ := Option.isSome_iff_exists.mp keyed
    have there : r ∈ found before ++ (found mid ++ found after) := by simp [mem]
    obtain ⟨x, mem', is'⟩ := (exists_mem_firsts recordId _ id).mpr ⟨r, there, keyed⟩
    have sets : qidsIn _ x = qidsIn _ x := (Prod.mk.inj (same x mem')).2
    have carried : qid ∈ qidsIn (found before ++ (found mid ++ found after)) x :=
      (mem_qidsIn_of_keyed is').mpr ⟨r, there, keyed, is⟩
    rw [← sets, mem_qidsIn_of_keyed is'] at carried
    rwa [keyed]
  · intro carried x mem
    refine congrArg (Prod.mk x) (Set.ext fun qid => ?_)
    cases keyed : recordId x with
    | none => rw [mem_qidsIn_of_unkeyed keyed, mem_qidsIn_of_unkeyed keyed]
    | some id =>
      rw [mem_qidsIn_of_keyed keyed, mem_qidsIn_of_keyed keyed]
      constructor
      · rintro ⟨r, there, same, is⟩
        exact ⟨r, fewer r there, same, is⟩
      · rintro ⟨r, there, same, is⟩
        simp only [List.mem_append] at there
        obtain there | there | there := there
        · exact ⟨r, by simp [there], same, is⟩
        · obtain ⟨y, there', same', is'⟩ := carried r there (by simp [same]) qid is
          exact ⟨y, there', same'.trans same, is'⟩
        · exact ⟨r, by simp [there], same, is⟩

theorem crowds_remerged (before mid after : List NamedBand) :
    (mergeNamedBands (before ++ [(mergeNamedBands mid).asBand] ++ after)).crowds =
      (mergeNamedBands (before ++ mid ++ after)).crowds := by
  simp [mergeNamedBands, MergedBand.asBand]

end

/-- Merging keeps every record and every question that surfaced it exactly where no record
states a qid of its own and no qid of a record hangs on a later finding alone. -/
theorem merging_keeps (R : Runtime) (docs : List Json) (bands : List NamedBand)
    (parsed : docs.mapM (parseNamedBand R) = .ok bands) :
    MergeKeeps bands ↔ NothingLost bands := by
  have stamped : ∀ r ∈ found bands, ∀ qid, r.block = some qid → r.qid = some qid := by
    intro r mem
    obtain ⟨band, there, mem⟩ := List.mem_flatMap.mp mem
    obtain ⟨doc, -, ok⟩ := exists_of_mem_mapM parsed there
    exact qid_of_block ok r mem
  constructor
  · intro keeps
    refine ⟨(qids_iff stamped).mp keeps.qids, ?_⟩
    rintro before mid after rfl
    exact (again_iff before mid after).mp (keeps.again before mid after rfl).1
  · intro nothing
    have records := map_base_merged (found bands)
    refine ⟨records, ?_, (qids_iff stamped).mpr nothing.stated, rfl, ?_⟩
    · have keys : (mergeNamedBands bands).enumerated.filterMap (fun m => recordId m.base) =
          (firsts recordId (found bands)).filterMap recordId := by
        rw [← records, List.filterMap_map]
        rfl
      rw [keys]
      exact nodup_filterMap_firsts _
    · rintro before mid after rfl
      exact ⟨(again_iff before mid after).mpr (nothing.carried before mid after rfl),
        crowds_remerged before mid after⟩

/-- What a record is known by and what it was found by. -/
def BandRecord.provenance (r : BandRecord) : Option RecordId × Option String × Option String :=
  (recordId r, r.qid, r.block)

def slice (qid : String) (ids : List String) : Json :=
  .obj [("state", .str "enumerated"), ("query", .str "wavo"), ("qid", .str qid),
    ("records", .arr (ids.map fun id => .obj [("record_id", .str id)]))]

/-- Two records of one slice, one of another, and one of the first found again. -/
def threeDocs : List Json :=
  [.arr [slice "q1" ["a", "b"]], .arr [slice "q2" ["c"]], .arr [slice "q1" ["a"]]]

theorem merging_keeps_threeDocs : ∃ bands,
    threeDocs.mapM (parseNamedBand plainRuntime) = .ok bands ∧ MergeKeeps bands := by
  obtain ⟨bands, parsed, provenance⟩ : ∃ bands,
      threeDocs.mapM (parseNamedBand plainRuntime) = .ok bands ∧
        (found bands).map BandRecord.provenance =
          [(some (.text "a"), some "q1", some "q1"), (some (.text "b"), some "q1", some "q1"),
            (some (.text "c"), some "q2", some "q2"), (some (.text "a"), some "q1", some "q1")] :=
    ⟨_, rfl, rfl⟩
  refine ⟨bands, parsed, (merging_keeps plainRuntime threeDocs bands parsed).mpr ⟨?_, ?_⟩⟩
  · intro r mem unstamped
    have own := provenance ▸ List.mem_map_of_mem (f := BandRecord.provenance) mem
    simp [BandRecord.provenance, unstamped] at own
  · rintro before mid after rfl r mem keyed qid is
    obtain ⟨id, keyed⟩ := Option.isSome_iff_exists.mp keyed
    obtain ⟨x, mem', keyed'⟩ := (exists_mem_firsts recordId _ id).mpr ⟨r, mem, keyed⟩
    refine ⟨x, by simp [mem'], keyed'.trans keyed.symm, ?_⟩
    have there (y : BandRecord) (mem : y ∈ found mid) : y ∈ found (before ++ mid ++ after) := by
      simp only [found, List.flatMap_append, List.mem_append]
      exact .inl (.inr mem)
    have own := provenance ▸ List.mem_map_of_mem (f := BandRecord.provenance) (there r mem)
    have own' := provenance ▸ List.mem_map_of_mem (f := BandRecord.provenance)
      (there x ((firsts_sublist _).subset mem'))
    simp [BandRecord.provenance, keyed, is] at own
    simp [BandRecord.provenance, keyed'] at own'
    grind

/-- A record two slices surfaced keeps the qid of the first alone when the merge is merged
again. -/
theorem merged_again_loses_a_qid : ¬ ∀ (R : Runtime) (docs : List Json) (bands : List NamedBand),
    docs.mapM (parseNamedBand R) = .ok bands → MergeKeeps bands := by
  intro all
  obtain ⟨one, two, parsed, provenance, provenance'⟩ : ∃ one two,
      [Json.arr [slice "q1" ["a"]], Json.arr [slice "q2" ["a"]]].mapM
          (parseNamedBand plainRuntime) = .ok [one, two] ∧
        one.enumerated.map BandRecord.provenance = [(some (.text "a"), some "q1", some "q1")] ∧
        two.enumerated.map BandRecord.provenance = [(some (.text "a"), some "q2", some "q2")] :=
    ⟨_, _, rfl, rfl, rfl⟩
  have again := ((all plainRuntime _ _ parsed).again [] [one, two] [] rfl).1
  obtain ⟨first, isFirst, first'⟩ := List.map_eq_singleton_iff.mp provenance
  obtain ⟨second, isSecond, second'⟩ := List.map_eq_singleton_iff.mp provenance'
  simp only [BandRecord.provenance, Prod.mk.injEq] at first' second'
  have both : found [one, two] = [first, second] := by simp [found, isFirst, isSecond]
  have left : firsts recordId [first, second] = [first] := by
    simp [firsts, first'.1, second'.1]
  obtain ⟨x, there, -, is⟩ := (again_iff [] [one, two] []).mp again second (by simp [both])
    (by simp [second'.1]) "q2" second'.2.1
  rw [both, left] at there
  obtain rfl : x = first := by simpa [found] using there
  simp [first'.2.1] at is

end Band

end Clearotron
