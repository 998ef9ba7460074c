import Mathlib.Data.List.Infix
import Clearotron.Records.Artifacts

/-!
# What the passes keep

Laying a log over a folder and writing it back is keeping, for every record, the latest body
that carries content. Keeping is idempotent, so a pass over what a pass wrote changes
nothing, as long as no two records share a file and every fetch left both a body and a time.
-/

namespace Clearotron

variable {R : LetterCase}

namespace Keyed

variable {ν μ : Type}

/-- Writing the entries of a list, those that give a value. -/
theorem get_foldl_write {g : String → ν → Option μ}
    {put : Keyed String μ → String × ν → Keyed String μ}
    (puts : ∀ m e, put m e = (g e.1 e.2).elim m (m.set e.1)) {entries : List (String × ν)}
    (nodup : (entries.map Prod.fst).Nodup) (m : Keyed String μ) (k : String) :
    (entries.foldl put m).get k = ((entries.lookup k).bind (g k)).or (m.get k) := by
  induction entries generalizing m with
  | nil => rfl
  | cons e rest ih =>
      obtain ⟨absent, nodup⟩ := List.nodup_cons.mp nodup
      rw [List.foldl_cons, ih nodup, List.lookup_cons, puts]
      by_cases here : k = e.1
      · subst here
        have none : rest.lookup e.1 = none := by
          rw [List.lookup_eq_none_iff]
          intro p mem
          have apart : e.1 ≠ p.1 := by
            intro same
            rw [same] at absent
            exact absent (List.mem_map_of_mem mem)
          simpa using apart
        rw [none, beq_self_eq_true]
        cases value : g e.1 e.2 with
        | none => simp [value]
        | some v => simp [value, get_set]
      · have apart : (k == e.1) = false := by simpa using here
        rw [apart]
        cases g e.1 e.2 with
        | none => rfl
        | some v => simp [get_set, here]

theorem get_foldl_set (more m : Keyed String ν) (k : String) :
    (more.entries.foldl (fun m e => m.set e.1 e.2) m).get k = (more.get k).or (m.get k) := by
  have written := get_foldl_write (g := fun _ v => some v) (fun _ _ => rfl) more.nodup m k
  rw [Option.bind_fun_some] at written
  exact written

/-- The values under one key. -/
theorem values_at {entries : List (String × ν)} (nodup : (entries.map Prod.fst).Nodup) (k : String) :
    (entries.filter fun e => e.1 = k).map Prod.snd = (entries.lookup k).toList := by
  induction entries with
  | nil => rfl
  | cons e rest ih =>
      obtain ⟨absent, nodup⟩ := List.nodup_cons.mp nodup
      rw [List.lookup_cons]
      by_cases here : k = e.1
      · subst here
        have others : rest.filter (fun p => p.1 = e.1) = [] := by
          refine List.filter_eq_nil_iff.mpr fun p mem => ?_
          have apart : p.1 ≠ e.1 := by
            intro same
            rw [← same] at absent
            exact absent (List.mem_map_of_mem mem)
          simpa using apart
        simp [others]
      · have apart : (k == e.1) = false := by simpa using here
        rw [apart, List.filter_cons_of_neg (by simpa using Ne.symm here)]
        exact ih nodup

theorem mem_keys_iff {m : Keyed String ν} {k : String} : k ∈ m.keys ↔ ∃ v, m.get k = some v := by
  rw [mem_keys_iff_isSome, Option.isSome_iff_exists]

end Keyed

theorem get_keepRecord (map : RecordMap) (uri k : String) (body : JsonValue) :
    (keepRecord map uri body).get k =
      if k = uri then latest recordBodyHasContent (map.get uri) (some body) else map.get k := by
  unfold keepRecord
  cases old : map.get uri with
  | none => simp [Keyed.get_set]
  | some b =>
      unfold latest
      simp only [Option.any_some]
      split
      · rw [Keyed.get_set]
      · split
        · rename_i here
          rw [here, old]
        · rfl

theorem get_foldl_keepRecord (items : List (String × JsonValue)) (map : RecordMap) (k : String) :
    (items.foldl (fun m e => keepRecord m e.1 e.2) map).get k =
      latest recordBodyHasContent (map.get k)
        (latestOf recordBodyHasContent ((items.filter fun e => e.1 = k).map Prod.snd)) := by
  induction items generalizing map with
  | nil => simp
  | cons e items ih =>
      rw [List.foldl_cons, ih, get_keepRecord]
      by_cases here : e.1 = k
      · subst here
        rw [if_pos rfl, List.filter_cons_of_pos (by simp), List.map_cons, latestOf_cons,
          latest_assoc]
      · rw [if_neg (Ne.symm here), List.filter_cons_of_neg (by simpa using here)]

theorem latestOf_toList {α : Type} {full : α → Bool} (x : Option α) :
    latestOf full x.toList = x := by
  cases x <;> rfl

/-- A map of records laid over another. -/
theorem get_foldl_entries (more map : RecordMap) (k : String) :
    (more.entries.foldl (fun m e => keepRecord m e.1 e.2) map).get k =
      latest recordBodyHasContent (map.get k) (more.get k) := by
  rw [get_foldl_keepRecord, Keyed.values_at more.nodup, latestOf_toList]
  rfl

/-- What a fetch left: the body and the receipt. -/
abbrev Fetched := JsonValue × JsonValue

def Fetched.full (p : Fetched) : Bool := recordBodyHasContent p.1

theorem map_fst_latest (x y : Option Fetched) :
    (latest Fetched.full x y).map Prod.fst =
      latest recordBodyHasContent (x.map Prod.fst) (y.map Prod.fst) :=
  map_latest (fun _ _ => rfl) fun _ _ => rfl

/-- The rows of a record. -/
def rowsOf (R : LetterCase) (rows : List RecordRow) (u : String) : List RecordRow :=
  rows.filter fun row => row.target ≠ "" ∧ rowUri R row = u

def fetchedOf (R : LetterCase) (rows : List RecordRow) (u : String) : List Fetched :=
  (rowsOf R rows u).filterMap fun row => (rowBody row).map fun b => (b, rowReceipt row)

/-- Every fetch left a time, and an object for its body. -/
def RowsComplete (rows : List RecordRow) : Prop :=
  ∀ row ∈ rows, row.target ≠ "" → row.ts ≠ "" ∧ ∃ fields, rowBody row = some (.obj fields)

theorem rowsOf_append (rows more : List RecordRow) (u : String) :
    rowsOf R (rows ++ more) u = rowsOf R rows u ++ rowsOf R more u := List.filter_append ..

theorem fetchedOf_append (rows more : List RecordRow) (u : String) :
    fetchedOf R (rows ++ more) u = fetchedOf R rows u ++ fetchedOf R more u := by
  unfold fetchedOf
  rw [rowsOf_append, List.filterMap_append]

/-- One row, as it is fetched for a record. -/
theorem fetchedOf_singleton {row : RecordRow} {fields : List (String × JsonValue)}
    (isBody : rowBody row = some (.obj fields)) (u : String) :
    fetchedOf R [row] u =
      if row.target ≠ "" ∧ rowUri R row = u then [(.obj fields, rowReceipt row)] else [] := by
  unfold fetchedOf rowsOf
  by_cases here : row.target ≠ "" ∧ rowUri R row = u
  · rw [if_pos here, List.filter_cons_of_pos (by simpa using here)]
    simp [isBody]
  · rw [if_neg here, List.filter_cons_of_neg (by simpa using here)]
    rfl

theorem fetchedOf_no_target {row : RecordRow} (blank : row.target = "") (u : String) :
    fetchedOf R [row] u = [] := by
  unfold fetchedOf rowsOf
  rw [List.filter_cons_of_neg (by simp [blank])]
  rfl

theorem exists_row_of_fetched {rows : List RecordRow} {u : String} {p : Fetched}
    (mem : p ∈ fetchedOf R rows u) :
    ∃ row ∈ rows, row.target ≠ "" ∧ rowUri R row = u ∧ rowBody row = some p.1 ∧
      rowReceipt row = p.2 := by
  obtain ⟨row, isRow, isPair⟩ := List.mem_filterMap.mp mem
  obtain ⟨inLog, isTarget⟩ := List.mem_filter.mp isRow
  obtain ⟨named, isUri⟩ := of_decide_eq_true isTarget
  obtain ⟨b, isBody, rfl⟩ := Option.map_eq_some_iff.mp isPair
  exact ⟨row, inLog, named, isUri, isBody, rfl⟩

theorem fetched_is_obj {rows : List RecordRow} (complete : RowsComplete rows) {u : String}
    {p : Fetched} (mem : p ∈ fetchedOf R rows u) : ∃ fields, p.1 = .obj fields := by
  obtain ⟨row, isRow, named, -, isBody, -⟩ := exists_row_of_fetched mem
  obtain ⟨fields, isObj⟩ := (complete row isRow named).2
  rw [isBody] at isObj
  exact ⟨fields, Option.some.inj isObj⟩

theorem RowsComplete.split {rows : List RecordRow} {row : RecordRow}
    (complete : RowsComplete (rows ++ [row])) :
    RowsComplete rows ∧ (row.target ≠ "" →
      row.ts ≠ "" ∧ ∃ fields, rowBody row = some (.obj fields)) :=
  ⟨fun r mem => complete r (List.mem_append_left _ mem),
    complete row (List.mem_append_right _ List.mem_cons_self)⟩

/-- The log's map of bodies has, for each record, the latest that carries content. -/
theorem get_foldBodies {runPrefix : String} {log : List RecordRow}
    (complete : RowsComplete (runRows runPrefix log)) (u : String) :
    (foldBodies R runPrefix log).get u =
      (latestOf Fetched.full (fetchedOf R (runRows runPrefix log) u)).map Prod.fst := by
  unfold foldBodies
  generalize runRows runPrefix log = rows at complete
  induction rows using List.reverseRecOn with
  | nil => rfl
  | append_singleton rows row ih =>
      obtain ⟨before, last⟩ := complete.split
      rw [List.foldl_concat, fetchedOf_append, latestOf_append]
      by_cases blank : row.target = ""
      · rw [fetchedOf_no_target blank, latestOf_nil, latest_none_right, ← ih before]
        cases rowBody row with
        | none => rfl
        | some body => simp [blank]
      · obtain ⟨-, fields, isBody⟩ := last blank
        rw [isBody, fetchedOf_singleton isBody]
        dsimp only
        rw [if_pos ⟨blank, rfl⟩, get_keepRecord]
        by_cases here : rowUri R row = u
        · subst here
          rw [if_pos rfl, if_pos ⟨blank, rfl⟩, latestOf_singleton, ih before]
          exact (map_fst_latest _ (some (.obj fields, rowReceipt row))).symm
        · rw [if_neg (Ne.symm here), if_neg fun both => here both.2, latestOf_nil,
            latest_none_right, ih before]

/-- A body in a list is read where its receipt is. -/
theorem content_of_rowBody {row : RecordRow} {fields : List (String × JsonValue)}
    (isBody : rowBody row = some (.obj fields)) :
    row.body.any recordBodyHasContent = recordBodyHasContent (.obj fields) := by
  unfold rowBody at isBody
  split at isBody
  · rename_i items isItems
    rw [isItems, Option.any_some]
    unfold recordBodyHasContent
    dsimp only
    rw [isBody]
  · rw [isBody, Option.any_some]

/-- The receipts are those of the same fetches. -/
theorem get_foldReceipts {runPrefix : String} {log : List RecordRow}
    (complete : RowsComplete (runRows runPrefix log)) (u : String) :
    (foldReceipts R runPrefix log).map.get u =
        (latestOf Fetched.full (fetchedOf R (runRows runPrefix log) u)).map Prod.snd ∧
      (u ∈ (foldReceipts R runPrefix log).real ↔
        (latestOf Fetched.full (fetchedOf R (runRows runPrefix log) u)).any Fetched.full) := by
  unfold foldReceipts
  generalize runRows runPrefix log = rows at complete
  induction rows using List.reverseRecOn generalizing u with
  | nil => exact ⟨rfl, by simp [fetchedOf, rowsOf]⟩
  | append_singleton rows row ih =>
      obtain ⟨before, last⟩ := complete.split
      rw [List.foldl_concat, fetchedOf_append, latestOf_append]
      by_cases blank : row.target = ""
      · rw [if_pos (.inl blank), fetchedOf_no_target blank, latestOf_nil, latest_none_right]
        exact ih u before
      · obtain ⟨timed, fields, isBody⟩ := last blank
        obtain ⟨isMap, isReal⟩ := ih u before
        rw [if_neg (by simp [blank, timed]), fetchedOf_singleton isBody, content_of_rowBody isBody]
        dsimp only
        generalize rows.foldl _ _ = s at isMap isReal
        generalize latestOf Fetched.full (fetchedOf R rows u) = kept at isMap isReal
        let p : Fetched := (.obj fields, rowReceipt row)
        have content : recordBodyHasContent (.obj fields) = p.full := rfl
        rw [content]
        by_cases here : rowUri R row = u
        · subst here
          rw [if_pos (show row.target ≠ "" ∧ rowUri R row = rowUri R row from ⟨blank, rfl⟩),
            latestOf_singleton, any_latest, Option.any_some]
          by_cases standIn : p.full = false ∧ rowUri R row ∈ s.real
          · -- a placeholder after the record itself
            obtain ⟨q, rfl, whole⟩ := (Option.any_eq_true _ _).mp (isReal.mp standIn.2)
            rw [if_pos (by simpa using standIn), latest_of_not_full whole standIn.1, standIn.1,
              Bool.or_false]
            exact ⟨isMap, isReal⟩
          · rw [if_neg (by simpa using standIn)]
            have replaced : latest Fetched.full kept (some p) = some p := by
              cases whole : p.full with
              | true => exact latest_of_full whole
              | false =>
                  have none : kept.any Fetched.full = false :=
                    eq_false_of_ne_true fun any => standIn ⟨whole, isReal.mpr any⟩
                  cases kept with
                  | none => rfl
                  | some q => simp [latest, show q.full = false from none]
            refine ⟨?_, ?_⟩
            · rw [replaced, Keyed.get_set, if_pos rfl]
              rfl
            · cases whole : p.full with
              | true => simp
              | false => simpa using isReal
        · rw [if_neg (show ¬(row.target ≠ "" ∧ rowUri R row = u) from fun both => here both.2),
            latestOf_nil, latest_none_right]
          split
          · exact ⟨isMap, isReal⟩
          · refine ⟨?_, ?_⟩
            · rw [Keyed.get_set, if_neg (Ne.symm here)]
              exact isMap
            · split
              · rw [List.mem_cons, or_iff_right (Ne.symm here)]
                exact isReal
              · exact isReal

/-- Every file stands under the name that its record's URI gives. -/
def FolderNamed (R : LetterCase) (folder : RecordFolder) : Prop :=
  ∀ name fields, folder.get name = some (some (.obj fields)) →
    ".json".toList <:+ name.toList → name = artifactName (artifactUri R name fields)

theorem suffix_artifactName (u : String) : ".json".toList <:+ (artifactName u).toList := by
  obtain ⟨path, isName⟩ :
      ∃ path, artifactName u = String.ofList (squash false path ++ ".json".toList) := ⟨_, rfl⟩
  rw [isName, String.toList_ofList (l := squash false path ++ ".json".toList)]
  exact List.suffix_append _ _

theorem readArtifact_eq_some {folder : RecordFolder} {name u : String} {b : JsonValue} :
    readArtifact R folder name = some (u, b) ↔
      ∃ fields, folder.get name = some (some (.obj fields)) ∧ artifactUri R name fields = u ∧
        b = .obj fields := by
  constructor
  · intro isRead
    unfold readArtifact at isRead
    split at isRead
    · rename_i fields found
      have pair := Prod.mk.inj (Option.some.inj isRead)
      exact ⟨fields, found, pair.1, pair.2.symm⟩
    · cases isRead
  · rintro ⟨fields, found, isUri, isBody⟩
    unfold readArtifact
    rw [found, isBody, ← isUri]

/-- Reading files one by one, where only one of them is of the record. -/
theorem get_foldl_read {folder : RecordFolder} {u name₀ : String} {names : List String}
    (only : ∀ name ∈ names, ∀ b, readArtifact R folder name = some (u, b) → name = name₀)
    (map : RecordMap) :
    (names.foldl (fun map name =>
      match readArtifact R folder name with
      | some (uri, body) => map.set uri body
      | none => map) map).get u =
      if name₀ ∈ names ∧ (readArtifact R folder name₀).map Prod.fst = some u then
        (readArtifact R folder name₀).map Prod.snd
      else map.get u := by
  induction names generalizing map with
  | nil => simp
  | cons name names ih =>
      obtain ⟨first, rest⟩ := List.forall_mem_cons.mp only
      rw [List.foldl_cons, ih rest]
      by_cases later : name₀ ∈ names ∧ (readArtifact R folder name₀).map Prod.fst = some u
      · rw [if_pos later, if_pos ⟨List.mem_cons_of_mem _ later.1, later.2⟩]
      · rw [if_neg later]
        cases isRead : readArtifact R folder name with
        | none =>
            by_cases here : name₀ = name
            · subst here
              rw [if_neg (by rw [isRead]; simp)]
            · rw [if_neg]
              rintro ⟨mem, isUri⟩
              exact later ⟨(List.mem_cons.mp mem).resolve_left here, isUri⟩
        | some read =>
            obtain ⟨v, b⟩ := read
            dsimp only
            rw [Keyed.get_set]
            by_cases here : u = v
            · subst here
              obtain rfl := first b isRead
              rw [if_pos rfl, if_pos ⟨List.mem_cons_self, by rw [isRead]; rfl⟩, isRead]
              rfl
            · rw [if_neg here, if_neg]
              rintro ⟨mem, isUri⟩
              rcases List.mem_cons.mp mem with same | mem
              · rw [same, isRead] at isUri
                exact here (Option.some.inj isUri).symm
              · exact later ⟨mem, isUri⟩

/-- In a folder of such files, a record is read from its own. -/
theorem get_readRecordArtifacts {folder : RecordFolder} (named : FolderNamed R folder)
    {u : String} {b : JsonValue} :
    (readRecordArtifacts R folder).get u = some b ↔
      readArtifact R folder (artifactName u) = some (u, b) := by
  have only : ∀ name ∈ artifactNames folder, ∀ b,
      readArtifact R folder name = some (u, b) → name = artifactName u := by
    intro name mem b isRead
    obtain ⟨fields, found, isUri, -⟩ := readArtifact_eq_some.mp isRead
    have listed := List.mem_filter.mp ((List.mem_insertionSort _).mp mem)
    rw [named name fields found (List.isSuffixOf_iff_suffix.mp listed.2), isUri]
  rw [show (readRecordArtifacts R folder).get u = _ from get_foldl_read only .empty]
  constructor
  · intro found
    split at found
    · rename_i here
      obtain ⟨⟨v, b'⟩, isRead, rfl⟩ := Option.map_eq_some_iff.mp found
      rw [isRead] at here ⊢
      obtain rfl : v = u := Option.some.inj here.2
      rfl
    · cases found
  · intro isRead
    obtain ⟨fields, found, -, -⟩ := readArtifact_eq_some.mp isRead
    have listed : artifactName u ∈ artifactNames folder := by
      refine (List.mem_insertionSort _).mpr (List.mem_filter.mpr ⟨Keyed.mem_keys_iff.mpr ⟨_, found⟩, ?_⟩)
      exact List.isSuffixOf_iff_suffix.mpr (suffix_artifactName u)
    rw [if_pos ⟨listed, by rw [isRead]; rfl⟩, isRead]
    rfl

theorem readRecordArtifacts_is_obj {folder : RecordFolder} (named : FolderNamed R folder)
    {u : String} {b : JsonValue} (found : (readRecordArtifacts R folder).get u = some b) :
    ∃ fields, b = .obj fields := by
  obtain ⟨fields, -, -, isObj⟩ :=
    readArtifact_eq_some.mp ((get_readRecordArtifacts named).mp found)
  exact ⟨fields, isObj⟩

/-- A URI as it is kept: in lower case, and there is one. -/
def IsUri (R : LetterCase) (u : String) : Prop := R.lower u = u ∧ u ≠ ""

theorem isUri_lower {u : String} (named : u ≠ "") : IsUri R (R.lower u) :=
  ⟨R.lower_lower u, R.lower_ne_empty u named⟩

theorem isUri_artifactUri (name : String) (fields : List (String × JsonValue)) :
    IsUri R (artifactUri R name fields) := by
  have derived : IsUri R (R.lower (String.ofList ("/mark/".toList ++ name.toList.take 2 ++
      "/".toList ++ (name.toList.drop 3).take (name.toList.length - 8)))) := by
    apply isUri_lower
    intro blank
    have := congrArg String.toList blank
    rw [String.toList_ofList] at this
    simp at this
  unfold artifactUri
  split
  · split
    · exact derived
    · exact isUri_lower ‹_›
  · exact derived

/-- A file that is written says whose it is. -/
theorem artifactUri_artifactOf {u : String} (isUri : IsUri R u) (name : String) (b : JsonValue)
    (receipt : Option JsonValue) {fields : List (String × JsonValue)}
    (isFields : artifactOf u b receipt = .obj fields) :
    fields.lookup "_uri" = some (.str u) ∧ artifactUri R name fields = u := by
  have own : fields.lookup "_uri" = some (.str u) := by
    unfold artifactOf at isFields
    obtain rfl := JsonValue.obj.inj isFields
    cases receipt with
    | none => rw [Keyed.lookup_write, if_pos rfl]
    | some ρ => rw [Keyed.lookup_write, if_neg (by decide), Keyed.lookup_write, if_pos rfl]
  refine ⟨own, ?_⟩
  unfold artifactUri
  rw [own]
  dsimp only
  rw [if_neg isUri.2, isUri.1]

/-- What the records write over, and what they leave. -/
theorem get_foldl_file (content : String → JsonValue → Option JsonValue) (name : String)
    {entries : List (String × JsonValue)} (nodup : (entries.map Prod.fst).Nodup)
    (folder : RecordFolder) :
    (∀ u ∈ entries.map Prod.fst, artifactName u ≠ name) ∧
        (entries.foldl (fun folder e =>
          folder.set (artifactName e.1) (content e.1 e.2)) folder).get name = folder.get name ∨
      ∃ u b, (u, b) ∈ entries ∧ artifactName u = name ∧
        (entries.foldl (fun folder e =>
          folder.set (artifactName e.1) (content e.1 e.2)) folder).get name =
            some (content u b) := by
  induction entries generalizing folder with
  | nil => exact .inl ⟨nofun, rfl⟩
  | cons e rest ih =>
      obtain ⟨absent, nodup⟩ := List.nodup_cons.mp nodup
      rw [List.foldl_cons]
      rcases ih nodup (folder.set (artifactName e.1) (content e.1 e.2)) with
        ⟨others, same⟩ | ⟨u, b, mem, isName, same⟩
      · rw [same, Keyed.get_set]
        by_cases here : name = artifactName e.1
        · rw [if_pos here]
          exact .inr ⟨e.1, e.2, List.mem_cons_self, here.symm, rfl⟩
        · rw [if_neg here]
          exact .inl ⟨List.forall_mem_cons.mpr ⟨Ne.symm here, others⟩, rfl⟩
      · exact .inr ⟨u, b, List.mem_cons_of_mem _ mem, isName, same⟩

/-- The fields of a body, without what the files add. -/
def coreFields (b : JsonValue) : List (String × JsonValue) :=
  b.spread.filter fun f => f.1 ≠ "_uri" && f.1 ≠ "_receipt"

def coreFull (fields : List (String × JsonValue)) : Bool :=
  fields.any fun f => ownField f.1 && f.2.holdsValue 9

/-- What the files add is not the record's content. -/
theorem coreFull_coreFields (fields : List (String × JsonValue)) :
    coreFull (coreFields (.obj fields)) = recordBodyHasContent (.obj fields) := by
  have apart : ∀ f : String × JsonValue, ownField f.1 = true →
      f.1 ≠ "_uri" ∧ f.1 ≠ "_receipt" := by
    intro f own
    constructor
    · intro same
      rw [same] at own
      exact absurd own (by decide)
    · intro same
      rw [same] at own
      exact absurd own (by decide)
  unfold coreFull coreFields recordBodyHasContent
  dsimp only [JsonValue.spread]
  rw [List.any_filter, Bool.eq_iff_iff, List.any_eq_true, List.any_eq_true]
  constructor
  · rintro ⟨f, mem, holds⟩
    exact ⟨f, mem, (Bool.and_eq_true_iff.mp holds).2⟩
  · rintro ⟨f, mem, holds⟩
    have := apart f (Bool.and_eq_true_iff.mp holds).1
    exact ⟨f, mem, by rw [Bool.and_eq_true_iff]; exact ⟨by simpa using this, holds⟩⟩

theorem filter_write {p : String × JsonValue → Bool} {key : String}
    (drops : ∀ v, p (key, v) = false) (fields : List (String × JsonValue)) (v : JsonValue) :
    (Keyed.write fields key v).filter p = fields.filter p := by
  induction fields with
  | nil => exact List.filter_cons_of_neg (by simp [drops])
  | cons f rest ih =>
      obtain ⟨k, w⟩ := f
      unfold Keyed.write
      split
      · rename_i same
        subst same
        rw [List.filter_cons_of_neg (by simp [drops]), List.filter_cons_of_neg (by simp [drops])]
      · rw [List.filter_cons, List.filter_cons, ih]

theorem coreFields_artifactOf (u : String) (b : JsonValue) (receipt : Option JsonValue) :
    coreFields (artifactOf u b receipt) = coreFields b := by
  unfold artifactOf
  dsimp only
  cases receipt with
  | none => exact filter_write (fun _ => rfl) _ _
  | some ρ => exact (filter_write (fun _ => rfl) _ _).trans (filter_write (fun _ => rfl) _ _)

/-- The receipt in a file that is written: the one given, or the one the body had. -/
theorem receiptIn_artifactOf (u : String) (fields : List (String × JsonValue))
    {receipt : Option JsonValue} (isObject : ∀ ρ ∈ receipt, ρ.isObject = true) :
    receiptIn (artifactOf u (.obj fields) receipt) = receipt.or (receiptIn (.obj fields)) := by
  unfold artifactOf receiptIn
  dsimp only
  cases receipt with
  | none => rw [Keyed.lookup_write, if_neg (by decide)]; rfl
  | some ρ => rw [Keyed.lookup_write, if_pos rfl, Option.filter_some_pos (isObject ρ rfl)]; rfl

/-- What is kept of a record: its fields, and its receipt. -/
abbrev KeptRecord := List (String × JsonValue) × Option JsonValue

def KeptRecord.full (k : KeptRecord) : Bool := coreFull k.1

theorem map_fst_latest_kept (x y : Option KeptRecord) :
    (latest KeptRecord.full x y).map Prod.fst = latest coreFull (x.map Prod.fst) (y.map Prod.fst) :=
  map_latest (fun _ _ => rfl) fun _ _ => rfl

/-- What the folder keeps. -/
def inFolder (R : LetterCase) (folder : RecordFolder) (u : String) : Option KeptRecord :=
  ((readRecordArtifacts R folder).get u).map fun b => (coreFields b, receiptIn b)

/-- What the fetches left. -/
def inLog (R : LetterCase) (rows : List RecordRow) (u : String) : Option KeptRecord :=
  (latestOf Fetched.full (fetchedOf R rows u)).map fun p => (coreFields p.1, some p.2)

/-- No two records have one file name, those of the folder and of the log together. -/
def NamesApart (R : LetterCase) (folder : RecordFolder) (rows : List RecordRow) : Prop :=
  ∀ u v, (inFolder R folder u).isSome ∨ fetchedOf R rows u ≠ [] →
    (inFolder R folder v).isSome ∨ fetchedOf R rows v ≠ [] →
      artifactName u = artifactName v → u = v

/-- A record that the folder has with content is fetched with content, if at all. -/
def FetchedWhole (R : LetterCase) (folder : RecordFolder) (rows : List RecordRow) : Prop :=
  ∀ u, (inFolder R folder u).any KeptRecord.full → fetchedOf R rows u ≠ [] →
    (fetchedOf R rows u).any Fetched.full

/-- What a pass needs of the folder and the rows of the run. -/
structure PassFits (R : LetterCase) (folder : RecordFolder) (rows : List RecordRow) : Prop where
  complete : RowsComplete rows
  apart : NamesApart R folder rows
  whole : FetchedWhole R folder rows

/-- What a record is after a pass. -/
def afterPass (R : LetterCase) (folder : RecordFolder) (rows : List RecordRow) (u : String) :
    Option KeptRecord :=
  latest KeptRecord.full (inFolder R folder u) (inLog R rows u)

section

variable {runPrefix : String} {folder : RecordFolder} {log : List RecordRow} {u : String}

theorem get_records (complete : RowsComplete (runRows runPrefix log)) :
    (assembleRows R runPrefix folder log).records.get u =
      latest recordBodyHasContent ((readRecordArtifacts R folder).get u)
        ((latestOf Fetched.full (fetchedOf R (runRows runPrefix log) u)).map Prod.fst) := by
  rw [← get_foldBodies complete]
  exact get_foldl_entries _ _ _

theorem get_receipts (complete : RowsComplete (runRows runPrefix log)) :
    (assembleRows R runPrefix folder log).receipts.get u =
      ((latestOf Fetched.full (fetchedOf R (runRows runPrefix log) u)).map Prod.snd).or
        (((readRecordArtifacts R folder).get u).bind receiptIn) := by
  rw [← (get_foldReceipts complete u).1]
  refine (Keyed.get_foldl_set _ _ _).trans (congrArg _ ?_)
  refine (Keyed.get_foldl_write (g := fun _ b => receiptIn b) ?_
    (readRecordArtifacts R folder).nodup .empty u).trans ?_
  · intro m e
    cases receiptIn e.2 <;> rfl
  · rw [Keyed.get_empty, Option.or_none]
    rfl

/-- The bodies after a pass are the fields that are kept. -/
theorem core_records (named : FolderNamed R folder)
    (complete : RowsComplete (runRows runPrefix log)) :
    ((assembleRows R runPrefix folder log).records.get u).map coreFields =
      (afterPass R folder (runRows runPrefix log) u).map Prod.fst := by
  have onFolder : ∀ b ∈ (readRecordArtifacts R folder).get u,
      coreFull (coreFields b) = recordBodyHasContent b := by
    intro b found
    obtain ⟨fields, rfl⟩ := readRecordArtifacts_is_obj named found
    exact coreFull_coreFields fields
  have onLog : ∀ b ∈ (latestOf Fetched.full (fetchedOf R (runRows runPrefix log) u)).map Prod.fst,
      coreFull (coreFields b) = recordBodyHasContent b := by
    intro b found
    obtain ⟨p, kept, rfl⟩ := Option.map_eq_some_iff.mp found
    obtain ⟨fields, isObj⟩ := fetched_is_obj complete (mem_of_latestOf kept)
    rw [isObj]
    exact coreFull_coreFields fields
  rw [get_records complete, map_latest onFolder onLog]
  unfold afterPass inFolder inLog
  rw [map_fst_latest_kept]
  simp only [Option.map_map]
  rfl

/-- The receipts after a pass are those that are kept. -/
theorem kept_receipts (fits : PassFits R folder (runRows runPrefix log)) :
    (assembleRows R runPrefix folder log).receipts.get u =
      (afterPass R folder (runRows runPrefix log) u).bind Prod.snd := by
  rw [get_receipts fits.complete]
  unfold afterPass inLog
  cases fetched : latestOf Fetched.full (fetchedOf R (runRows runPrefix log) u) with
  | none =>
      rw [Option.map_none, Option.none_or, Option.map_none, latest_none_right]
      unfold inFolder
      cases (readRecordArtifacts R folder).get u <;> rfl
  | some p =>
      rw [Option.map_some, Option.some_or, Option.map_some]
      obtain ⟨fields, isObj⟩ := fetched_is_obj fits.complete (mem_of_latestOf fetched)
      have content : KeptRecord.full (coreFields p.1, some p.2) = p.full := by
        unfold KeptRecord.full Fetched.full
        rw [isObj]
        exact coreFull_coreFields fields
      cases whole : p.full with
      | true => rw [latest_of_full (content.trans whole)]; rfl
      | false =>
          -- a placeholder is the latest only where the folder has no more either
          have none : (inFolder R folder u).any KeptRecord.full = false := by
            apply eq_false_of_ne_true
            intro held
            have some' : fetchedOf R (runRows runPrefix log) u ≠ [] := by
              intro nothing
              rw [nothing] at fetched
              cases fetched
            have any := fits.whole u held some'
            rw [← any_latestOf, fetched, Option.any_some, whole] at any
            cases any
          cases held : inFolder R folder u with
          | none => rfl
          | some k =>
              rw [held, Option.any_some] at none
              simp [latest, none]

theorem records_is_obj (named : FolderNamed R folder)
    (complete : RowsComplete (runRows runPrefix log)) {b : JsonValue}
    (found : (assembleRows R runPrefix folder log).records.get u = some b) :
    ∃ fields, b = .obj fields := by
  rw [get_records complete] at found
  rcases @latest_eq _ recordBodyHasContent ((readRecordArtifacts R folder).get u)
    ((latestOf Fetched.full (fetchedOf R (runRows runPrefix log) u)).map Prod.fst) with old | new
  · rw [old] at found
    exact readRecordArtifacts_is_obj named found
  · rw [new] at found
    obtain ⟨p, kept, rfl⟩ := Option.map_eq_some_iff.mp found
    exact fetched_is_obj complete (mem_of_latestOf kept)

/-- A record is in the set where the folder or the log has it. -/
theorem mem_records (named : FolderNamed R folder)
    (complete : RowsComplete (runRows runPrefix log)) {b : JsonValue}
    (found : (assembleRows R runPrefix folder log).records.get u = some b) :
    ((inFolder R folder u).isSome ∨ fetchedOf R (runRows runPrefix log) u ≠ []) ∧ IsUri R u := by
  rw [get_records complete] at found
  rcases @latest_eq _ recordBodyHasContent ((readRecordArtifacts R folder).get u)
    ((latestOf Fetched.full (fetchedOf R (runRows runPrefix log) u)).map Prod.fst) with old | new
  · rw [old] at found
    obtain ⟨fields, -, isUri, -⟩ :=
      readArtifact_eq_some.mp ((get_readRecordArtifacts named).mp found)
    refine ⟨.inl ?_, isUri ▸ isUri_artifactUri _ fields⟩
    unfold inFolder
    rw [found]
    rfl
  · rw [new] at found
    obtain ⟨p, kept, -⟩ := Option.map_eq_some_iff.mp found
    have mem := mem_of_latestOf kept
    obtain ⟨row, -, target, isUri, -⟩ := exists_row_of_fetched mem
    exact ⟨.inr (List.ne_nil_of_mem mem), isUri ▸ isUri_lower target⟩

/-- After a pass each record stands in its own file. -/
theorem get_folder (named : FolderNamed R folder)
    (fits : PassFits R folder (runRows runPrefix log)) {b : JsonValue}
    (found : (assembleRows R runPrefix folder log).records.get u = some b) :
    (assembleRows R runPrefix folder log).folder.get (artifactName u) =
      some (some (artifactOf u b ((assembleRows R runPrefix folder log).receipts.get u))) := by
  let pass := assembleRows R runPrefix folder log
  rcases get_foldl_file (fun u b => some (artifactOf u b (pass.receipts.get u)))
    (artifactName u) pass.records.nodup folder with ⟨others, -⟩ | ⟨v, c, mem, same, isFile⟩
  · exact absurd rfl (others u (Keyed.mem_keys_iff.mpr ⟨b, found⟩))
  · have isEntry : pass.records.get v = some c := by
      obtain ⟨c', held⟩ := Keyed.mem_keys_iff.mp (Keyed.mem_keys_of_mem mem)
      rw [Keyed.value_unique mem (Keyed.get_eq_some.mp held)]
      exact held
    obtain rfl := fits.apart v u (mem_records named fits.complete isEntry).1
      (mem_records named fits.complete found).1 same
    obtain rfl := Option.some.inj (isEntry.symm.trans found)
    exact isFile

/-- What the folder of a pass has that no record was written to, it had before. -/
theorem get_folder_old {name : String} {content : Option JsonValue}
    (found : (assembleRows R runPrefix folder log).folder.get name = some content) :
    folder.get name = some content ∨
      ∃ v b, (assembleRows R runPrefix folder log).records.get v = some b ∧
        artifactName v = name ∧ content = some (artifactOf v b
          ((assembleRows R runPrefix folder log).receipts.get v)) := by
  let pass := assembleRows R runPrefix folder log
  rcases get_foldl_file (fun u b => some (artifactOf u b (pass.receipts.get u)))
    name pass.records.nodup folder with ⟨-, isOld⟩ | ⟨v, c, mem, same, isFile⟩
  · exact .inl (isOld ▸ found)
  · obtain ⟨c', held⟩ := Keyed.mem_keys_iff.mp (Keyed.mem_keys_of_mem mem)
    obtain rfl := Keyed.value_unique mem (Keyed.get_eq_some.mp held)
    exact .inr ⟨v, c, held, same, Option.some.inj (found.symm.trans isFile)⟩

theorem folderNamed_pass (named : FolderNamed R folder)
    (complete : RowsComplete (runRows runPrefix log)) :
    FolderNamed R (assembleRows R runPrefix folder log).folder := by
  intro name fields found json
  rcases get_folder_old found with old | ⟨v, b, held, isName, isFile⟩
  · exact named name fields old json
  · have own := artifactUri_artifactOf (mem_records named complete held).2 name b _
      (Option.some.inj isFile).symm
    rw [own.2, isName]

theorem isObject_receipt (complete : RowsComplete (runRows runPrefix log)) {ρ : JsonValue}
    (found : (assembleRows R runPrefix folder log).receipts.get u = some ρ) :
    ρ.isObject = true := by
  rw [get_receipts complete] at found
  rcases Option.or_eq_some_iff.mp found with fresh | ⟨-, embedded⟩
  · obtain ⟨p, kept, rfl⟩ := Option.map_eq_some_iff.mp fresh
    obtain ⟨row, -, -, -, -, isReceipt⟩ := exists_row_of_fetched (mem_of_latestOf kept)
    rw [← isReceipt]
    rfl
  · obtain ⟨b, -, isReceipt⟩ := Option.bind_eq_some_iff.mp embedded
    unfold receiptIn at isReceipt
    split at isReceipt
    · exact (Option.filter_eq_some_iff.mp isReceipt).2
    · cases isReceipt

/-- The file of a record has its receipt, and no other. -/
theorem receiptIn_pass (complete : RowsComplete (runRows runPrefix log))
    {fields : List (String × JsonValue)}
    (found : (assembleRows R runPrefix folder log).records.get u = some (.obj fields)) :
    receiptIn (artifactOf u (.obj fields)
        ((assembleRows R runPrefix folder log).receipts.get u)) =
      (assembleRows R runPrefix folder log).receipts.get u := by
  rw [receiptIn_artifactOf u fields fun ρ isReceipt => isObject_receipt complete isReceipt]
  cases receipt : (assembleRows R runPrefix folder log).receipts.get u with
  | some ρ => rfl
  | none =>
      rw [get_receipts complete, Option.or_eq_none_iff, Option.map_eq_none_iff] at receipt
      rw [get_records complete, receipt.1, Option.map_none, latest_none_right] at found
      have embedded := receipt.2
      rw [found, Option.bind_some] at embedded
      rw [embedded]
      rfl

/-- A pass leaves in the folder what it keeps. -/
theorem inFolder_pass (named : FolderNamed R folder)
    (fits : PassFits R folder (runRows runPrefix log)) :
    inFolder R (assembleRows R runPrefix folder log).folder u =
      afterPass R folder (runRows runPrefix log) u := by
  have bodies := core_records (u := u) named fits.complete
  have receipts := kept_receipts (u := u) fits
  cases found : (assembleRows R runPrefix folder log).records.get u with
  | none =>
      rw [found] at bodies
      have nothing : afterPass R folder (runRows runPrefix log) u = none :=
        Option.map_eq_none_iff.mp bodies.symm
      rw [nothing]
      unfold inFolder
      rw [Option.map_eq_none_iff]
      by_contra held
      obtain ⟨b, held⟩ := Option.ne_none_iff_exists'.mp held
      obtain ⟨fields, isFile, isUri, -⟩ := readArtifact_eq_some.mp
        ((get_readRecordArtifacts (folderNamed_pass named fits.complete)).mp held)
      rcases get_folder_old isFile with old | ⟨v, c, isRecord, -, isContent⟩
      · -- then the folder had the record before the pass
        have before : (readRecordArtifacts R folder).get u = some (.obj fields) :=
          (get_readRecordArtifacts named).mpr
            (readArtifact_eq_some.mpr ⟨fields, old, isUri, rfl⟩)
        rw [get_records fits.complete, before, latest_eq_none] at found
        cases found.1
      · have own := artifactUri_artifactOf (mem_records named fits.complete isRecord).2
          (artifactName u) c _ (Option.some.inj isContent).symm
        obtain rfl : v = u := own.2.symm.trans isUri
        rw [isRecord] at found
        cases found
  | some b =>
      obtain ⟨bodyFields, rfl⟩ := records_is_obj named fits.complete found
      obtain ⟨fields, isFields⟩ : ∃ fields, artifactOf u (.obj bodyFields)
          ((assembleRows R runPrefix folder log).receipts.get u) = .obj fields := ⟨_, rfl⟩
      have own := artifactUri_artifactOf (mem_records named fits.complete found).2
        (artifactName u) (.obj bodyFields) _ isFields
      have isRead : (readRecordArtifacts R
          (assembleRows R runPrefix folder log).folder).get u = some (.obj fields) := by
        apply (get_readRecordArtifacts (folderNamed_pass named fits.complete)).mpr
        apply readArtifact_eq_some.mpr
        exact ⟨fields, by rw [get_folder named fits found, isFields], own.2, rfl⟩
      rw [found, Option.map_some] at bodies
      obtain ⟨k, kept, sameFields⟩ := Option.map_eq_some_iff.mp bodies.symm
      rw [kept, Option.bind_some] at receipts
      unfold inFolder
      rw [isRead, Option.map_some, ← isFields, coreFields_artifactOf, kept]
      rw [receiptIn_pass fits.complete found, receipts, ← sameFields]

end

end Clearotron
