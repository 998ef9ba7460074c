import Clearotron.Records.Assembled

/-!
# A run of passes

Fetches and passes follow one another in any order. As long as each pass finds what it
needs, the folder holds, after every pass, what the inherited folder and the whole log come
to, whatever was passed over before.
-/

namespace Clearotron

variable {R : LetterCase} {L : LogReader} {runPrefix : String}

/-- The folder a run began with, the folder as it is, and the text of the record log. -/
structure RecordRun where
  inherited : RecordFolder
  folder : RecordFolder
  log : List Char

/-- A fetch appends a line to a log whose last line is ended, and a pass writes the folder. -/
inductive RecordStep (R : LetterCase) (L : LogReader) (runPrefix : String)
    (fits : RecordRun → LedgerFile → Prop) : RecordRun → RecordRun → Prop
  | fetch (s : RecordRun) (row : List Char) (ended : LedgerLines.lineTail s.log = []) :
      RecordStep R L runPrefix fits s { s with log := s.log ++ (row ++ ['\n']) }
  | pass (s : RecordRun) (file : LedgerFile) (h : fits s file) :
      RecordStep R L runPrefix fits s
        { s with folder := (assembleRunRecords R L runPrefix s.folder file).folder }

/-- The rows of the run in its log. -/
def RecordRun.rows (L : LogReader) (runPrefix : String) (s : RecordRun) : List RecordRow :=
  runRows runPrefix (L.rows s.log)

/-- What a pass needs of the run, and of the walk over its log. -/
structure RecordRun.Fits (R : LetterCase) (L : LogReader) (runPrefix : String) (s : RecordRun)
    (file : LedgerFile) : Prop where
  sees : L.Sees runPrefix s.log file
  pass : PassFits R s.folder (s.rows L runPrefix)

/-- The states of runs all of whose passes find what they need. -/
abbrev RecordReaches (R : LetterCase) (L : LogReader) (runPrefix : String) : RecordRun → Prop :=
  Reaches (fun s => s.folder = s.inherited ∧ FolderNamed R s.inherited)
    (RecordStep R L runPrefix (RecordRun.Fits R L runPrefix))

theorem runRows_append (log more : List RecordRow) :
    runRows runPrefix (log ++ more) = runRows runPrefix log ++ runRows runPrefix more :=
  List.filter_append ..

theorem full_of_fetched {rows : List RecordRow} (complete : RowsComplete rows) {u : String}
    {p : Fetched} (mem : p ∈ fetchedOf R rows u) :
    KeptRecord.full (coreFields p.1, some p.2) = p.full := by
  obtain ⟨fields, isObj⟩ := fetched_is_obj complete mem
  unfold KeptRecord.full Fetched.full
  rw [isObj]
  exact coreFull_coreFields fields

theorem inLog_append {rows more : List RecordRow} (complete : RowsComplete (rows ++ more))
    (u : String) :
    inLog R (rows ++ more) u = latest KeptRecord.full (inLog R rows u) (inLog R more u) := by
  unfold inLog
  rw [fetchedOf_append, latestOf_append, map_latest]
  · intro p kept
    exact full_of_fetched (fun row mem => complete row (List.mem_append_left _ mem))
      (mem_of_latestOf kept)
  · intro p kept
    exact full_of_fetched (fun row mem => complete row (List.mem_append_right _ mem))
      (mem_of_latestOf kept)

theorem any_inLog {rows : List RecordRow} (complete : RowsComplete rows) (u : String) :
    (inLog R rows u).any KeptRecord.full = (fetchedOf R rows u).any Fetched.full := by
  unfold inLog
  rw [← any_latestOf]
  cases kept : latestOf Fetched.full (fetchedOf R rows u) with
  | none => rfl
  | some p => exact full_of_fetched complete (mem_of_latestOf kept)

theorem inLog_eq_none {rows : List RecordRow} {u : String} :
    inLog R rows u = none ↔ fetchedOf R rows u = [] := by
  unfold inLog
  rw [Option.map_eq_none_iff, latestOf_eq_none]

/-- The folder has what the inherited one and a part of the log come to. -/
structure FolderKept (R : LetterCase) (L : LogReader) (runPrefix : String) (s : RecordRun) :
    Prop where
  first : FolderNamed R s.inherited
  named : FolderNamed R s.folder
  kept : ∃ seen more, s.rows L runPrefix = seen ++ more ∧ ∀ u, inFolder R s.folder u =
    latest KeptRecord.full (inFolder R s.inherited u) (inLog R seen u)

/-- A pass over such a folder comes to what the whole log does. -/
theorem FolderKept.afterPass {s : RecordRun} (kept : FolderKept R L runPrefix s)
    (complete : RowsComplete (s.rows L runPrefix)) (u : String) :
    afterPass R s.folder (s.rows L runPrefix) u =
      latest KeptRecord.full (inFolder R s.inherited u) (inLog R (s.rows L runPrefix) u) := by
  obtain ⟨seen, more, isLog, isFolder⟩ := kept.kept
  rw [isLog] at complete ⊢
  unfold Clearotron.afterPass
  rw [isFolder, inLog_append complete, latest_assoc, latest_absorb]

/-- A fetch adds to the rows. -/
theorem rows_fetch {s : RecordRun} (ended : LedgerLines.lineTail s.log = []) (more : List Char) :
    ({ s with log := s.log ++ more } : RecordRun).rows L runPrefix =
      s.rows L runPrefix ++ runRows runPrefix (L.rows more) := by
  unfold RecordRun.rows
  rw [LogReader.rows_append ended, runRows_append]

theorem RecordReaches.kept {s : RecordRun} (reached : RecordReaches R L runPrefix s) :
    FolderKept R L runPrefix s := by
  apply reached.invariant
  · rintro s ⟨same, named⟩
    refine ⟨named, same ▸ named, [], s.rows L runPrefix, rfl, fun u => ?_⟩
    rw [same]
    exact (latest_none_right _).symm
  · intro s s' kept step
    cases step with
    | fetch row ended =>
        obtain ⟨seen, more, isLog, isFolder⟩ := kept.kept
        refine ⟨kept.first, kept.named, seen,
          more ++ runRows runPrefix (L.rows (row ++ ['\n'])), ?_, isFolder⟩
        rw [rows_fetch ended, isLog, List.append_assoc]
    | pass file fits =>
        obtain ⟨sees, fits⟩ := fits
        rw [assembleRunRecords_of_sees R L sees]
        refine ⟨kept.first, folderNamed_pass kept.named fits.complete, s.rows L runPrefix, [],
          (List.append_nil _).symm, ?_⟩
        intro u
        exact (inFolder_pass kept.named fits).trans (kept.afterPass fits.complete u)

/-- A record's body in the inherited folder, and then those of its fetches. -/
def bodiesOf (R : LetterCase) (inherited : RecordFolder) (rows : List RecordRow) (u : String) :
    List JsonValue :=
  ((readRecordArtifacts R inherited).get u).toList ++ (fetchedOf R rows u).map Prod.fst

/-- The records and receipts of a pass, against the inherited folder and the rows. -/
structure RecordsKept (R : LetterCase) (L : LogReader) (runPrefix : String) (s : RecordRun)
    (file : LedgerFile) (pass : AssembledRecords) : Prop where
  stays : ∀ u, bodiesOf R s.inherited (s.rows L runPrefix) u ≠ [] → (pass.records.get u).isSome
  latest : ∀ u before b after,
    bodiesOf R s.inherited (s.rows L runPrefix) u = before ++ b :: after →
      recordBodyHasContent b = true → (∀ c ∈ after, recordBodyHasContent c = false) →
        ∃ kept, pass.records.get u = some kept ∧ coreFields kept = coreFields b
  own : ∀ u kept, pass.records.get u = some kept →
    ∃ fields, pass.folder.get (artifactName u) = some (some (.obj fields)) ∧
      fields.lookup "_uri" = some (.str u) ∧ coreFields (.obj fields) = coreFields kept
  receipt : ∀ u kept receipt, pass.records.get u = some kept →
    pass.receipts.get u = some receipt →
      (∃ p ∈ fetchedOf R (s.rows L runPrefix) u,
        coreFields p.1 = coreFields kept ∧ p.2 = receipt) ∨
      ∃ b, (readRecordArtifacts R s.inherited).get u = some b ∧
        coreFields b = coreFields kept ∧ receiptIn b = some receipt
  again : ∀ u,
    ((assembleRunRecords R L runPrefix pass.folder file).records.get u).map coreFields =
        (pass.records.get u).map coreFields ∧
      (assembleRunRecords R L runPrefix pass.folder file).receipts.get u = pass.receipts.get u

/-- A pass leaves a folder that later rows fit as they fitted the one before it. -/
theorem PassFits.later {folder : RecordFolder} {log more : List RecordRow}
    (named : FolderNamed R folder) (fits : PassFits R folder (runRows runPrefix log))
    (next : PassFits R folder (runRows runPrefix log ++ more)) :
    PassFits R (assembleRows R runPrefix folder log).folder (runRows runPrefix log ++ more) where
  complete := next.complete
  apart := by
    have before : ∀ u, (inFolder R (assembleRows R runPrefix folder log).folder u).isSome ∨
        fetchedOf R (runRows runPrefix log ++ more) u ≠ [] →
          (inFolder R folder u).isSome ∨ fetchedOf R (runRows runPrefix log ++ more) u ≠ [] := by
      rintro u (held | fetched)
      · rw [inFolder_pass named fits] at held
        by_contra neither
        rw [not_or, not_not, Option.not_isSome_iff_eq_none, fetchedOf_append,
          List.append_eq_nil_iff, ← inLog_eq_none] at neither
        rw [Option.isSome_iff_ne_none] at held
        exact held (latest_eq_none.mpr ⟨neither.1, neither.2.1⟩)
      · exact .inr fetched
    exact fun u v isU isV => next.apart u v (before u isU) (before v isV)
  whole := by
    intro u held fetched
    rw [inFolder_pass named fits] at held
    unfold afterPass at held
    rw [any_latest, any_inLog fits.complete, Bool.or_eq_true] at held
    rcases held with old | whole
    · exact next.whole u old fetched
    · rw [fetchedOf_append, List.any_append, whole, Bool.true_or]

/-- What a pass wrote, the next pass finds fit. -/
theorem PassFits.again {folder : RecordFolder} {log : List RecordRow}
    (named : FolderNamed R folder) (fits : PassFits R folder (runRows runPrefix log)) :
    PassFits R (assembleRows R runPrefix folder log).folder (runRows runPrefix log) := by
  have later := @PassFits.later R runPrefix folder log [] named fits
  rw [List.append_nil] at later
  exact later fits

theorem afterPass_again {folder : RecordFolder} {log : List RecordRow}
    (named : FolderNamed R folder) (fits : PassFits R folder (runRows runPrefix log)) (u : String) :
    afterPass R (assembleRows R runPrefix folder log).folder (runRows runPrefix log) u =
      afterPass R folder (runRows runPrefix log) u := by
  unfold afterPass
  rw [inFolder_pass named fits]
  unfold afterPass
  rw [latest_assoc, latest_self]

theorem latestOf_bodies {inherited : RecordFolder} {rows : List RecordRow}
    (named : FolderNamed R inherited) (complete : RowsComplete rows) (u : String) :
    (∀ b ∈ bodiesOf R inherited rows u, coreFull (coreFields b) = recordBodyHasContent b) ∧
      (latest KeptRecord.full (inFolder R inherited u) (inLog R rows u)).map Prod.fst =
        (latestOf recordBodyHasContent (bodiesOf R inherited rows u)).map coreFields := by
  have content : ∀ b ∈ bodiesOf R inherited rows u,
      coreFull (coreFields b) = recordBodyHasContent b := by
    intro b mem
    rcases List.mem_append.mp mem with old | fetched
    · obtain ⟨fields, rfl⟩ := readRecordArtifacts_is_obj named (Option.mem_toList.mp old)
      exact coreFull_coreFields fields
    · obtain ⟨p, isFetched, rfl⟩ := List.mem_map.mp fetched
      exact full_of_fetched complete isFetched
  refine ⟨content, ?_⟩
  rw [map_latestOf content, map_fst_latest_kept]
  unfold bodiesOf inFolder inLog
  rw [List.map_append, latestOf_append]
  congr 1
  · cases (readRecordArtifacts R inherited).get u <;> rfl
  · rw [Option.map_map, List.map_map, ← map_latestOf]
    · rfl
    · exact fun p mem => full_of_fetched complete mem

/-- An empty folder fits rows whose records have names of their own. -/
theorem passFits_empty {rows : List RecordRow} (complete : RowsComplete rows)
    (apart : ∀ row ∈ rows, ∀ row' ∈ rows, artifactName (rowUri R row) = artifactName (rowUri R row') →
      rowUri R row = rowUri R row') :
    PassFits R .empty rows where
  complete := complete
  apart := by
    rintro u v (held | isU) (held' | isV) same
    · cases held
    · cases held
    · cases held'
    · obtain ⟨p, mem⟩ := List.exists_mem_of_ne_nil _ isU
      obtain ⟨row, isRow, -, rfl, -⟩ := exists_row_of_fetched mem
      obtain ⟨p', mem'⟩ := List.exists_mem_of_ne_nil _ isV
      obtain ⟨row', isRow', -, rfl, -⟩ := exists_row_of_fetched mem'
      exact apart row isRow row' isRow' same
  whole := fun u held => by cases held

/-- A ledger that one read takes in. -/
def oneRead (text : List Char) : LedgerFile := .opened [Utf8.encode text]

theorem length_encode_le (text : List Char) : (Utf8.encode text).length ≤ 4 * text.length := by
  induction text with
  | nil => simp
  | cons c text ih =>
    have short := c.utf8Size_le_four
    rw [Utf8.encode_cons, List.length_append, List.length_cons, String.length_utf8EncodeChar]
    omega

/-- A small ledger is read whole. -/
theorem oneRead_whole {limit : Nat} {text : List Char} (filled : text ≠ [])
    (small : text.length ≤ 1000) (room : 2000 ≤ limit) :
    (oneRead text).Of text ∧ (oneRead text).ReadWhole limit := by
  have bytes := length_encode_le text
  constructor
  · refine ⟨⟨[Utf8.encode text], text, by simp, ?_⟩, rfl, rfl⟩
    intro read isRead
    obtain rfl := List.mem_singleton.mp isRead
    refine ⟨fun empty => filled (Utf8.encode_eq_nil.mp empty), ?_⟩
    unfold LedgerLines.ledgerChunk
    omega
  · refine ⟨fun read isRead => ⟨_, List.mem_singleton.mp isRead⟩, fun pre read post split => ?_⟩
    cases pre with
    | nil =>
        obtain ⟨rfl, -⟩ := List.cons.inj split
        have units := LedgerLines.units_le text
        have nothing : LedgerLines.units (LedgerLines.lineTail (Utf8.decodeEach [])) = 0 := rfl
        rw [Utf8.decode_encode, nothing]
        omega
    | cons first pre => simp at split

theorem endLines_ne_nil {lines : List (List Char)} (some' : lines ≠ []) :
    LedgerLines.endLines lines ≠ [] := by
  obtain ⟨line, rest, rfl⟩ := List.exists_cons_of_ne_nil some'
  simp [LedgerLines.endLines]

theorem id_lower (s : String) : id (id s) = s := rfl

/-- A runtime that is only asked about what is in lower case. -/
def lowerCase : LetterCase where
  lower := id
  lower_lower := id_lower
  lower_ne_empty _ named := named

def acmeRow (target : String) (fields : List (String × JsonValue)) : RecordRow where
  sessionKey := "clearance-acme-1"
  target := target
  ts := "2026-01-02"
  body := some (.obj fields)

/-- A fetch: the record, its body as it is written, and the body. -/
structure AcmeFetch where
  target : String
  written : String
  fields : List (String × JsonValue)

def AcmeFetch.row (f : AcmeFetch) : RecordRow := acmeRow f.target f.fields

def AcmeFetch.line (f : AcmeFetch) : List Char :=
  "\x7b\"sessionKey\":\"clearance-acme-1\",\"target\":\"".toList ++ f.target.toList ++
    "\",\"ts\":\"2026-01-02\",\"body\":".toList ++ f.written.toList ++ "\x7d".toList

def acmeMark : AcmeFetch where
  target := "/mark/us/1"
  written := "\x7b\"mark\":\"ACME\"\x7d"
  fields := [("mark", .str "ACME")]

def novaMark : AcmeFetch where
  target := "/mark/us/2"
  written := "\x7b\"mark\":\"NOVA\"\x7d"
  fields := [("mark", .str "NOVA")]

/-- The first record again, with nothing but an id. -/
def acmePlaceholder : AcmeFetch where
  target := "/mark/us/1"
  written := "\x7b\"id\":\"1\"\x7d"
  fields := [("id", .str "1")]

def underscored : AcmeFetch := { acmeMark with target := "/mark/us/tm_1" }

def hyphened : AcmeFetch := { novaMark with target := "/mark/us/tm-1" }

def acmeFetches : List AcmeFetch := [acmeMark, novaMark, acmePlaceholder, underscored, hyphened]

def nullLine : List Char := "null".toList

/-- The platform, of these lines. -/
def acmeReader : LogReader where
  limit := LedgerLines.maxStringLength
  parse line :=
    if line = nullLine then some none
    else (acmeFetches.find? (·.line = line)).map fun f => some f.row

theorem parse_acmeFetches :
    ∀ f ∈ acmeFetches, acmeReader.parse f.line = some (some f.row) := by
  simp only [acmeFetches, List.forall_mem_cons]
  exact ⟨rfl, rfl, rfl, rfl, rfl, List.forall_mem_nil _⟩

/-- The log of some fetches. -/
def acmeLog (fetches : List AcmeFetch) : List Char :=
  LedgerLines.endLines (fetches.map AcmeFetch.line)

theorem line_plain : ∀ f ∈ acmeFetches,
    '\n' ∉ f.line ∧ LedgerLines.nonBlank f.line = true ∧ f.line.length ≤ 100 := by
  decide

theorem lines_plain {fetches : List AcmeFetch} (known : ∀ f ∈ fetches, f ∈ acmeFetches) :
    ∀ line ∈ fetches.map AcmeFetch.line, '\n' ∉ line ∧ LedgerLines.nonBlank line = true := by
  intro line isLine
  obtain ⟨f, mem, rfl⟩ := List.mem_map.mp isLine
  exact ⟨(line_plain f (known f mem)).1, (line_plain f (known f mem)).2.1⟩

theorem rows_acmeLog {fetches : List AcmeFetch} (known : ∀ f ∈ fetches, f ∈ acmeFetches) :
    acmeReader.rows (acmeLog fetches) = fetches.map AcmeFetch.row := by
  unfold LogReader.rows acmeLog
  rw [LedgerLines.ledgerLines_endLines (lines_plain known), List.filterMap_map,
    ← List.filterMap_eq_map]
  refine List.filterMap_congr fun f mem => ?_
  show (acmeReader.parse f.line).join = some f.row
  rw [parse_acmeFetches f (known f mem)]
  rfl

theorem length_acmeLog {fetches : List AcmeFetch} (known : ∀ f ∈ fetches, f ∈ acmeFetches) :
    (acmeLog fetches).length ≤ 101 * fetches.length := by
  induction fetches with
  | nil => exact Nat.le_refl 0
  | cons f fetches ih =>
    obtain ⟨first, rest⟩ := List.forall_mem_cons.mp known
    have short := (line_plain f first).2.2
    have more := ih rest
    unfold acmeLog LedgerLines.endLines at more ⊢
    simp only [List.map_cons, List.flatMap_cons, List.length_append, List.length_cons,
      List.length_nil]
    omega

theorem sees_acmeLog {fetches : List AcmeFetch} (known : ∀ f ∈ fetches, f ∈ acmeFetches)
    (some' : fetches ≠ []) (few : fetches.length ≤ 9) :
    acmeReader.Sees "clearance-acme" (acmeLog fetches) (oneRead (acmeLog fetches)) := by
  have size := length_acmeLog known
  obtain ⟨isOf, whole⟩ := @oneRead_whole acmeReader.limit (acmeLog fetches)
    (@endLines_ne_nil (fetches.map AcmeFetch.line) (by simpa using some')) (by omega) (by decide)
  refine ⟨isOf, whole, fun line isLine => ?_⟩
  unfold acmeLog at isLine
  rw [LedgerLines.ledgerLines_endLines (lines_plain known)] at isLine
  obtain ⟨f, mem, rfl⟩ := List.mem_map.mp isLine
  unfold LogReader.throwsAt
  rw [parse_acmeFetches f (known f mem)]
  rfl

/-- A pass over the log of some fetches. -/
def acmePass (folder : RecordFolder) (fetches : List AcmeFetch) : AssembledRecords :=
  assembleRunRecords lowerCase acmeReader "clearance-acme" folder (oneRead (acmeLog fetches))

theorem acmePass_eq {folder : RecordFolder} {fetches : List AcmeFetch}
    (known : ∀ f ∈ fetches, f ∈ acmeFetches) (some' : fetches ≠ [])
    (few : fetches.length ≤ 9) :
    acmePass folder fetches =
      assembleRows lowerCase "clearance-acme" folder (fetches.map AcmeFetch.row) := by
  unfold acmePass
  rw [assembleRunRecords_of_sees _ _ (sees_acmeLog known some' few), rows_acmeLog known]

/-- Two fetches and a pass, and then a placeholder for the first record. -/
def refetched : RecordRun where
  inherited := .empty
  folder := (acmePass .empty [acmeMark, novaMark]).folder
  log := acmeLog [acmeMark, novaMark, acmePlaceholder]

theorem emptyNamed : FolderNamed lowerCase .empty := fun _ _ found => by cases found

/-- What the fetches of two records need of an empty folder. -/
theorem acmeFits {fetches : List AcmeFetch}
    (known : ∀ f ∈ fetches, f ∈ [acmeMark, novaMark, acmePlaceholder]) :
    PassFits lowerCase .empty (runRows "clearance-acme" (fetches.map AcmeFetch.row)) := by
  apply passFits_empty
  · intro row isRow _
    obtain ⟨f, -, rfl⟩ := List.mem_map.mp (List.mem_of_mem_filter isRow)
    exact ⟨by rw [show f.row.ts = "2026-01-02" from rfl]; decide, _, rfl⟩
  · have apart : ∀ f ∈ [acmeMark, novaMark, acmePlaceholder],
        ∀ g ∈ [acmeMark, novaMark, acmePlaceholder],
          artifactName f.target = artifactName g.target → f.target = g.target := by decide
    intro row isRow row' isRow'
    obtain ⟨f, mem, rfl⟩ := List.mem_map.mp (List.mem_of_mem_filter isRow)
    obtain ⟨g, mem', rfl⟩ := List.mem_map.mp (List.mem_of_mem_filter isRow')
    exact apart f (known f mem) g (known g mem')

theorem acmeLog_concat (fetches : List AcmeFetch) (f : AcmeFetch) :
    acmeLog (fetches ++ [f]) = acmeLog fetches ++ (f.line ++ ['\n']) := by
  simp [acmeLog, LedgerLines.endLines]

theorem lineTail_acmeLog (fetches : List AcmeFetch) :
    LedgerLines.lineTail (acmeLog fetches) = [] := by
  rcases List.eq_nil_or_concat fetches with rfl | ⟨before, last, rfl⟩
  · rfl
  · rw [List.concat_eq_append, acmeLog_concat, ← List.append_assoc, LedgerLines.lineTail_line]

/-- A run in which one more record is fetched. -/
theorem reaches_fetch {folder : RecordFolder} {fetches : List AcmeFetch}
    (reached : RecordReaches lowerCase acmeReader "clearance-acme" ⟨.empty, folder, acmeLog fetches⟩)
    (f : AcmeFetch) :
    RecordReaches lowerCase acmeReader "clearance-acme"
      ⟨.empty, folder, acmeLog (fetches ++ [f])⟩ := by
  rw [acmeLog_concat]
  exact .step reached (.fetch _ f.line (lineTail_acmeLog fetches))

/-- A record of an earlier session, with its receipt. -/
def acmeFolder : RecordFolder :=
  Keyed.empty.set "us-1.json" (some (.obj
    [("mark", .str "ACME"), ("_uri", .str "/mark/us/1"), ("_receipt", .obj [])]))

/-- A log whose first line is `null`, with a fetch behind it. -/
def nullPass : AssembledRecords :=
  assembleRunRecords lowerCase acmeReader "clearance-acme" .empty
    (oneRead (LedgerLines.endLines [nullLine, acmeMark.line]))

end Clearotron
