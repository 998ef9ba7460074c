import Clearotron.Index.Sync

/-!
# What the syncs keep true

Whatever syncs were run over an index, and wherever they were killed, no row is lost and no
file is recorded before its rows are in. A killed sync leaves its rows and the stamps of
the sync before, so what the token indexes and the data date are worth is told by what was
put since they were last brought up to the table.
-/

namespace Clearotron

variable {T : IndexText} {s s' : IndexState}

/-- No date, or one that the other is at least as late as. -/
def NotLater (a b : Option Int) : Prop := ∀ d ∈ a, ∃ e ∈ b, d ≤ e

namespace NotLater

variable {a b c : Option Int}

theorem refl (a : Option Int) : NotLater a a := fun d isDate => ⟨d, isDate, Int.le_refl d⟩

theorem trans (first : NotLater a b) (second : NotLater b c) : NotLater a c := by
  intro d isDate
  obtain ⟨e, isOther, le⟩ := first d isDate
  obtain ⟨e', isLast, le'⟩ := second e isOther
  exact ⟨e', isLast, Int.le_trans le le'⟩

theorem laterDate_left (a b : Option Int) : NotLater a (laterDate a b) := by
  intro d isDate
  obtain rfl := Option.mem_def.mp isDate
  cases b with
  | none => exact ⟨d, rfl, Int.le_refl d⟩
  | some e =>
      unfold laterDate
      dsimp only
      split
      · exact ⟨e, rfl, by omega⟩
      · exact ⟨d, rfl, Int.le_refl d⟩

theorem laterDate_right (a b : Option Int) : NotLater b (laterDate a b) := by
  intro d isDate
  obtain rfl := Option.mem_def.mp isDate
  cases a with
  | none => exact ⟨d, rfl, Int.le_refl d⟩
  | some e =>
      unfold laterDate
      dsimp only
      split
      · exact ⟨d, rfl, Int.le_refl d⟩
      · exact ⟨e, rfl, by omega⟩

end NotLater

theorem laterDate_eq (a b : Option Int) : laterDate a b = a ∨ laterDate a b = b := by
  cases a <;> cases b
  · exact .inl rfl
  · exact .inr rfl
  · exact .inl rfl
  · unfold laterDate
    dsimp only
    split
    · exact .inr rfl
    · exact .inl rfl

theorem mem_replaceRow {table : List TableRow} {row : MarkRow} {kept : TableRow}
    (mem : kept ∈ replaceRow table row) :
    kept ∈ table ∧ kept.row.serial ≠ row.serial ∨ kept.row = row := by
  unfold replaceRow at mem
  rcases List.mem_append.mp mem with old | new
  · exact .inl ⟨List.mem_of_mem_filter old, by simpa using List.of_mem_filter old⟩
  · obtain rfl := List.mem_singleton.mp new
    exact .inr rfl

/-- The serials of the table, and the one that is put. -/
theorem exists_serial_replaceRow {table : List TableRow} {row : MarkRow} {serial : String} :
    (∃ kept ∈ replaceRow table row, kept.row.serial = serial) ↔
      row.serial = serial ∨ ∃ kept ∈ table, kept.row.serial = serial := by
  unfold replaceRow
  constructor
  · rintro ⟨kept, mem, isSerial⟩
    rcases List.mem_append.mp mem with old | new
    · exact .inr ⟨kept, List.mem_of_mem_filter old, isSerial⟩
    · obtain rfl := List.mem_singleton.mp new
      exact .inl isSerial
  · intro held
    by_cases same : row.serial = serial
    · exact ⟨_, List.mem_append_right _ List.mem_cons_self, same⟩
    · obtain ⟨kept, mem, isSerial⟩ := held.resolve_left same
      refine ⟨kept, List.mem_append_left _ (List.mem_filter.mpr ⟨mem, ?_⟩), isSerial⟩
      simpa [isSerial] using Ne.symm same

/-- What one step of a sync can do. -/
inductive SyncMove (T : IndexText) (s : IndexState) : IndexState → Prop
  | begins (files : List BulkFile) (names : List String) (ignore : Bool) (at' : s.sync = .idle) :
      SyncMove T s (s.beginSync files names ignore)
  | skips (r : SyncRun) (f : BulkFile) (todo : List BulkFile) (at' : s.sync = .files r (f :: todo)) :
      SyncMove T s { s with sync := .files r todo }
  | opens (r : SyncRun) (f : BulkFile) (todo : List BulkFile) (at' : s.sync = .files r (f :: todo)) :
      SyncMove T s { s with sync := .rows r f f.records todo }
  | puts (r : SyncRun) (f : BulkFile) (record : MarkRecord) (records : List MarkRecord)
      (todo : List BulkFile) (at' : s.sync = .rows r f (record :: records) todo) :
      SyncMove T s (s.putRow T r f record records todo)
  | drops (r : SyncRun) (f : BulkFile) (todo : List BulkFile) (at' : s.sync = .rows r f [] todo)
      (empty : f.records = []) : SyncMove T s { s with sync := .files r todo }
  | records (r : SyncRun) (f : BulkFile) (todo : List BulkFile) (at' : s.sync = .rows r f [] todo)
      (named : f.records ≠ []) : SyncMove T s (s.recordFile r f todo)
  | ends (r : SyncRun) (at' : s.sync = .files r []) : SyncMove T s { s with sync := .backfile r }
  | stampsBackfile (r : SyncRun) (now : Int) (at' : s.sync = .backfile r)
      (all : ∀ n ∈ r.backfileNames.filter (· ≠ ""), n ∈ r.alreadyIngested) :
      SyncMove T s { s with
        backfileThrough := some now
        sync := .text r
        history := { s.history with
          listed := r.backfileNames.filter (· ≠ ""), rewritten := false } }
  | leavesBackfile (r : SyncRun) (at' : s.sync = .backfile r) :
      SyncMove T s { s with sync := .text r }
  | rebuildsText (r : SyncRun) (at' : s.sync = .text r) : SyncMove T s (s.rebuildText r)
  | rebuildsReversed (r : SyncRun) (at' : s.sync = .reversed r) :
      SyncMove T s (s.rebuildReversed r)
  | stampsDate (r : SyncRun) (at' : s.sync = .date r) : SyncMove T s (s.stampDate r)
  | stampsTime (r : SyncRun) (now : Int) (at' : s.sync = .time r) : SyncMove T s (s.stampTime now)
  | kills (r : SyncRun) (at' : s.sync.run? = some r) : SyncMove T s (s.killSync r)

theorem run?_eq_none {pc : SyncAt} : pc.run? = none ↔ pc = .idle := by
  cases pc <;> simp [SyncAt.run?]

theorem advance_moves (now : Int) (running : s.sync ≠ .idle) : SyncMove T s (s.advance T now) := by
  unfold IndexState.advance
  split
  · exact absurd ‹_› running
  · exact .ends _ ‹_›
  · split
    · exact .skips _ _ _ ‹_›
    · exact .opens _ _ _ ‹_›
  · exact .puts _ _ _ _ _ ‹_›
  · split
    · exact .drops _ _ _ ‹_› ‹_›
    · exact .records _ _ _ ‹_› ‹_›
  · unfold IndexState.stampBackfile
    dsimp only
    split
    · rename_i all
      exact .stampsBackfile _ _ ‹_› all.2
    · exact .leavesBackfile _ ‹_›
  · exact .rebuildsText _ ‹_›
  · exact .rebuildsReversed _ ‹_›
  · exact .stampsDate _ ‹_›
  · exact .stampsTime _ _ ‹_›

theorem SyncStep.moves (step : SyncStep T s s') : SyncMove T s s' := by
  obtain ⟨a, acts⟩ := step
  unfold IndexState.act at acts
  split at acts
  · obtain rfl := Option.some.inj acts
    exact .begins _ _ _ (run?_eq_none.mp ‹_›)
  · obtain rfl := Option.some.inj acts
    rename_i r isRun
    refine advance_moves _ fun idle => ?_
    rw [run?_eq_none.mpr idle] at isRun
    cases isRun
  · obtain rfl := Option.some.inj acts
    exact .kills _ ‹_›
  · cases acts

/-- The last row put for a serial. -/
def lastPut (puts : List (BulkFile × MarkRecord)) (serial : String) :
    Option (BulkFile × MarkRecord) :=
  puts.find? fun p => p.2.serial = serial

/-- The table is what was put last. -/
structure PutsKept (T : IndexText) (s : IndexState) : Prop where
  held : ∀ p ∈ s.history.puts, ∃ row ∈ s.mark, row.row.serial = p.2.serial
  last : ∀ row ∈ s.mark, ∃ p, lastPut s.history.puts row.row.serial = some p ∧
    row.row = putRecord T p.2

theorem PutsKept.put (kept : PutsKept T s) (r : SyncRun) (f : BulkFile) (record : MarkRecord)
    (records : List MarkRecord) (todo : List BulkFile) :
    PutsKept T (s.putRow T r f record records todo) where
  held := by
    intro p mem
    rcases List.mem_cons.mp mem with rfl | old
    · exact exists_serial_replaceRow.mpr (.inl rfl)
    · exact exists_serial_replaceRow.mpr (.inr (kept.held p old))
  last := by
    intro row mem
    rcases mem_replaceRow mem with ⟨old, other⟩ | new
    · obtain ⟨p, isLast, isRow⟩ := kept.last row old
      refine ⟨p, ?_, isRow⟩
      have another : record.serial ≠ row.row.serial := fun same => other same.symm
      exact (List.find?_cons_of_neg (by simpa using another)).trans isLast
    · refine ⟨(f, record), ?_, new⟩
      exact List.find?_cons_of_pos (by simp [new, putRecord])

theorem SyncReaches.putsKept (reached : SyncReaches T s) : PutsKept T s := by
  apply reached.invariant
  · rintro s rfl
    exact ⟨fun p mem => absurd mem List.not_mem_nil, fun row mem => absurd mem List.not_mem_nil⟩
  · intro s s' kept step
    cases step.moves with
    | puts r f record records todo at' => exact kept.put r f record records todo
    | _ => exact ⟨kept.held, kept.last⟩

/-- A file is recorded once its rows are in, and they go in one after the other. -/
structure RowsPut (s : IndexState) : Prop where
  opened : ∀ r f records todo, s.sync = .rows r f records todo →
    ∃ before, f.records = before ++ records ∧
      ∀ record ∈ before, (f, record) ∈ s.history.puts ∧ f ∈ r.put
  filed : ∀ f ∈ s.history.filed, ∀ record ∈ f.records, (f, record) ∈ s.history.puts

theorem SyncReaches.rowsPut (reached : SyncReaches T s) : RowsPut s := by
  apply reached.invariant
  · rintro s rfl
    exact ⟨nofun, nofun⟩
  · intro s s' put step
    cases step.moves with
    | opens r f todo at' =>
        refine ⟨?_, put.filed⟩
        intro r' f' records todo' isAt
        cases isAt
        exact ⟨[], rfl, fun record mem => absurd mem List.not_mem_nil⟩
    | puts r f record records todo at' =>
        obtain ⟨before, isRecords, before_put⟩ := put.opened r f _ todo at'
        refine ⟨?_, fun g isFiled rec mem => List.mem_cons_of_mem _ (put.filed g isFiled rec mem)⟩
        intro r' f' records' todo' isAt
        cases isAt
        refine ⟨before ++ [record], by simp [isRecords], ?_⟩
        intro rec mem
        refine ⟨?_, List.mem_cons_self⟩
        rcases List.mem_append.mp mem with old | new
        · exact List.mem_cons_of_mem _ (before_put rec old).1
        · obtain rfl := List.mem_singleton.mp new
          exact List.mem_cons_self
    | records r f todo at' named =>
        obtain ⟨before, isRecords, before_put⟩ := put.opened r f [] todo at'
        refine ⟨nofun, ?_⟩
        intro g isFiled rec mem
        rcases List.mem_cons.mp isFiled with rfl | old
        · rw [isRecords, List.append_nil] at mem
          exact (before_put rec mem).1
        · exact put.filed g old rec mem
    | begins | skips | drops | ends | stampsBackfile | leavesBackfile | rebuildsText
    | rebuildsReversed | stampsDate | stampsTime | kills => exact ⟨nofun, put.filed⟩

/-- No row is lost: the serials of a recorded file are in the table. -/
theorem SyncReaches.filed_held (reached : SyncReaches T s) {f : BulkFile}
    (isFiled : f ∈ s.history.filed) {record : MarkRecord} (mem : record ∈ f.records) :
    ∃ row ∈ s.mark, row.row.serial = record.serial :=
  reached.putsKept.held _ (reached.rowsPut.filed f isFiled record mem)

/-- Where a file is that the sync has put rows of. -/
def RunSettled (s : IndexState) : Prop :=
  ∀ r, s.sync.run? = some r → ∀ g ∈ r.put, g.records ≠ [] ∧
    (g ∈ s.history.filed ∧ NotLater g.dataDate r.newest ∨
      ∃ records todo, s.sync = .rows r g records todo)

/-- Between two files, and after the last, every file put is recorded. -/
theorem RunSettled.filed (settled : RunSettled s) {r : SyncRun} (isRun : s.sync.run? = some r)
    (closed : ∀ g records todo, s.sync ≠ .rows r g records todo) :
    ∀ g ∈ r.put, g.records ≠ [] ∧ g ∈ s.history.filed ∧ NotLater g.dataDate r.newest := by
  intro g mem
  obtain ⟨named, done | ⟨records, todo, open'⟩⟩ := settled r isRun g mem
  · exact ⟨named, done⟩
  · exact absurd open' (closed g records todo)

theorem SyncReaches.settled (reached : SyncReaches T s) : RunSettled s := by
  apply reached.invariant_with fun s reached => SyncReaches.rowsPut reached
  · rintro s rfl
    nofun
  · intro s s' put settled step
    cases step.moves with
    | begins files names ignore at' =>
        intro r' isRun
        obtain rfl := Option.some.inj isRun
        nofun
    | skips r f todo at' =>
        intro r' isRun g mem
        obtain rfl := Option.some.inj isRun
        obtain ⟨named, done⟩ := settled.filed (by rw [at']; rfl) (by rw [at']; nofun) g mem
        exact ⟨named, .inl done⟩
    | opens r f todo at' =>
        intro r' isRun g mem
        obtain rfl := Option.some.inj isRun
        obtain ⟨named, done⟩ := settled.filed (by rw [at']; rfl) (by rw [at']; nofun) g mem
        exact ⟨named, .inl done⟩
    | puts r f record records todo at' =>
        intro r' isRun g mem
        obtain rfl := Option.some.inj isRun
        obtain ⟨before, isRecords, _⟩ := put.opened r f _ todo at'
        rcases List.mem_cons.mp mem with rfl | old
        · exact ⟨by simp [isRecords], .inr ⟨records, todo, rfl⟩⟩
        · obtain ⟨named, done | ⟨records', todo', open'⟩⟩ := settled r (by rw [at']; rfl) g old
          · exact ⟨named, .inl done⟩
          · rw [at'] at open'
            cases open'
            exact ⟨named, .inr ⟨records, todo, rfl⟩⟩
    | drops r f todo at' empty =>
        intro r' isRun g mem
        obtain rfl := Option.some.inj isRun
        obtain ⟨named, done | ⟨records', todo', open'⟩⟩ := settled r (by rw [at']; rfl) g mem
        · exact ⟨named, .inl done⟩
        · rw [at'] at open'
          cases open'
          exact absurd empty named
    | records r f todo at' _ =>
        intro r' isRun g mem
        obtain rfl := Option.some.inj isRun
        obtain ⟨named, ⟨isFiled, dated⟩ | ⟨records', todo', open'⟩⟩ :=
          settled r (by rw [at']; rfl) g mem
        · exact ⟨named, .inl ⟨List.mem_cons_of_mem _ isFiled,
            dated.trans (NotLater.laterDate_left _ _)⟩⟩
        · rw [at'] at open'
          cases open'
          exact ⟨named, .inl ⟨List.mem_cons_self, NotLater.laterDate_right _ _⟩⟩
    | stampsDate r at' =>
        intro r' isRun
        obtain rfl := Option.some.inj isRun
        nofun
    | stampsTime | kills => nofun
    | ends r at' | stampsBackfile r now at' all | leavesBackfile r at' | rebuildsText r at'
    | rebuildsReversed r at' =>
        intro r' isRun g mem
        obtain rfl := Option.some.inj isRun
        obtain ⟨named, done⟩ := settled.filed (by rw [at']; rfl) (by rw [at']; nofun) g mem
        exact ⟨named, .inl done⟩

/-- Every row put is of a file that is recorded, or that a killed sync left, or that is open. -/
def PutsSourced (s : IndexState) : Prop :=
  ∀ p ∈ s.history.puts, p.2 ∈ p.1.records ∧
    (p.1 ∈ s.history.filed ∨ p.1 ∈ s.history.lost ∨
      ∃ r, s.sync.run? = some r ∧ p.1 ∈ r.put)

/-- What holds of a file that the sync has put holds when the sync goes on. -/
theorem PutsSourced.goes (sourced : PutsSourced s) {r r' : SyncRun}
    (isRun : s.sync.run? = some r) (isRun' : s'.sync.run? = some r')
    (puts : s'.history.puts = s.history.puts) (filed : s.history.filed ⊆ s'.history.filed)
    (lost : s'.history.lost = s.history.lost)
    (still : ∀ g ∈ r.put, g ∈ s'.history.filed ∨ g ∈ r'.put) : PutsSourced s' := by
  intro p mem
  rw [puts] at mem
  obtain ⟨isRecord, isFiled | isLost | ⟨r'', isRun'', isPut⟩⟩ := sourced p mem
  · exact ⟨isRecord, .inl (filed isFiled)⟩
  · exact ⟨isRecord, .inr (.inl (lost ▸ isLost))⟩
  · rw [isRun] at isRun''
    obtain rfl := Option.some.inj isRun''
    rcases still p.1 isPut with isFiled | isPut'
    · exact ⟨isRecord, .inl isFiled⟩
    · exact ⟨isRecord, .inr (.inr ⟨r', isRun', isPut'⟩)⟩

theorem SyncReaches.sourced (reached : SyncReaches T s) : PutsSourced s := by
  apply reached.invariant_with fun s reached =>
    (⟨SyncReaches.rowsPut reached, SyncReaches.settled reached⟩ : RowsPut s ∧ RunSettled s)
  · rintro s rfl p mem
    exact absurd mem List.not_mem_nil
  · intro s s' known sourced step
    cases step.moves with
    | begins files names ignore at' =>
        intro p mem
        obtain ⟨isRecord, isFiled | isLost | ⟨r, isRun, _⟩⟩ := sourced p mem
        · exact ⟨isRecord, .inl isFiled⟩
        · exact ⟨isRecord, .inr (.inl isLost)⟩
        · rw [at'] at isRun
          cases isRun
    | puts r f record records todo at' =>
        obtain ⟨before, isRecords, _⟩ := known.1.opened r f _ todo at'
        intro p mem
        rcases List.mem_cons.mp mem with rfl | old
        · exact ⟨by simp [isRecords], .inr (.inr ⟨_, rfl, List.mem_cons_self⟩)⟩
        · obtain ⟨isRecord, isFiled | isLost | ⟨r', isRun, isPut⟩⟩ := sourced p old
          · exact ⟨isRecord, .inl isFiled⟩
          · exact ⟨isRecord, .inr (.inl isLost)⟩
          · rw [at'] at isRun
            obtain rfl := Option.some.inj isRun
            exact ⟨isRecord, .inr (.inr ⟨_, rfl, List.mem_cons_of_mem _ isPut⟩)⟩
    | records r f todo at' _ =>
        exact sourced.goes (r := r) (by rw [at']; rfl) rfl rfl (List.subset_cons_self _ _) rfl
          fun g mem => .inr mem
    | stampsDate r at' =>
        have filed := known.2.filed (by rw [at']; rfl) (by rw [at']; nofun)
        exact sourced.goes (by rw [at']; rfl) rfl rfl (List.Subset.refl _) rfl
          fun g mem => .inl (filed g mem).2.1
    | stampsTime r now at' =>
        -- a sync whose date is stamped has nothing left to its name
        intro p mem
        obtain ⟨isRecord, isFiled | isLost | ⟨r', isRun, isPut⟩⟩ := sourced p mem
        · exact ⟨isRecord, .inl isFiled⟩
        · exact ⟨isRecord, .inr (.inl isLost)⟩
        · have filed := known.2.filed isRun (by rw [at']; nofun)
          exact ⟨isRecord, .inl (filed _ isPut).2.1⟩
    | kills r at' =>
        intro p mem
        obtain ⟨isRecord, isFiled | isLost | ⟨r', isRun, isPut⟩⟩ := sourced p mem
        · exact ⟨isRecord, .inl isFiled⟩
        · exact ⟨isRecord, .inr (.inl (List.mem_append_right _ isLost))⟩
        · rw [at'] at isRun
          obtain rfl := Option.some.inj isRun
          exact ⟨isRecord, .inr (.inl (List.mem_append_left _ isPut))⟩
    | skips r f todo at' | opens r f todo at' | drops r f todo at' | ends r at'
    | stampsBackfile r now at' | leavesBackfile r at' | rebuildsText r at'
    | rebuildsReversed r at' =>
        exact sourced.goes (by rw [at']; rfl) rfl rfl (List.Subset.refl _) rfl
          fun g mem => .inr mem

/-- Once its date is stamped, a sync has nothing to its name. -/
theorem SyncReaches.put_at_time (reached : SyncReaches T s) :
    ∀ r, s.sync = .time r → r.put = [] := by
  apply reached.invariant
  · rintro s rfl
    nofun
  · intro s s' _ step
    cases step.moves with
    | stampsDate r at' =>
        intro r' isAt
        cases isAt
        rfl
    | _ => nofun

/-- A recorded file's date was stamped, or is yet to be, or its sync was killed before. -/
structure FilesDated (s : IndexState) : Prop where
  filed : ∀ g ∈ s.history.filed, g ∈ s.history.dated ∨ g ∈ s.history.lost ∨
    ∃ r, s.sync.run? = some r ∧ g ∈ r.put
  running : ∀ r, s.sync.run? = some r → NotLater s.newestDelta r.newest
  dated : ∀ g ∈ s.history.dated, NotLater g.dataDate s.newestDelta
  newest : ∀ d ∈ s.newestDelta, ∃ g ∈ s.history.filed, g.dataDate = some d
  run_newest : ∀ r, s.sync.run? = some r → ∀ d ∈ r.newest,
    ∃ g ∈ s.history.filed, g.dataDate = some d

/-- A step that stamps no date and records no file leaves the dates as they are. -/
theorem FilesDated.goes (dates : FilesDated s) {r r' : SyncRun} (isRun : s.sync.run? = some r)
    (isRun' : s'.sync.run? = some r') (newest : r'.newest = r.newest) (put : r.put ⊆ r'.put)
    (filed : s'.history.filed = s.history.filed) (dated : s'.history.dated = s.history.dated)
    (lost : s'.history.lost = s.history.lost) (delta : s'.newestDelta = s.newestDelta) :
    FilesDated s' where
  filed := by
    intro g mem
    rw [filed] at mem
    rw [dated, lost]
    rcases dates.filed g mem with isDated | isLost | ⟨r'', isRun'', isPut⟩
    · exact .inl isDated
    · exact .inr (.inl isLost)
    · rw [isRun] at isRun''
      obtain rfl := Option.some.inj isRun''
      exact .inr (.inr ⟨r', isRun', put isPut⟩)
  running := by
    intro r'' isRun''
    rw [isRun'] at isRun''
    obtain rfl := Option.some.inj isRun''
    rw [delta, newest]
    exact dates.running r isRun
  dated := by
    rw [dated, delta]
    exact dates.dated
  newest := by
    rw [delta, filed]
    exact dates.newest
  run_newest := by
    intro r'' isRun''
    rw [isRun'] at isRun''
    obtain rfl := Option.some.inj isRun''
    rw [newest, filed]
    exact dates.run_newest r isRun

/-- The date that is stamped is no earlier than the one before. -/
theorem notLater_stampDate {a b : Option Int} (grows : NotLater a b) :
    NotLater a (if b.isSome then b else a) ∧ NotLater b (if b.isSome then b else a) := by
  cases b with
  | none => exact ⟨.refl a, nofun⟩
  | some e => exact ⟨grows, .refl _⟩

theorem SyncReaches.dates (reached : SyncReaches T s) : FilesDated s := by
  apply reached.invariant_with fun s reached =>
    (⟨SyncReaches.rowsPut reached, SyncReaches.settled reached, SyncReaches.put_at_time reached⟩ :
      RowsPut s ∧ RunSettled s ∧ ∀ r, s.sync = .time r → r.put = [])
  · rintro s rfl
    constructor
    · exact fun g mem => absurd mem List.not_mem_nil
    · nofun
    · exact fun g mem => absurd mem List.not_mem_nil
    · nofun
    · nofun
  · intro s s' known dates step
    cases step.moves with
    | begins files names ignore at' =>
        refine ⟨?_, ?_, dates.dated, dates.newest, ?_⟩
        · intro g mem
          rcases dates.filed g mem with isDated | isLost | ⟨r, isRun, _⟩
          · exact .inl isDated
          · exact .inr (.inl isLost)
          · rw [at'] at isRun
            cases isRun
        · intro r isRun
          obtain rfl := Option.some.inj isRun
          exact .refl _
        · intro r isRun
          obtain rfl := Option.some.inj isRun
          exact dates.newest
    | records r f todo at' named =>
        have isRun : s.sync.run? = some r := by rw [at']; rfl
        obtain ⟨before, isRecords, before_put⟩ := known.1.opened r f [] todo at'
        rw [List.append_nil] at isRecords
        have isPut : f ∈ r.put := by
          obtain ⟨record, mem⟩ := List.exists_mem_of_ne_nil _ named
          exact (before_put record (isRecords ▸ mem)).2
        refine ⟨?_, ?_, dates.dated, ?_, ?_⟩
        · intro g mem
          rcases List.mem_cons.mp mem with rfl | old
          · exact .inr (.inr ⟨_, rfl, isPut⟩)
          · rcases dates.filed g old with isDated | isLost | ⟨r', isRun', isPut'⟩
            · exact .inl isDated
            · exact .inr (.inl isLost)
            · rw [isRun] at isRun'
              obtain rfl := Option.some.inj isRun'
              exact .inr (.inr ⟨_, rfl, isPut'⟩)
        · intro r' isRun'
          obtain rfl := Option.some.inj isRun'
          exact (dates.running r isRun).trans (NotLater.laterDate_left _ _)
        · intro d isDate
          obtain ⟨g, isFiled, isDate⟩ := dates.newest d isDate
          exact ⟨g, List.mem_cons_of_mem _ isFiled, isDate⟩
        · intro r' isRun' d isDate
          obtain rfl := Option.some.inj isRun'
          change d ∈ laterDate r.newest f.dataDate at isDate
          rcases laterDate_eq r.newest f.dataDate with same | same
          · rw [same] at isDate
            obtain ⟨g, isFiled, isDate⟩ := dates.run_newest r isRun d isDate
            exact ⟨g, List.mem_cons_of_mem _ isFiled, isDate⟩
          · rw [same] at isDate
            exact ⟨f, List.mem_cons_self, isDate⟩
    | stampsDate r at' =>
        have isRun : s.sync.run? = some r := by rw [at']; rfl
        have put := known.2.1.filed isRun (by rw [at']; nofun)
        have stamped := notLater_stampDate (dates.running r isRun)
        refine ⟨?_, ?_, ?_, ?_, ?_⟩
        · intro g mem
          rcases dates.filed g mem with isDated | isLost | ⟨r', isRun', isPut⟩
          · exact .inl (List.mem_append_right _ isDated)
          · exact .inr (.inl isLost)
          · rw [isRun] at isRun'
            obtain rfl := Option.some.inj isRun'
            exact .inl (List.mem_append_left _ isPut)
        · intro r' isRun'
          obtain rfl := Option.some.inj isRun'
          change NotLater (if r.newest.isSome then r.newest else s.newestDelta) r.newest
          split
          · exact .refl _
          · exact dates.running r isRun
        · intro g mem
          rcases List.mem_append.mp mem with isPut | isDated
          · exact (put g isPut).2.2.trans stamped.2
          · exact (dates.dated g isDated).trans stamped.1
        · intro d isDate
          change d ∈ (if r.newest.isSome then r.newest else s.newestDelta) at isDate
          split at isDate
          · exact dates.run_newest r isRun d isDate
          · exact dates.newest d isDate
        · intro r' isRun'
          obtain rfl := Option.some.inj isRun'
          exact dates.run_newest r isRun
    | stampsTime r now at' =>
        refine ⟨?_, nofun, dates.dated, dates.newest, nofun⟩
        intro g mem
        rcases dates.filed g mem with isDated | isLost | ⟨r', isRun', isPut⟩
        · exact .inl isDated
        · exact .inr (.inl isLost)
        · rw [at'] at isRun'
          obtain rfl := Option.some.inj isRun'
          rw [known.2.2 r at'] at isPut
          cases isPut
    | kills r at' =>
        refine ⟨?_, nofun, dates.dated, dates.newest, nofun⟩
        intro g mem
        rcases dates.filed g mem with isDated | isLost | ⟨r', isRun', isPut⟩
        · exact .inl isDated
        · exact .inr (.inl (List.mem_append_right _ isLost))
        · rw [at'] at isRun'
          obtain rfl := Option.some.inj isRun'
          exact .inr (.inl (List.mem_append_left _ isPut))
    | puts r f record records todo at' =>
        exact dates.goes (r := r) (by rw [at']; rfl) rfl rfl (List.subset_cons_self _ _) rfl rfl
          rfl rfl
    | skips r f todo at' | opens r f todo at' | drops r f todo at' _ | ends r at'
    | stampsBackfile r now at' | leavesBackfile r at' | rebuildsText r at'
    | rebuildsReversed r at' =>
        exact dates.goes (r := r) (by rw [at']; rfl) rfl rfl (List.Subset.refl _) rfl rfl rfl rfl

/-- The record names files that were put to their end, and the stamp files that were recorded. -/
structure Recorded (s : IndexState) : Prop where
  ingested : ∀ n ∈ s.ingestedFiles, ∃ f ∈ s.history.filed, f.name = n
  already : ∀ r, s.sync.run? = some r → r.alreadyIngested ⊆ s.ingestedFiles
  resumed : ∀ r, s.sync.run? = some r → r.ignoreIngested = false →
    s.ingestedFiles ⊆ r.alreadyIngested
  listed : s.backfileThrough ≠ none → ∀ n ∈ s.history.listed, ∃ f ∈ s.history.filed, f.name = n
  kept : s.backfileThrough ≠ none → s.history.rewritten = false →
    s.history.listed ⊆ s.ingestedFiles

theorem Recorded.goes (recorded : Recorded s) {r r' : SyncRun} (isRun : s.sync.run? = some r)
    (isRun' : s'.sync.run? = some r') (already : r'.alreadyIngested = r.alreadyIngested)
    (ignore : r'.ignoreIngested = r.ignoreIngested) (files : s'.ingestedFiles = s.ingestedFiles)
    (stamp : s'.backfileThrough = s.backfileThrough)
    (filed : s'.history.filed = s.history.filed) (listed : s'.history.listed = s.history.listed)
    (rewritten : s'.history.rewritten = s.history.rewritten) : Recorded s' where
  ingested := by
    rw [files, filed]
    exact recorded.ingested
  already := by
    intro r'' isRun''
    rw [isRun'] at isRun''
    obtain rfl := Option.some.inj isRun''
    rw [already, files]
    exact recorded.already r isRun
  resumed := by
    intro r'' isRun'' follows
    rw [isRun'] at isRun''
    obtain rfl := Option.some.inj isRun''
    rw [already, files]
    exact recorded.resumed r isRun (ignore ▸ follows)
  listed := by
    rw [stamp, listed, filed]
    exact recorded.listed
  kept := by
    rw [stamp, listed, rewritten, files]
    exact recorded.kept

theorem SyncReaches.recorded (reached : SyncReaches T s) : Recorded s := by
  apply reached.invariant
  · rintro s rfl
    constructor
    · exact fun n mem => absurd mem List.not_mem_nil
    · nofun
    · nofun
    · exact fun stamped => absurd rfl stamped
    · exact fun stamped => absurd rfl stamped
  · intro s s' recorded step
    cases step.moves with
    | begins files names ignore at' =>
        refine ⟨recorded.ingested, ?_, ?_, recorded.listed, recorded.kept⟩
        · intro r isRun
          obtain rfl := Option.some.inj isRun
          cases ignore with
          | false => exact List.Subset.refl _
          | true => exact List.nil_subset _
        · intro r isRun follows
          obtain rfl := Option.some.inj isRun
          obtain rfl : ignore = false := follows
          exact List.Subset.refl _
    | records r f todo at' named =>
        have isRun : s.sync.run? = some r := by rw [at']; rfl
        refine ⟨?_, ?_, ?_, ?_, ?_⟩
        · intro n mem
          rcases List.mem_append.mp mem with old | new
          · obtain ⟨g, isFiled, isName⟩ := recorded.ingested n (recorded.already r isRun old)
            exact ⟨g, List.mem_cons_of_mem _ isFiled, isName⟩
          · exact ⟨f, List.mem_cons_self, (List.mem_singleton.mp new).symm⟩
        · intro r' isRun'
          obtain rfl := Option.some.inj isRun'
          exact List.Subset.refl _
        · intro r' isRun' _
          obtain rfl := Option.some.inj isRun'
          exact List.Subset.refl _
        · intro stamped n mem
          obtain ⟨g, isFiled, isName⟩ := recorded.listed stamped n mem
          exact ⟨g, List.mem_cons_of_mem _ isFiled, isName⟩
        · intro stamped whole n mem
          -- a sync that ignores the record would have marked it
          obtain ⟨whole, follows⟩ := Bool.or_eq_false_iff.mp whole
          have isStamped : s.backfileThrough.isSome = true := Option.isSome_iff_ne_none.mpr stamped
          rw [isStamped, Bool.and_true] at follows
          exact List.mem_append_left _
            (recorded.resumed r isRun follows (recorded.kept stamped whole mem))
    | stampsBackfile r now at' all =>
        have isRun : s.sync.run? = some r := by rw [at']; rfl
        have known : r.backfileNames.filter (· ≠ "") ⊆ s.ingestedFiles :=
          fun n mem => recorded.already r isRun (all n mem)
        refine ⟨recorded.ingested, ?_, ?_, ?_, fun _ _ => known⟩
        · intro r' isRun'
          obtain rfl := Option.some.inj isRun'
          exact recorded.already r isRun
        · intro r' isRun'
          obtain rfl := Option.some.inj isRun'
          exact recorded.resumed r isRun
        · exact fun _ n mem => recorded.ingested n (known mem)
    | stampsTime | kills =>
        exact ⟨recorded.ingested, nofun, nofun, recorded.listed, recorded.kept⟩
    | puts r f record records todo at' | skips r f todo at' | opens r f todo at'
    | drops r f todo at' _ | ends r at' | leavesBackfile r at' | rebuildsText r at'
    | rebuildsReversed r at' | stampsDate r at' =>
        exact recorded.goes (r := r) (by rw [at']; rfl) rfl rfl rfl rfl rfl rfl rfl rfl

/-- A token index has every row of the table. -/
def TextIndexed (s : IndexState) : Prop :=
  ∀ row ∈ s.mark, (row.rowid, row.row.text) ∈ s.markFts

def ReverseIndexed (s : IndexState) : Prop :=
  ∀ row ∈ s.mark, (row.rowid, row.row.rtext) ∈ s.markRfts

structure Rebuilt (s : IndexState) : Prop where
  text : s.history.pending = false → TextIndexed s
  reversed : s.history.pending = false → ReverseIndexed s
  between : ∀ r, s.sync = .reversed r → TextIndexed s
  timed : s.syncedAt ≠ none → s.history.completed ≠ 0

theorem SyncReaches.rebuilt (reached : SyncReaches T s) : Rebuilt s := by
  apply reached.invariant
  · rintro s rfl
    constructor
    · exact fun _ row mem => absurd mem List.not_mem_nil
    · exact fun _ row mem => absurd mem List.not_mem_nil
    · nofun
    · exact fun done => absurd rfl done
  · intro s s' rebuilt step
    cases step.moves with
    | puts => exact ⟨nofun, nofun, nofun, rebuilt.timed⟩
    | rebuildsText r at' =>
        have indexed : TextIndexed (s.rebuildText r) := fun row mem => List.mem_map_of_mem mem
        exact ⟨fun _ => indexed, rebuilt.reversed, fun _ _ => indexed, rebuilt.timed⟩
    | rebuildsReversed r at' =>
        have indexed : ReverseIndexed (s.rebuildReversed r) :=
          fun row mem => List.mem_map_of_mem mem
        exact ⟨fun _ => rebuilt.between r at', fun _ => indexed, nofun, rebuilt.timed⟩
    | stampsTime => exact ⟨rebuilt.text, rebuilt.reversed, nofun, fun _ => Nat.succ_ne_zero _⟩
    | _ => exact ⟨rebuilt.text, rebuilt.reversed, nofun, rebuilt.timed⟩

/-- The numbers of the table only grow, so what was put since is in no token index. -/
structure Numbered (s : IndexState) : Prop where
  behind : ∀ e ∈ s.markRfts, ∃ row ∈ s.mark, e.1 ≤ row.rowid
  ahead : s.history.pending = true → ∃ row ∈ s.mark, ∀ e ∈ s.markRfts, e.1 < row.rowid

theorem rowid_lt_next {table : List TableRow} {row : TableRow} (mem : row ∈ table) :
    row.rowid < (table.map (·.rowid)).foldr max 0 + 1 := by
  induction table with
  | nil => cases mem
  | cons first rest ih =>
      rw [List.map_cons, List.foldr_cons]
      rcases List.mem_cons.mp mem with rfl | later
      · omega
      · have := ih later
        omega

theorem SyncReaches.numbered (reached : SyncReaches T s) : Numbered s := by
  apply reached.invariant
  · rintro s rfl
    exact ⟨fun e mem => absurd mem List.not_mem_nil, nofun⟩
  · intro s s' numbered step
    cases step.moves with
    | puts r f record records todo at' =>
        have fresh : ∀ e ∈ s.markRfts, e.1 < (s.mark.map (·.rowid)).foldr max 0 + 1 := by
          intro e mem
          obtain ⟨row, isRow, le⟩ := numbered.behind e mem
          exact lt_of_le_of_lt le (rowid_lt_next isRow)
        have put : { rowid := (s.mark.map (·.rowid)).foldr max 0 + 1, row := putRecord T record } ∈
            replaceRow s.mark (putRecord T record) :=
          List.mem_append_right _ List.mem_cons_self
        exact ⟨fun e mem => ⟨_, put, (fresh e mem).le⟩, fun _ => ⟨_, put, fresh⟩⟩
    | rebuildsReversed r at' =>
        refine ⟨?_, nofun⟩
        intro e mem
        obtain ⟨row, isRow, rfl⟩ := List.mem_map.mp mem
        exact ⟨row, isRow, le_refl _⟩
    | _ => exact ⟨numbered.behind, numbered.ahead⟩

theorem SyncReaches.pending_iff (reached : SyncReaches T s) :
    s.history.pending = false ↔ TextIndexed s ∧ ReverseIndexed s := by
  constructor
  · exact fun clean => ⟨reached.rebuilt.text clean, reached.rebuilt.reversed clean⟩
  · rintro ⟨_, indexed⟩
    by_contra pending
    obtain ⟨row, isRow, ahead⟩ := reached.numbered.ahead (eq_true_of_ne_false pending)
    exact absurd (ahead _ (indexed row isRow)) (lt_irrefl _)

end Clearotron
