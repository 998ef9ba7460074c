import Clearotron.Index.Search
import Clearotron.Index.SyncRuns

/-!
# What a count stands on

A count is answered by the stamps alone, and the stamps are those of the last sync that got
so far. It stands where nothing was put since the token indexes were rebuilt; and the table
holds the newest statement of each serial where the files came in order.
-/

namespace Clearotron

variable {T : IndexText} {s s' : IndexState}

/-- What a count over the index stands on. -/
structure CountStands (s : IndexState) (now : Int) : Prop where
  completed : s.history.completed ≠ 0
  synced : ∃ t ∈ s.syncedAt, now - t ≤ 24 * IndexState.hour
  current : ∃ day ∈ s.newestDelta, now - IndexState.dayTime day ≤ 96 * IndexState.hour
  backfile : s.backfileThrough ≠ none ∧ ∀ n ∈ s.history.listed, ∃ f ∈ s.history.filed,
    f.name = n ∧ ∀ record ∈ f.records, ∃ row ∈ s.mark, row.row.serial = record.serial
  text : TextIndexed s
  reversed : ReverseIndexed s

/-- What a count that is answered has checked. -/
theorem doCount_ok {now : Int} {q : IndexQuery} {n : Nat} (counts : s.doCount T now q = .ok n) :
    s.backfileThrough ≠ none ∧
      ∃ day ∈ s.newestDelta, ∀ t ∈ s.syncedAt,
        now - t ≤ 24 * IndexState.hour ∧ now - IndexState.dayTime day ≤ 96 * IndexState.hour := by
  unfold IndexState.doCount at counts
  dsimp only at counts
  split at counts
  · cases counts
  · rename_i fresh
    split at counts
    · cases counts
    · rename_i stamped
      refine ⟨stamped, ?_⟩
      unfold IndexState.freshness at fresh
      cases isDay : s.newestDelta with
      | none => simp [isDay] at fresh
      | some day =>
          refine ⟨day, rfl, ?_⟩
          intro t isTime
          rw [isDay, Option.mem_def.mp isTime] at fresh
          dsimp only at fresh
          split at fresh
          · simp at fresh
          · rename_i inSync
            split at fresh
            · simp at fresh
            · rename_i inData
              unfold IndexState.syncLagHours at inSync
              unfold IndexState.dataLagHours at inData
              exact ⟨by omega, by omega⟩

/-- A count that is answered stands exactly where no row was put since the token indexes were
rebuilt, and the index records when a sync came to its end. -/
theorem count_stands_iff (reached : SyncReaches T s) {now : Int} {q : IndexQuery} {n : Nat}
    (counts : s.doCount T now q = .ok n) :
    CountStands s now ↔ s.history.pending = false ∧ s.syncedAt ≠ none := by
  constructor
  · intro stands
    obtain ⟨t, isTime, _⟩ := stands.synced
    refine ⟨reached.pending_iff.mpr ⟨stands.text, stands.reversed⟩, ?_⟩
    rw [Option.mem_def.mp isTime]
    exact Option.some_ne_none t
  · rintro ⟨clean, timed⟩
    obtain ⟨stamped, day, isDay, inTime⟩ := doCount_ok counts
    obtain ⟨t, isTime⟩ := Option.ne_none_iff_exists'.mp timed
    obtain ⟨text, reversed⟩ := reached.pending_iff.mp clean
    refine ⟨reached.rebuilt.timed timed, ⟨t, isTime, (inTime t isTime).1⟩,
      ⟨day, isDay, (inTime t isTime).2⟩, ⟨stamped, ?_⟩, text, reversed⟩
    intro name mem
    obtain ⟨f, isFiled, isName⟩ := reached.recorded.listed stamped name mem
    exact ⟨f, isFiled, isName, fun record mem => reached.filed_held isFiled mem⟩

theorem SyncReaches.acts {acts : List SyncAct} (reached : SyncReaches T s)
    (goes : s.actAll T acts = some s') : SyncReaches T s' := by
  induction acts generalizing s with
  | nil =>
      obtain rfl := Option.some.inj goes
      exact reached
  | cons a acts ih =>
      obtain ⟨middle, isStep, goes⟩ := Option.bind_eq_some_iff.mp goes
      exact ih (reached.step ⟨a, isStep⟩) goes

/-- The index that acts lead to from an empty one. -/
def indexAfter (T : IndexText) (acts : List SyncAct) : IndexState :=
  (({} : IndexState).actAll T acts).getD {}

theorem reaches_indexAfter (T : IndexText) (acts : List SyncAct) :
    SyncReaches T (indexAfter T acts) := by
  unfold indexAfter
  cases goes : ({} : IndexState).actAll T acts with
  | none => exact .start rfl
  | some s => exact SyncReaches.acts (.start rfl) goes

def annualFile : BulkFile where
  name := "annual"
  dataDate := some 1
  records := [{ serial := "1", text := "ACME", status := some "630" }]

/-- The next day's file, with the same mark. -/
def dailyFile : BulkFile where
  name := "daily"
  dataDate := some 2
  records := [{ serial := "1", text := "ACME", status := some "800" }]

/-- A sync of one file, and so many of its steps; to its end it takes nine. -/
def syncOf (f : BulkFile) (names : List String) (steps : Nat) : List SyncAct :=
  .start [f] names false :: List.replicate steps (.next 0)

def acme : IndexQuery := { predicate := .exact, term := ["ACME"] }

/-- After a sync that came to its end, a count stands. -/
theorem count_stands_synced :
    CountStands (indexAfter asciiText (syncOf annualFile ["annual"] 9)) 0 := by
  have counts : (indexAfter asciiText (syncOf annualFile ["annual"] 9)).doCount asciiText 0 acme =
      .ok 1 := by rfl
  exact (count_stands_iff (reaches_indexAfter _ _) counts).mpr ⟨rfl, nofun⟩

/-- A sync that replaced a row and was killed leaves the stamps of the one before, and a first
sync that was killed before its last stamp has all but that one. Both are counted from. -/
theorem killed_sync_counts :
    (∃ s, SyncReaches asciiText s ∧ s.sync = .idle ∧ s.assertIndexReady asciiText = true ∧
      s.doCount asciiText 0 acme = .ok 1 ∧ ¬ TextIndexed s ∧ ¬ ReverseIndexed s) ∧
    ∃ s, SyncReaches asciiText s ∧ s.sync = .idle ∧ s.assertIndexReady asciiText = true ∧
      s.doCount asciiText 0 acme = .ok 1 ∧ s.history.completed = 0 ∧ s.syncedAt = none := by
  constructor
  · refine ⟨indexAfter asciiText (syncOf annualFile ["annual"] 9 ++ syncOf dailyFile [] 2 ++ [.kill]),
      reaches_indexAfter _ _, rfl, rfl, rfl, ?_, ?_⟩
    · intro indexed
      exact absurd (indexed _ List.mem_cons_self) (by decide)
    · intro indexed
      exact absurd (indexed _ List.mem_cons_self) (by decide)
  · exact ⟨indexAfter asciiText (syncOf annualFile ["annual"] 8 ++ [.kill]),
      reaches_indexAfter _ _, rfl, rfl, rfl, rfl, rfl⟩

/-- The files came in the order of their dates, as far as they hold the same serials. -/
def FilesInOrder (s : IndexState) : Prop :=
  s.history.puts.Pairwise fun later earlier =>
    later.2.serial = earlier.2.serial → NotLater earlier.1.dataDate later.1.dataDate

/-- What a killed sync put was put to its end by some sync, and a sync that put a file no
earlier went on to stamp its date. -/
def KillsMended (s : IndexState) : Prop :=
  ∀ g ∈ s.history.lost, g ∈ s.history.filed ∧
    ∀ d ∈ g.dataDate, ∃ f ∈ s.history.dated, ∃ e ∈ f.dataDate, d ≤ e

/-- The table, the data date and the record, against the files that were ingested. -/
structure NewestHeld (T : IndexText) (s : IndexState) : Prop where
  newest : ∀ row ∈ s.mark, ∃ f ∈ s.history.filed, ∃ record ∈ f.records,
    row.row = putRecord T record ∧ ∀ g ∈ s.history.filed,
      (∃ other ∈ g.records, other.serial = record.serial) → NotLater g.dataDate f.dataDate
  delta : ∀ g ∈ s.history.filed, NotLater g.dataDate s.newestDelta
  of_file : ∀ d ∈ s.newestDelta, ∃ g ∈ s.history.filed, g.dataDate = some d
  recorded : ∀ n ∈ s.ingestedFiles, ∃ f ∈ s.history.filed, f.name = n
  held : ∀ f ∈ s.history.filed, ∀ record ∈ f.records,
    ∃ row ∈ s.mark, row.row.serial = record.serial
  backfile : s.backfileThrough ≠ none → ∀ n ∈ s.history.listed, n ∈ s.ingestedFiles

/-- In order, the last row put of a serial is of its latest file. -/
theorem lastPut_latest {puts : List (BulkFile × MarkRecord)} {serial : String}
    {p q : BulkFile × MarkRecord}
    (order : puts.Pairwise fun later earlier =>
      later.2.serial = earlier.2.serial → NotLater earlier.1.dataDate later.1.dataDate)
    (isLast : lastPut puts serial = some p) (mem : q ∈ puts) (isSerial : q.2.serial = serial) :
    NotLater q.1.dataDate p.1.dataDate := by
  induction puts with
  | nil => cases mem
  | cons first puts ih =>
      obtain ⟨later, order⟩ := List.pairwise_cons.mp order
      unfold lastPut at isLast
      by_cases same : first.2.serial = serial
      · rw [List.find?_cons_of_pos (by simpa using same)] at isLast
        obtain rfl := Option.some.inj isLast
        rcases List.mem_cons.mp mem with rfl | old
        · exact .refl _
        · exact later q old (same.trans isSerial.symm)
      · rw [List.find?_cons_of_neg (by simpa using same)] at isLast
        rcases List.mem_cons.mp mem with rfl | old
        · exact absurd isSerial same
        · exact ih order isLast old

/-- Between syncs, every row put is of a recorded file, where the kills are mended. -/
theorem filed_of_put (reached : SyncReaches T s) (idle : s.sync = .idle) (mended : KillsMended s)
    {p : BulkFile × MarkRecord} (mem : p ∈ s.history.puts) :
    p.2 ∈ p.1.records ∧ p.1 ∈ s.history.filed := by
  obtain ⟨isRecord, isFiled | isLost | ⟨r, isRun, _⟩⟩ := reached.sourced p mem
  · exact ⟨isRecord, isFiled⟩
  · exact ⟨isRecord, (mended p.1 isLost).1⟩
  · rw [idle] at isRun
    cases isRun

/-- Between syncs the index holds the newest statements and their date, where the files came
in order, the kills are mended, and no sync wrote the record anew after the backfile's stamp. -/
theorem newest_held (reached : SyncReaches T s) (idle : s.sync = .idle) (order : FilesInOrder s)
    (mended : KillsMended s) (whole : s.history.rewritten = false) : NewestHeld T s where
  newest := by
    intro row isRow
    obtain ⟨p, isLast, isPut⟩ := reached.putsKept.last row isRow
    have mem : p ∈ s.history.puts := List.mem_of_find?_eq_some isLast
    obtain ⟨isRecord, isFiled⟩ := filed_of_put reached idle mended mem
    refine ⟨p.1, isFiled, p.2, isRecord, isPut, ?_⟩
    rintro g isOther ⟨other, otherRecord, sameSerial⟩
    have otherPut := reached.rowsPut.filed g isOther other otherRecord
    have isSerial : other.serial = row.row.serial := by
      rw [isPut]
      exact sameSerial
    exact lastPut_latest order isLast otherPut isSerial
  delta := by
    intro g isFiled
    rcases reached.dates.filed g isFiled with isDated | isLost | ⟨r, isRun, _⟩
    · exact reached.dates.dated g isDated
    · intro d isDate
      obtain ⟨f, isDated, e, isOther, le⟩ := (mended g isLost).2 d isDate
      obtain ⟨e', isDelta, le'⟩ := reached.dates.dated f isDated e isOther
      exact ⟨e', isDelta, Int.le_trans le le'⟩
    · rw [idle] at isRun
      cases isRun
  of_file := reached.dates.newest
  recorded := reached.recorded.ingested
  held := fun f isFiled record mem => reached.filed_held isFiled mem
  backfile := fun stamped n mem => reached.recorded.kept stamped whole mem

/-- Two syncs, the later one of a later file. -/
theorem newest_held_twice :
    NewestHeld asciiText
      (indexAfter asciiText (syncOf annualFile ["annual"] 9 ++ syncOf dailyFile [] 9)) := by
  refine newest_held (reaches_indexAfter _ _) rfl ?_ ?_ rfl
  · refine List.pairwise_cons.mpr ⟨?_, List.pairwise_singleton _ _⟩
    intro q mem _ d isDate
    obtain rfl := List.mem_singleton.mp mem
    cases isDate
    exact ⟨2, rfl, by decide⟩
  · exact fun g mem => absurd mem List.not_mem_nil

/-- A file that comes after a later one overwrites its statement, and a sync that is killed
and resumed stamps an earlier date than it holds. -/
theorem older_file_overwrites :
    (∃ s, SyncReaches asciiText s ∧ s.sync = .idle ∧ s.history.completed = 2 ∧
      ¬ NewestHeld asciiText s) ∧
    ∃ s, SyncReaches asciiText s ∧ s.sync = .idle ∧ s.history.completed = 1 ∧
      dailyFile ∈ s.history.filed ∧ s.newestDelta = some 1 := by
  constructor
  · refine ⟨indexAfter asciiText (syncOf dailyFile [] 9 ++ syncOf annualFile ["annual"] 9),
      reaches_indexAfter _ _, rfl, rfl, ?_⟩
    intro held
    obtain ⟨f, isFiled, record, isRecord, isRow, latest⟩ := held.newest _ List.mem_cons_self
    have files : f ∈ [annualFile, dailyFile] := isFiled
    rcases List.mem_cons.mp files with rfl | second
    · obtain rfl := List.mem_singleton.mp isRecord
      obtain ⟨e, isDate, le⟩ :=
        latest dailyFile (List.mem_cons_of_mem _ List.mem_cons_self)
          ⟨_, List.mem_cons_self, rfl⟩ 2 rfl
      cases isDate
      exact absurd le (by decide)
    · obtain rfl := List.mem_singleton.mp second
      obtain rfl := List.mem_singleton.mp isRecord
      exact absurd (congrArg MarkRow.status isRow) (by decide)
  · refine ⟨indexAfter asciiText (syncOf dailyFile [] 4 ++ [.kill] ++
      [.start [dailyFile, annualFile] [] false] ++ List.replicate 10 (.next 0)),
      reaches_indexAfter _ _, rfl, rfl, List.mem_cons_of_mem _ List.mem_cons_self, rfl⟩

end Clearotron
