import Clearotron.Declinations.Calls
import Clearotron.Library.Reaches

/-!
# Runs of declination calls

A run remembers the rows its calls stored, in order, and for each journalled refusal the record
the row named in the list of its own call. Against that history are read: what the ledger says
of each record or page, and which records an answer parks.
-/

namespace Clearotron

namespace Declinations

variable {Facts Scope : Type}

/-- What an offered row is about. -/
def Row.key (row : Row Facts) : Option RecordKey :=
  recordKeyOf (if row.isPageRow then row.page else none) row.uri

/-- The text refusals of a record or page are counted under. -/
def RecordKey.counted (k : RecordKey) : String := Text.trim k.text

/-- A row can be decided and counted: what it is about has a key, and its refusals are counted
under that key. -/
def Row.Named (row : Row Facts) : Prop :=
  ∃ k, row.key = some k ∧ declinationKey (rowKey row) = some k.counted

/-- The record or page a position names in a list, as it is counted. -/
def countedAt (rows : List (Row Facts)) (index : Option ℤ) : Option String :=
  (rowAt rows index).bind fun at_ => at_.2.key.map RecordKey.counted

theorem rowAt_mem {rows : List (Row Facts)} {index : Option ℤ} {i : ℕ} {row : Row Facts}
    (found : rowAt rows index = some (i, row)) : row ∈ rows := by
  unfold rowAt at found
  split at found
  · obtain ⟨row', there, same⟩ := Option.map_eq_some_iff.mp found
    obtain ⟨-, rfl⟩ := Prod.mk.injEq .. ▸ same
    exact List.mem_of_getElem? there
  · cases found

section

variable (spec : Spec Facts Scope)

/-- A row that is accepted stands at the position sent, and is kept under that row's key. -/
theorem judge_ok {claimed : List ℕ} {d : Sent} {a : Accepted}
    (accepted : judge spec claimed d = .ok a) : ∃ row ∈ spec.rows, a.key = row.key := by
  unfold judge at accepted
  split at accepted
  · cases accepted
  · next i row found =>
      dsimp only at accepted
      split at accepted
      · cases accepted
      split at accepted
      · cases accepted
      split at accepted
      · cases accepted
      split at accepted
      · cases accepted
      obtain rfl := Except.ok.inj accepted
      exact ⟨row, rowAt_mem found, rfl⟩

/-- What holds of every accepted row and of every refusal of a call. -/
structure Decided.Faithful (decided : Decided) : Prop where
  accepted : ∀ a ∈ decided.accepted, ∃ row ∈ spec.rows, a.key = row.key
  refused : ∀ r ∈ decided.refused,
    r.uri = (rowAt spec.rows r.rowIndex).bind fun at_ => rowKey at_.2

variable {spec}

theorem Decided.Faithful.take {decided : Decided} (faithful : decided.Faithful spec) (d : Sent) :
    (decided.take spec d).Faithful spec := by
  unfold Decided.take
  split
  · next a accepted =>
      refine ⟨fun b mem => ?_, faithful.refused⟩
      obtain before | here := List.mem_append.mp mem
      · exact faithful.accepted b before
      · obtain rfl := List.mem_singleton.mp here
        exact judge_ok spec accepted
  · next why refused =>
      refine ⟨faithful.accepted, fun r mem => ?_⟩
      obtain before | here := List.mem_append.mp mem
      · exact faithful.refused r before
      · obtain rfl := List.mem_singleton.mp here
        rfl

/-- Every refusal carries the key of the row it names in the list of its own call. -/
theorem acceptDeclinationCall_faithful (sent : List Sent) :
    (acceptDeclinationCall spec sent).Faithful spec := by
  have beyond : (Decided.mk [] ((sent.drop maxDeclinationsPerCall).map fun d =>
      refusalOf spec d overLimit)).Faithful spec := by
    refine ⟨by simp, fun r mem => ?_⟩
    obtain ⟨d, -, rfl⟩ := List.mem_map.mp mem
    rfl
  unfold acceptDeclinationCall
  generalize Decided.mk [] ((sent.drop maxDeclinationsPerCall).map fun d =>
    refusalOf spec d overLimit) = decided at *
  induction sent.take maxDeclinationsPerCall generalizing decided with
  | nil => exact beyond
  | cons d rest ih => exact ih _ (beyond.take d)

end

theorem get_counts {ids : List String} {n : Keyed String ℕ} {k : String} :
    (((ids.foldl (fun n k => n.set k ((n.get k).getD 0 + 1)) n).get k).getD 0) =
      (n.get k).getD 0 + ids.count k := by
  induction ids generalizing n with
  | nil => simp
  | cons id ids ih =>
      rw [List.foldl_cons, ih, Keyed.get_set, List.count_cons]
      by_cases same : k = id
      · subst same
        simp
        omega
      · have other : (id == k) = false := by simpa using fun eq => same eq.symm
        simp [same, other]

/-- An id is parked once it was refused as often as the bound. -/
theorem mem_parkedIds {verdicts : List Verdict} {k : String} :
    k ∈ parkedIds verdicts ↔ parkAfterRefusals ≤ (refusedIds verdicts).count k := by
  have counts : ((refusalCountsBy verdicts).get k).getD 0 = (refusedIds verdicts).count k := by
    rw [refusalCountsBy, get_counts, Keyed.get_empty]
    exact Nat.zero_add _
  rw [parkedIds, List.mem_insertionSort, List.mem_map]
  constructor
  · rintro ⟨⟨id, c⟩, mem, rfl⟩
    obtain ⟨entry, reaches⟩ := List.mem_filter.mp mem
    rw [Keyed.get_eq_some.mpr entry] at counts
    rw [← counts]
    exact of_decide_eq_true reaches
  · intro reaches
    cases found : (refusalCountsBy verdicts).get k with
    | none =>
        rw [found] at counts
        rw [← counts] at reaches
        exact absurd reaches (by decide)
    | some c =>
        rw [found] at counts
        refine ⟨(k, c), List.mem_filter.mpr ⟨Keyed.get_eq_some.mp found, ?_⟩, rfl⟩
        rw [← counts] at reaches
        exact decide_eq_true reaches

@[simp] theorem refusedIds_append (verdicts more : List Verdict) :
    refusedIds (verdicts ++ more) = refusedIds verdicts ++ refusedIds more := by
  simp [refusedIds]

theorem ne_empty_of_prefix {s : String} (is : pageKeyPrefix.toList <+: s.toList) : s ≠ "" := by
  rintro rfl
  exact absurd is (by decide)

theorem declinationKey_ne_empty {k : Option String} {s : String}
    (is : declinationKey k = some s) : s ≠ "" := by
  unfold declinationKey at is
  dsimp only at is
  split at is
  · next page => exact Option.some.inj is ▸ ne_empty_of_prefix page
  · rintro rfl
    exact absurd (normalizeRecordUri_self is) (by decide)

theorem trim_keyText_none : Text.trim (keyText none) = "" := by decide

/-- The refusals of a call are counted against the rows they name. -/
theorem refusedIds_verdictOf {spec : Spec Facts Scope} (named : ∀ row ∈ spec.rows, row.Named)
    (sent : List Sent) :
    refusedIds [verdictOf (acceptDeclinationCall spec sent)] =
      (acceptDeclinationCall spec sent).refused.filterMap fun r =>
        countedAt spec.rows r.rowIndex := by
  have whole : (acceptDeclinationCall spec sent).Faithful spec := acceptDeclinationCall_faithful sent
  have faithful := whole.refused
  simp only [refusedIds, verdictOf, List.flatMap_cons, List.flatMap_nil, List.append_nil,
    List.map_map]
  generalize (acceptDeclinationCall spec sent).refused = refused at *
  induction refused with
  | nil => rfl
  | cons r rest ih =>
      have uri := faithful r List.mem_cons_self
      have rest' := ih fun r mem => faithful r (List.mem_cons_of_mem _ mem)
      rw [List.map_cons, List.filterMap_cons]
      cases found : rowAt spec.rows r.rowIndex with
      | none =>
          have blank : Text.trim (keyText r.uri) = "" := by
            rw [uri, found]
            exact trim_keyText_none
          simp [Function.comp_def, blank, countedAt, found] at rest' ⊢
          exact rest'
      | some at_ =>
          obtain ⟨i, row⟩ := at_
          obtain ⟨k, keyIs, counted⟩ := named row (rowAt_mem found)
          have text : Text.trim (keyText r.uri) = k.counted := by
            rw [uri, found, Option.bind_some, keyText, counted, Option.getD_some]
            exact Text.trim_trim _
          have some' : k.counted ≠ "" := declinationKey_ne_empty counted
          simp [Function.comp_def, text, some', countedAt, found, keyIs] at rest' ⊢
          exact rest'

/-- A call, with the list it was handed and what becomes of its writes. A run that is killed
in a call is one whose later writes do not begin. -/
structure Call (Facts Scope : Type) where
  spec : Spec Facts Scope
  sent : List Sent
  now : String
  ledgerWrite : LedgerWrite := .lands
  journalWrite : JournalWrite := .lands

def Call.decided (c : Call Facts Scope) : Decided := acceptDeclinationCall c.spec c.sent

/-- The records and pages the call's refusals name, in the list of that call. -/
def Call.refusedKeys (c : Call Facts Scope) : List String :=
  c.decided.refused.filterMap fun r => countedAt c.spec.rows r.rowIndex

/-- A run: its files, the rows its calls stored, and its journalled refusals by what they name. -/
structure Run where
  files : Files := {}
  accepted : List Accepted := []
  refusals : List String := []

section

variable (cited : String → List ℕ)

def Run.answer (st : Run) (c : Call Facts Scope) : Answer :=
  (recordDeclinations cited c.now c.spec c.sent st.files c.ledgerWrite c.journalWrite).1

def Run.after (st : Run) (c : Call Facts Scope) : Run where
  files := (recordDeclinations cited c.now c.spec c.sent st.files c.ledgerWrite c.journalWrite).2
  accepted := if c.ledgerWrite = .lands then st.accepted ++ c.decided.accepted else st.accepted
  refusals := if c.journalWrite = .lands then st.refusals ++ c.refusedKeys else st.refusals

/-- What `readDeclinations` returns. -/
def Run.declined (st : Run) : Declined := readDeclinations st.files.ledger

/-- A declination stands of what is counted under this text. -/
def Standing (d : Declined) (s : String) : Prop := ∃ k e, d.get k = some e ∧ k.counted = s

/-- What is promised of a state: every stored row is found under its key, with the last decision
on it, and nothing is found that no call accepted. -/
structure Kept (st : Run) : Prop where
  found : ∀ a ∈ st.accepted, ∃ k e, a.key = some k ∧ st.declined.get k = some e ∧
    lastDecision st.accepted k = some e.said
  only : ∀ k e, st.declined.get k = some e →
    ∃ a ∈ st.accepted, a.key = some k ∧ e.said = (a.reason, a.grounds)

/-- What is promised of an answer. -/
structure Answered (st : Run) (c : Call Facts Scope) : Prop where
  /-- the rows it counts as accepted are stored, or it reports that they are not -/
  stored : (st.answer cited c).storageFailed = false →
    (st.answer cited c).accepted = c.decided.accepted.length ∧
      (st.after cited c).accepted = st.accepted ++ c.decided.accepted
  /-- what the ledger says of anything it did not accept stands -/
  others : ∀ k, (∀ a ∈ c.decided.accepted, a.key ≠ some k) →
    ((st.after cited c).declined.get k).map Entry.said = (st.declined.get k).map Entry.said
  /-- what it parks was refused as often as the bound, and no declination of it stands -/
  parked : ∀ s, s ∈ (st.answer cited c).parked ↔
    parkAfterRefusals ≤ (st.refusals ++ c.refusedKeys).count s ∧
      ¬ Standing (st.after cited c).declined s

/-- A step of a run, by a call of this kind. -/
def StepBy (allowed : Run → Call Facts Scope → Prop) (st st' : Run) : Prop :=
  ∃ c, allowed st c ∧ st' = st.after cited c

/-- Every row offered has its key; the ledger is torn only while nothing stands in it, and the
journal is not cut; and no record with a decision that stands was refused as often as the bound. -/
structure Sound (st : Run) (c : Call Facts Scope) : Prop where
  named : ∀ row ∈ c.spec.rows, row.Named
  ledger : c.ledgerWrite = .tears → st.accepted = []
  journal : ∀ whole, c.journalWrite ≠ .cut whole
  undecided : ∀ s, parkAfterRefusals ≤ (st.refusals ++ c.refusedKeys).count s →
    ∀ a, a ∈ st.accepted ∨ c.ledgerWrite = .lands ∧ a ∈ c.decided.accepted →
      ∀ k, a.key = some k → k.counted ≠ s

/-- The files say what the history says. -/
structure Follows (st : Run) : Prop where
  ledger : ∀ k, (st.declined.get k).map Entry.said = lastDecision st.accepted k
  keyed : ∀ a ∈ st.accepted, ∃ k, a.key = some k
  ended : st.files.journal.tail = .ended
  journal : refusedIds st.files.journal.lines = st.refusals

end

theorem mem_of_lastDecision {rows : List Accepted} {k : RecordKey} {said : String × String}
    (last : lastDecision rows k = some said) :
    ∃ a ∈ rows, a.key = some k ∧ said = (a.reason, a.grounds) := by
  obtain ⟨a, found, rfl⟩ := Option.map_eq_some_iff.mp last
  have key := List.find?_some found
  exact ⟨a, List.mem_reverse.mp (List.mem_of_find?_eq_some found), of_decide_eq_true key, rfl⟩

theorem lastDecision_of_mem {rows : List Accepted} {a : Accepted} {k : RecordKey}
    (mem : a ∈ rows) (key : a.key = some k) : ∃ said, lastDecision rows k = some said := by
  cases last : lastDecision rows k with
  | some said => exact ⟨said, rfl⟩
  | none =>
      have nowhere := Option.map_eq_none_iff.mp last
      rw [List.find?_eq_none] at nowhere
      exact absurd (decide_eq_true key) (nowhere a (List.mem_reverse.mpr mem))

theorem lastDecision_of_not_mem {rows : List Accepted} {k : RecordKey}
    (nowhere : ∀ a ∈ rows, a.key ≠ some k) : lastDecision rows k = none := by
  cases last : lastDecision rows k with
  | none => rfl
  | some said =>
      obtain ⟨a, mem, key, -⟩ := mem_of_lastDecision last
      exact absurd key (nowhere a mem)

section

variable {cited : String → List ℕ} {st : Run} {c : Call Facts Scope}

theorem Follows.kept (follows : Follows st) : Kept st where
  found a mem := by
    obtain ⟨k, key⟩ := follows.keyed a mem
    obtain ⟨said, last⟩ := lastDecision_of_mem mem key
    have read := follows.ledger k
    rw [last] at read
    obtain ⟨e, found, rfl⟩ := Option.map_eq_some_iff.mp read
    exact ⟨k, e, key, found, last⟩
  only k e there := by
    have read := follows.ledger k
    rw [there] at read
    exact mem_of_lastDecision read.symm

/-- A text under which no entry can stand has no decision either. -/
theorem lastDecision_of_not_proper {rows : List Accepted} {k : RecordKey} (not : ¬ k.Proper) :
    lastDecision rows k = none :=
  lastDecision_of_not_mem fun _ _ key => not (proper_of_recordKeyOf key)

/-- What the ledger says after a call: the decisions it stored, over what it said before. -/
theorem declined_after (torn : c.ledgerWrite = .tears → st.accepted = [])
    (follows : Follows st) (k : RecordKey) :
    ((st.after cited c).declined.get k).map Entry.said =
      lastDecision (st.after cited c).accepted k := by
  have before := follows.ledger k
  change ((readDeclinations (ledgerAfter cited c.now c.spec c.sent st.files
    c.ledgerWrite)).get k).map Entry.said = lastDecision (if _ then _ else _) k
  unfold ledgerAfter
  dsimp only
  have none' : acceptDeclinationCall c.spec c.sent = c.decided := rfl
  rw [none']
  by_cases empty : c.decided.accepted = []
  · rw [if_pos empty, empty, List.append_nil, ite_self]
    exact before
  · rw [if_neg empty]
    cases write : c.ledgerWrite with
    | lands =>
        rw [if_pos rfl, lastDecision_append, ← before]
        by_cases proper : k.Proper
        · exact read_appendDeclinations _ _ proper
        · have nothing : st.declined.get k = none := get_of_not_proper proper
          rw [get_of_not_proper proper, nothing, lastDecision_of_not_proper proper]
          rfl
    | fails =>
        rw [if_neg (by simp)]
        exact before
    | tears =>
        rw [if_neg (by simp), torn write]
        cases k <;> rfl

/-- The journal after a call: its refusals, counted against what they name. -/
theorem Sound.refusals (sound : Sound st c) (follows : Follows st) :
    refusedIds (allVerdicts c.spec c.sent st.files) = st.refusals ++ c.refusedKeys := by
  have read : st.files.journal.read = st.files.journal.lines := by
    rw [Journal.read, follows.ended]
  unfold allVerdicts
  rw [refusedIds_append, refusedIds_verdictOf sound.named, read, follows.journal]
  rfl

theorem Sound.follows (sound : Sound st c) (follows : Follows st) :
    Follows (st.after cited c) where
  ledger := declined_after sound.ledger follows
  keyed := by
    intro a mem
    change a ∈ (if _ then _ else _) at mem
    have before : a ∈ st.accepted ∨ a ∈ c.decided.accepted := by
      split at mem
      · exact List.mem_append.mp mem
      · exact .inl mem
    obtain mem | mem := before
    · exact follows.keyed a mem
    · obtain ⟨row, offered, key⟩ := (acceptDeclinationCall_faithful c.sent).accepted a mem
      obtain ⟨k, named, -⟩ := sound.named row offered
      exact ⟨k, key.trans named⟩
  ended := by
    change (journalAfter c.spec c.sent st.files c.journalWrite).tail = .ended
    unfold journalAfter
    cases write : c.journalWrite with
    | lands => simp [Journal.append, follows.ended]
    | fails => exact follows.ended
    | cut whole => exact absurd write (sound.journal whole)
  journal := by
    change refusedIds (journalAfter c.spec c.sent st.files c.journalWrite).lines =
      if _ then _ else _
    unfold journalAfter
    cases write : c.journalWrite with
    | lands =>
        simp only [Journal.append, follows.ended, if_true]
        rw [refusedIds_append, refusedIds_verdictOf sound.named, follows.journal]
        rfl
    | fails =>
        rw [if_neg (by simp)]
        exact follows.journal
    | cut whole => exact absurd write (sound.journal whole)

theorem Sound.answered (sound : Sound st c) (follows : Follows st) : Answered cited st c where
  stored reported := by
    refine ⟨rfl, ?_⟩
    change (!(decide (c.decided.accepted = []) || decide (c.ledgerWrite = .lands))) = false
      at reported
    change (if _ then _ else _) = _
    split
    · rfl
    · next not =>
        have empty : c.decided.accepted = [] := by simpa [not] using reported
        rw [empty, List.append_nil]
  others k elsewhere := by
    rw [declined_after sound.ledger follows, follows.ledger]
    change lastDecision (if _ then _ else _) k = _
    split
    · rw [lastDecision_append, lastDecision_of_not_mem elsewhere]
      rfl
    · rfl
  parked s := by
    have counts : s ∈ (st.answer cited c).parked ↔
        parkAfterRefusals ≤ (refusedIds (allVerdicts c.spec c.sent st.files)).count s :=
      mem_parkedIds
    rw [sound.refusals follows] at counts
    refine counts.trans ⟨fun reaches => ⟨reaches, ?_⟩, fun parked => parked.1⟩
    rintro ⟨k, e, there, rfl⟩
    have after : Follows (st.after cited c) := sound.follows follows
    obtain ⟨a, mem, key, -⟩ := after.kept.only k e there
    refine sound.undecided _ reaches a ?_ k key rfl
    change a ∈ (if _ then _ else _) at mem
    split at mem
    · next lands => exact (List.mem_append.mp mem).imp_right fun mem => ⟨lands, mem⟩
    · exact .inl mem

end

/-- In a run of sound calls every stored row is found under its key with the last decision on it,
nothing is found that no call accepted, and every further sound call answers as it must: what it
counts as accepted is stored, nothing else is lost, a refusal is counted against the row it named
in its own list, and a record is parked exactly when its refusals reach the bound and no
declination of it stands. -/
theorem declinations_kept (cited : String → List ℕ) {st : Run}
    (reached : Reaches (· = {})
      (StepBy cited fun st (c : Call Facts Scope) => Sound st c) st) :
    Kept st ∧ ∀ c : Call Facts Scope, Sound st c → Answered cited st c := by
  have follows : Follows st := by
    refine reached.invariant ?_ ?_
    · rintro _ rfl
      exact ⟨fun k => by cases k <;> rfl, by simp, rfl, rfl⟩
    · rintro s s' follows ⟨c, sound, rfl⟩
      exact sound.follows follows
  exact ⟨follows.kept, fun c sound => sound.answered follows⟩

/-- A list of one record. -/
def oneRecord (uri : String) : Spec Unit Unit where
  rows := [{ uri := some uri, facts := () }]
  scope := ()
  groundsProblem grounds _ := if grounds.length < 20 then "too short" else ""
  contradictionFor _ _ _ := ""

def ownRight : Sent := ⟨some 0, "own-right", "registered by the applicant itself"⟩

def declines (uri : String) (write : LedgerWrite) : Call Unit Unit where
  spec := oneRecord uri
  sent := [ownRight]
  now := "2026-09-01"
  ledgerWrite := write

theorem declines_decided (write : LedgerWrite) :
    (declines "/mark/us/100" write).decided.accepted =
      [⟨0, some "/mark/us/100", none, none, none, none, "own-right",
        "registered by the applicant itself"⟩] := by
  change (acceptDeclinationCall (oneRecord "/mark/us/100") [ownRight]).accepted = _
  decide +kernel

theorem declines_refusedKeys (write : LedgerWrite) :
    (declines "/mark/us/100" write).refusedKeys = [] := by
  have refused : (acceptDeclinationCall (oneRecord "/mark/us/100") [ownRight]).refused = [] := by
    decide +kernel
  change (acceptDeclinationCall (oneRecord "/mark/us/100") [ownRight]).refused.filterMap _ = _
  rw [refused]
  rfl

/-- A declination of another record whose grounds say too little, and which is refused. -/
def declinesShortly : Call Unit Unit where
  spec := oneRecord "/mark/us/200"
  sent := [⟨some 0, "own-right", "own"⟩]
  now := "2026-09-02"

theorem declinesShortly_refusedKeys : declinesShortly.refusedKeys = ["/mark/us/200"] := by
  decide +kernel

/-- Fewer refusals than the bound reach it of no record. -/
theorem undecided_of_few {st : Run} {c : Call Unit Unit}
    (few : (st.refusals ++ c.refusedKeys).length < parkAfterRefusals) (s : String)
    (reaches : parkAfterRefusals ≤ (st.refusals ++ c.refusedKeys).count s) : False :=
  absurd (reaches.trans List.count_le_length) (Nat.not_le.mpr few)

theorem declines_sound {st : Run} {write : LedgerWrite} (torn : write = .tears → st.accepted = [])
    (few : st.refusals.length < parkAfterRefusals) :
    Sound st (declines "/mark/us/100" write) where
  named row mem := by
    obtain rfl := List.mem_singleton.mp mem
    exact ⟨.record "/mark/us/100", by decide +kernel, by decide +kernel⟩
  ledger := torn
  journal whole cut := by cases cut
  undecided s reaches := by
    refine (undecided_of_few ?_ s reaches).elim
    rw [declines_refusedKeys, List.append_nil]
    exact few

theorem declinesShortly_sound {st : Run} (few : st.refusals.length + 1 < parkAfterRefusals) :
    Sound st declinesShortly where
  named row mem := by
    obtain rfl := List.mem_singleton.mp mem
    exact ⟨.record "/mark/us/200", by decide +kernel, by decide +kernel⟩
  ledger torn := by cases torn
  journal whole cut := by cases cut
  undecided s reaches := by
    refine (undecided_of_few ?_ s reaches).elim
    rw [declinesShortly_refusedKeys, List.length_append]
    exact few

/-- The ledger's first write is cut, the record is declined again, and a declination of another
record is refused. -/
def declinedAgain : Run :=
  ((({} : Run).after (fun _ => []) (declines "/mark/us/100" .tears)).after
    (fun _ => []) (declines "/mark/us/100" .lands)).after (fun _ => []) declinesShortly

/-- What was stored is found, and a further call is answered as it must. -/
theorem declinations_kept_first :
    Kept declinedAgain ∧
      Answered (fun _ => []) declinedAgain (declines "/mark/us/100" .lands) := by
  let torn := ({} : Run).after (fun _ => []) (declines "/mark/us/100" .tears)
  let lands := torn.after (fun _ => []) (declines "/mark/us/100" .lands)
  have first : torn.refusals = [] := declines_refusedKeys .tears
  have second : lands.refusals = [] := by
    change torn.refusals ++ (declines "/mark/us/100" .lands).refusedKeys = []
    rw [first, declines_refusedKeys]
    rfl
  have third : declinedAgain.refusals = ["/mark/us/200"] := by
    change lands.refusals ++ declinesShortly.refusedKeys = _
    rw [second, declinesShortly_refusedKeys]
    rfl
  have kept := declinations_kept (fun _ => []) (.step (.step (.step (.start rfl)
    ⟨declines "/mark/us/100" .tears, declines_sound (fun _ => rfl) (by decide), rfl⟩)
    ⟨declines "/mark/us/100" .lands, declines_sound nofun (by rw [first]; decide), rfl⟩)
    ⟨declinesShortly, declinesShortly_sound (by rw [second]; decide), rfl⟩)
  exact ⟨kept.1, kept.2 _ (declines_sound nofun (by
    change declinedAgain.refusals.length < _
    rw [third]
    decide))⟩

theorem after_tears {cited : String → List ℕ} {st : Run} {c : Call Facts Scope}
    (accepts : c.decided.accepted ≠ []) (tears : c.ledgerWrite = .tears) :
    (st.after cited c).files.ledger = .torn := by
  change ledgerAfter cited c.now c.spec c.sent st.files c.ledgerWrite = .torn
  have accepts' : (acceptDeclinationCall c.spec c.sent).accepted ≠ [] := accepts
  simp [ledgerAfter, accepts', tears]

/-- A record is declined, and the ledger's next write is cut: the first decision is gone. -/
theorem cut_ledger_loses_a_decision :
    ¬ ∀ st, Reaches (· = {}) (StepBy (fun _ => []) fun _ (_ : Call Unit Unit) => True) st →
      Kept st := by
  intro promised
  have first : Reaches (· = {}) (StepBy (fun _ => []) fun _ (_ : Call Unit Unit) => True)
      (({} : Run).after (fun _ => []) (declines "/mark/us/100" .lands)) :=
    .step (.start rfl) ⟨_, trivial, rfl⟩
  have second := promised _ (.step first ⟨declines "/mark/us/200" .tears, trivial, rfl⟩)
  have stored : (({} : Run).after (fun _ => []) (declines "/mark/us/100" .lands)).accepted =
      [⟨0, some "/mark/us/100", none, none, none, none, "own-right",
        "registered by the applicant itself"⟩] := declines_decided .lands
  obtain ⟨k, e, -, found, -⟩ := second.found _ (by
    change _ ∈ (({} : Run).after (fun _ => []) (declines "/mark/us/100" .lands)).accepted
    rw [stored]
    exact List.mem_singleton.mpr rfl)
  have accepts : (declines "/mark/us/200" .tears).decided.accepted ≠ [] := by
    change (acceptDeclinationCall (oneRecord "/mark/us/200") [ownRight]).accepted ≠ []
    decide +kernel
  have torn : ((({} : Run).after (fun _ => []) (declines "/mark/us/100" .lands)).after
      (fun _ => []) (declines "/mark/us/200" .tears)).files.ledger = .torn :=
    after_tears accepts rfl
  rw [Run.declined, torn] at found
  cases k <;> cases found

end Declinations

end Clearotron
