import Clearotron.Declinations.Keys
import Clearotron.Library.Reaches
import Clearotron.Library.Keyed

/-!
# The ledger of declinations

The ledger is one file, read whole, extended with the rows a call accepted and written whole
again. A record is found in it by its uri, a page by its address. What is read of a ledger that
was written is the ledger with its last decision on each record or page.
-/

namespace Clearotron

namespace Declinations

/-- The decision that a later one replaced. -/
structure Superseded where
  reason : String
  grounds : String
  recordedAt : String
  deriving DecidableEq

/-- An entry of the ledger. -/
structure Entry where
  page : Option String := none
  url : Option String := none
  uri : Option String := none
  mark : Option String := none
  owner : Option String := none
  reason : String
  grounds : String
  cites : List ℕ := []
  recordedAt : String
  supersedes : Option Superseded := none
  deriving DecidableEq

/-- A row a call accepted. -/
structure Accepted where
  rowIndex : ℕ
  uri : Option String
  page : Option String := none
  url : Option String := none
  mark : Option String := none
  owner : Option String := none
  reason : String
  grounds : String
  deriving DecidableEq

/-- What a decision is about: a record, by its normalised uri, or a page, by its address. -/
inductive RecordKey
  | record (uri : String)
  | page (address : String)
  deriving DecidableEq

/-- The one text the ledger's map and the refusals are keyed by. -/
def RecordKey.text : RecordKey → String
  | .record uri => uri
  | .page address => pageKeyPrefix ++ address

/-- `typeof d?.page === "string" && d.page`, and otherwise the normalised uri. -/
def recordKeyOf (page uri : Option String) : Option RecordKey :=
  match page.filter (· ≠ "") with
  | some address => some (.page address)
  | none => (uri.bind normalizeRecordUri).map .record

def Entry.key (e : Entry) : Option RecordKey := recordKeyOf e.page e.uri

def Accepted.key (a : Accepted) : Option RecordKey := recordKeyOf a.page a.uri

/-- `readDeclinations`' answer. -/
structure Declined where
  present : Bool
  byUri : Keyed String Entry := .empty
  byPage : Keyed String Entry := .empty

namespace Declined

variable (d : Declined)

def count : ℕ := d.byUri.entries.length + d.byPage.entries.length

/-- An entry, where the reading puts it. -/
def add (e : Entry) : Declined :=
  match e.key with
  | some (.page address) => { d with byPage := d.byPage.set address e }
  | some (.record uri) => { d with byUri := d.byUri.set uri e }
  | none => d

/-- What stands of a record, or of a page. -/
def get : RecordKey → Option Entry
  | .record uri => d.byUri.get uri
  | .page address => d.byPage.get address

/-- The one map the appending works on. -/
def merged : Keyed String Entry :=
  d.byPage.entries.foldl (fun m pe => m.set (pageKeyPrefix ++ pe.1) pe.2) d.byUri

end Declined

def readDeclinations (ledger : Held (List Entry)) : Declined :=
  match ledger.read with
  | some entries => entries.foldl Declined.add { present := true }
  | none => { present := false }

section

variable (cited : String → List ℕ) (now : String)

/-- An accepted row as an entry; `was` is the decision it replaces. -/
def entryOf (a : Accepted) (k : RecordKey) (was : Option Entry) : Entry where
  page := match k with | .page address => some address | .record _ => none
  url := match k with | .page _ => a.url | .record _ => none
  uri := match k with | .page _ => none | .record uri => some uri
  mark := a.mark
  owner := a.owner
  reason := a.reason
  grounds := a.grounds
  cites := cited a.grounds
  recordedAt := now
  supersedes := was.map fun e => ⟨e.reason, e.grounds, e.recordedAt⟩

/-- One accepted row; a row of neither a page nor a record uri is passed over. -/
def appendRow (m : Keyed String Entry) (a : Accepted) : Keyed String Entry :=
  match a.key with
  | some k => m.set k.text (entryOf cited now a k (m.get k.text))
  | none => m

/-- The entries written: what the ledger held, and the accepted rows over them. -/
def appendDeclinations (ledger : Held (List Entry)) (accepted : List Accepted) : List Entry :=
  (accepted.foldl (appendRow cited now) (readDeclinations ledger).merged).entries.map Prod.snd

end

/-- A key an entry or an accepted row can have. -/
def RecordKey.Proper : RecordKey → Prop
  | .record uri => normalizeRecordUri uri = some uri
  | .page address => address ≠ ""

theorem proper_of_recordKeyOf {page uri : Option String} {k : RecordKey}
    (is : recordKeyOf page uri = some k) : k.Proper := by
  unfold recordKeyOf at is
  split at is
  · next address found =>
      obtain rfl := Option.some.inj is
      have some' := (Option.filter_eq_some_iff.mp found).2
      exact of_decide_eq_true (p := address ≠ "") some'
  · obtain ⟨u, found, rfl⟩ := Option.map_eq_some_iff.mp is
    obtain ⟨raw, -, found⟩ := Option.bind_eq_some_iff.mp found
    exact normalizeRecordUri_self found

/-- Two things decided are kept apart. -/
theorem RecordKey.text_inj {k k' : RecordKey} (proper : k.Proper) (proper' : k'.Proper)
    (same : k.text = k'.text) : k = k' := by
  cases k with
  | record uri =>
      cases k' with
      | record uri' => exact congrArg RecordKey.record same
      | page address => exact absurd same (normalizeRecordUri_ne_page proper address)
  | page address =>
      cases k' with
      | record uri => exact absurd same.symm (normalizeRecordUri_ne_page proper' address)
      | page address' => exact congrArg RecordKey.page (String.append_right_inj _ |>.mp same)

theorem entryOf_key {cited : String → List ℕ} {now : String} {a : Accepted} {k : RecordKey}
    {was : Option Entry} (proper : k.Proper) : (entryOf cited now a k was).key = some k := by
  cases k with
  | page address =>
      have kept : (some address).filter (· ≠ "") = some address :=
        Option.filter_eq_some_iff.mpr ⟨rfl, decide_eq_true proper⟩
      simp only [Entry.key, entryOf, recordKeyOf, kept]
  | record uri =>
      have kept : normalizeRecordUri uri = some uri := proper
      simp [Entry.key, entryOf, recordKeyOf, kept]

namespace Declined

variable {d : Declined}

theorem get_add {e : Entry} {k k' : RecordKey} (is : e.key = some k) :
    (d.add e).get k' = if k' = k then some e else d.get k' := by
  cases k with
  | record uri =>
      cases k' with
      | record uri' => simp [add, is, get, Keyed.get_set]
      | page address => simp [add, is, get]
  | page address =>
      cases k' with
      | record uri' => simp [add, is, get]
      | page address' => simp [add, is, get, Keyed.get_set]

theorem add_of_none {e : Entry} (is : e.key = none) : d.add e = d := by
  simp [add, is]

/-- Every entry stands under its own key. -/
def WellKeyed (d : Declined) : Prop := ∀ k e, d.get k = some e → e.key = some k

theorem WellKeyed.add (keyed : d.WellKeyed) (e : Entry) : (d.add e).WellKeyed := by
  intro k' e' there
  cases is : e.key with
  | none => exact keyed _ _ (by rwa [add_of_none is] at there)
  | some k =>
      rw [get_add is] at there
      split at there
      · next same =>
          obtain rfl := Option.some.inj there
          rw [is, same]
      · exact keyed _ _ there

theorem WellKeyed.addAll (keyed : d.WellKeyed) (entries : List Entry) :
    (entries.foldl Declined.add d).WellKeyed := by
  induction entries generalizing d with
  | nil => exact keyed
  | cons e entries ih => exact ih (keyed.add e)

/-- Entries of different keys are each found. -/
theorem get_addAll {rows : List (String × Entry)} {k : RecordKey} (proper : k.Proper)
    (nodup : (rows.map Prod.fst).Nodup)
    (keyed : ∀ row ∈ rows, ∃ k, row.2.key = some k ∧ k.text = row.1) :
    ((rows.map Prod.snd).foldl Declined.add d).get k = (rows.lookup k.text <|> d.get k) := by
  induction rows generalizing d with
  | nil => simp
  | cons row rows ih =>
      obtain ⟨text, e⟩ := row
      obtain ⟨k', is, rfl⟩ := keyed (text, e) List.mem_cons_self
      obtain ⟨fresh, nodup⟩ := List.nodup_cons.mp nodup
      rw [List.map_cons, List.foldl_cons,
        ih nodup fun row mem => keyed row (List.mem_cons_of_mem _ mem), get_add is]
      by_cases same : k = k'
      · subst same
        have absent : rows.lookup k.text = none := by
          rw [List.lookup_eq_none_iff]
          rintro ⟨text, e'⟩ mem
          have other : text ≠ k.text := fun eq => fresh (List.mem_map.mpr ⟨_, mem, eq⟩)
          simpa using fun eq => other eq.symm
        simp [absent]
      · have other : k.text ≠ k'.text := fun eq =>
          same (RecordKey.text_inj proper (proper_of_recordKeyOf is) eq)
        have skip : (k.text == k'.text) = false := by simpa using other
        simp [same, List.lookup_cons, skip]

/-- The merged map holds what stands, under its text. -/
theorem get_merged (keyed : d.WellKeyed) {k : RecordKey} (proper : k.Proper) :
    d.merged.get k.text = d.get k := by
  have keysNodup : (d.byPage.entries.map fun pe => pageKeyPrefix ++ pe.1).Nodup := by
    have inj := d.byPage.nodup.map (f := (pageKeyPrefix ++ ·))
      fun a b same => (String.append_right_inj _).mp same
    simpa [List.map_map, Function.comp_def] using inj
  apply Option.ext
  intro e
  rw [Keyed.get_eq_some]
  constructor
  · intro there
    obtain uri | ⟨⟨address, e'⟩, page, text, rfl⟩ := Keyed.mem_foldl_set there
    · have found : d.get (.record k.text) = some e := Keyed.get_eq_some.mpr uri
      have own := proper_of_recordKeyOf (keyed _ _ found)
      have same : RecordKey.record k.text = k := RecordKey.text_inj own proper rfl
      exact same ▸ found
    · have found : d.get (.page address) = some e' := Keyed.get_eq_some.mpr page
      have own := proper_of_recordKeyOf (keyed _ _ found)
      have same : RecordKey.page address = k := RecordKey.text_inj own proper text
      exact same ▸ found
  · intro found
    cases k with
    | record uri =>
        refine Keyed.mem_foldl_set_of_absent ?_ (Keyed.get_eq_some.mp found)
        intro mem
        obtain ⟨pe, -, same⟩ := List.mem_map.mp mem
        exact normalizeRecordUri_ne_page proper pe.1 same.symm
    | page address =>
        have entry := Keyed.get_eq_some.mp found
        exact Keyed.mem_foldl_set_of_nodup keysNodup entry

theorem merged_keyed (keyed : d.WellKeyed) :
    ∀ row ∈ d.merged.entries, ∃ k, row.2.key = some k ∧ k.text = row.1 := by
  rintro ⟨text, e⟩ mem
  obtain uri | ⟨⟨address, e'⟩, page, rfl, rfl⟩ := Keyed.mem_foldl_set mem
  · exact ⟨.record text, keyed _ _ (Keyed.get_eq_some.mpr uri), rfl⟩
  · exact ⟨.page address, keyed _ _ (Keyed.get_eq_some.mpr page), rfl⟩

end Declined

theorem wellKeyed_read (ledger : Held (List Entry)) : (readDeclinations ledger).WellKeyed := by
  have empty : ∀ present, ({ present := present } : Declined).WellKeyed := by
    intro present k e there
    cases k <;> cases there
  unfold readDeclinations
  split
  · exact (empty true).addAll _
  · exact empty false

/-- What an entry says. -/
def Entry.said (e : Entry) : String × String := (e.reason, e.grounds)

/-- The last decision among accepted rows on a record or page. -/
def lastDecision (rows : List Accepted) (k : RecordKey) : Option (String × String) :=
  (rows.reverse.find? fun a => a.key = some k).map fun a => (a.reason, a.grounds)

@[simp] theorem lastDecision_nil (k : RecordKey) : lastDecision [] k = none := rfl

theorem lastDecision_append (rows more : List Accepted) (k : RecordKey) :
    lastDecision (rows ++ more) k = (lastDecision more k <|> lastDecision rows k) := by
  unfold lastDecision
  rw [List.reverse_append, List.find?_append]
  cases more.reverse.find? fun a => a.key = some k <;> simp

section

variable {cited : String → List ℕ} {now : String} {m : Keyed String Entry}

/-- The map the rows go into keeps every entry under its key. -/
theorem appendRow_keyed
    (keyed : ∀ row ∈ m.entries, ∃ k, row.2.key = some k ∧ k.text = row.1) (a : Accepted) :
    ∀ row ∈ (appendRow cited now m a).entries,
      ∃ k, row.2.key = some k ∧ k.text = row.1 := by
  unfold appendRow
  split
  · next k is =>
      rintro ⟨text, e⟩ mem
      obtain ⟨rfl, rfl⟩ | ⟨-, mem⟩ := Keyed.mem_set.mp mem
      · exact ⟨k, entryOf_key (proper_of_recordKeyOf is), rfl⟩
      · exact keyed _ mem
  · exact keyed

theorem appendRow_get {a : Accepted} {k : RecordKey} (proper : k.Proper) :
    ((appendRow cited now m a).get k.text).map Entry.said =
      (lastDecision [a] k <|> (m.get k.text).map Entry.said) := by
  unfold appendRow
  split
  · next k' is =>
      rw [Keyed.get_set]
      by_cases same : k = k'
      · subst same
        simp [lastDecision, is, Entry.said, entryOf]
      · have other : k.text ≠ k'.text := fun eq =>
          same (RecordKey.text_inj proper (proper_of_recordKeyOf is) eq)
        have differ : ¬ k' = k := fun eq => same eq.symm
        simp [other, lastDecision, is, differ]
  · next is => simp [lastDecision, is]

theorem appendRows_get {rows : List Accepted} {k : RecordKey} (proper : k.Proper) :
    ((rows.foldl (appendRow cited now) m).get k.text).map Entry.said =
      (lastDecision rows k <|> (m.get k.text).map Entry.said) := by
  induction rows generalizing m with
  | nil => simp
  | cons a rows ih =>
      have split : lastDecision (a :: rows) k = (lastDecision rows k <|> lastDecision [a] k) :=
        lastDecision_append [a] rows k
      rw [List.foldl_cons, ih, appendRow_get proper, split]
      cases lastDecision rows k <;> rfl

theorem appendRows_keyed {rows : List Accepted}
    (keyed : ∀ row ∈ m.entries, ∃ k, row.2.key = some k ∧ k.text = row.1) :
    ∀ row ∈ (rows.foldl (appendRow cited now) m).entries,
      ∃ k, row.2.key = some k ∧ k.text = row.1 := by
  induction rows generalizing m with
  | nil => exact keyed
  | cons a rows ih => exact ih (appendRow_keyed keyed a)

/-- What is read of the ledger that was written: the last decision among the accepted rows,
and where there is none, what the ledger said before. -/
theorem read_appendDeclinations (ledger : Held (List Entry)) (rows : List Accepted)
    {k : RecordKey} (proper : k.Proper) :
    ((readDeclinations (.holds (appendDeclinations cited now ledger rows))).get k).map
        Entry.said =
      (lastDecision rows k <|> ((readDeclinations ledger).get k).map Entry.said) := by
  have keyed := Declined.merged_keyed (wellKeyed_read ledger)
  have written := Declined.get_addAll (d := { present := true }) proper
    (rows.foldl (appendRow cited now) (readDeclinations ledger).merged).nodup
    (appendRows_keyed keyed)
  have nothing : ({ present := true } : Declined).get k = none := by cases k <;> rfl
  have read : (readDeclinations (.holds (appendDeclinations cited now ledger rows))).get k =
      (rows.foldl (appendRow cited now) (readDeclinations ledger).merged).get k.text := by
    refine written.trans ?_
    rw [nothing]
    cases there : List.lookup k.text
      (rows.foldl (appendRow cited now) (readDeclinations ledger).merged).entries <;>
      exact there.symm
  rw [read, appendRows_get proper, Declined.get_merged (wellKeyed_read ledger) proper]

end

/-- Nothing stands under a key that no entry can have. -/
theorem get_of_not_proper {ledger : Held (List Entry)} {k : RecordKey} (not : ¬ k.Proper) :
    (readDeclinations ledger).get k = none := by
  cases there : (readDeclinations ledger).get k with
  | none => rfl
  | some e => exact absurd (proper_of_recordKeyOf (wellKeyed_read ledger _ _ there)) not

end Declinations

end Clearotron
