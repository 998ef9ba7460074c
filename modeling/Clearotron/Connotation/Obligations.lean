import Clearotron.Coverage.Form
import Clearotron.Library.Firsts
import Clearotron.Library.Groups

/-!
# The obligations of a meaning sweep

A ledger of a sweep has its queries with the results that each of them surfaced. Every query with
results owes a row, and so does every result that enough queries surfaced. The ledger may grow
while its rows are ruled on: a query may gain results, and queries may be added.
-/

namespace Clearotron.Connotation

/-- A result as it is recorded, of what tells it from the others. -/
structure LedgerResult where
  title : String
  url : String

/-- A query with the results it surfaced. -/
structure LedgerQuery where
  query : String
  results : List LedgerResult

/-- `toLowerCase`. -/
structure ReceiptText where
  lower : String → String

namespace ReceiptText

variable (T : ReceiptText)

/-- `foldPunct`: typographic punctuation as its ASCII counterpart. -/
def foldPunct (s : String) : String :=
  String.ofList (s.toList.flatMap fun c =>
    if c ∈ ['‘', '’', '‚', '‛'] then ['\x27']
    else if c ∈ ['“', '”', '„', '‟'] then ['"']
    else if (0x2010 ≤ c.toNat ∧ c.toNat ≤ 0x2015) ∨ c.toNat = 0x2212 then ['-']
    else if c = '…' then ['.', '.', '.']
    else [c])

def normText (s : String) : String := Text.tidy (foldPunct (T.lower s))

/-- A text without what it starts with, where it starts with that. -/
def without (front l : List Char) : List Char :=
  if front.isPrefixOf l then l.drop front.length else l

def isLower (c : Char) : Bool := 97 ≤ c.toNat && c.toNat ≤ 122

/-- The host label of a language edition. -/
def isLanguageLabel (l : List Char) : Bool :=
  let front := l.takeWhile isLower
  let back := l.drop front.length
  let part := back.drop 1
  l = "simple".toList || ((front.length = 2 || front.length = 3) &&
    (back = [] || (back.head? = some '-' && (2 ≤ part.length && part.length ≤ 4) &&
      part.all fun c => isLower c || c.isDigit)))

/-- `LANG_HOST_LABEL_RE`, where a path follows the rest of the host. -/
def withoutLanguage (l : List Char) : List Char :=
  let label := l.takeWhile (· ≠ '.')
  let behind := l.drop (label.length + 1)
  if label.length < l.length && isLanguageLabel label &&
      behind.takeWhile (· ≠ '/') ≠ [] && behind.contains '/' then behind
  else l

def normUrl (s : String) : String :=
  let l := (T.lower s).toList
  let bare := without "www.".toList (if "https://".toList.isPrefixOf l then l.drop 8
    else without "http://".toList l)
  Text.trim (String.ofList ((withoutLanguage bare).reverse.dropWhile (· = '/')).reverse)

/-- The identity of a recorded result: its URL, else its title, else none. -/
def receiptKey (r : LedgerResult) : String :=
  if T.normUrl r.url ≠ "" then T.normUrl r.url
  else if T.normText r.title ≠ "" then "t:" ++ T.normText r.title else ""

/-- The citable id of an identity. -/
def receiptId (key : String) : String := shortId "R" key

def normId (s : String) : String :=
  String.ofList ((s.toList.map Char.toUpper).filter fun c => c.isUpper || c.isDigit)

end ReceiptText

/-- One entry of the file: a query it holds already gains the results. -/
def addEntry (ledger : List LedgerQuery) (e : LedgerQuery) : List LedgerQuery :=
  if e.query ∈ ledger.map (·.query) then
    ledger.map fun x =>
      if x.query = e.query then { x with results := x.results ++ e.results } else x
  else ledger ++ [e]

/-- `parsePrRiskResults`, of the entries of the file in their order. -/
def parsePrRiskResults (entries : List LedgerQuery) : List LedgerQuery :=
  ((entries.filter fun e => Text.trim e.query ≠ "").map fun e =>
    { query := Text.trim e.query
      results := (e.results.map fun r =>
        { title := Text.trim r.title, url := Text.trim r.url : LedgerResult }).filter
          fun r => r.title ≠ "" ∨ r.url ≠ "" : LedgerQuery }).foldl addEntry []

/-- A result as a query surfaced it. -/
structure Surfaced where
  query : String
  key : String

/-- `RECURRENT_MIN` -/
def recurrentMin : ℕ := 4

section

variable (T : ReceiptText)

/-- What a query surfaces, each result once. -/
def keysOf (e : LedgerQuery) : List String :=
  firsts some ((e.results.map T.receiptKey).filter (· ≠ ""))

def surfacedBy (e : LedgerQuery) : List Surfaced := (keysOf T e).map fun k => ⟨e.query, k⟩

/-- A query that returned results. -/
def isOwed (e : LedgerQuery) : Bool := e.results.length ≠ 0 && T.normText e.query ≠ ""

structure Obligations where
  queries : List LedgerQuery
  /-- the results that recur: the key of each, and who surfaced it -/
  recurrent : List (String × Group Surfaced)

def connotationObligations (recorded : List LedgerQuery) : Obligations :=
  let queries := recorded.filter (isOwed T)
  { queries
    recurrent := (groupsBy Surfaced.key (queries.flatMap (surfacedBy T))).entries.filter fun x =>
      recurrentMin ≤ x.2.members.length }

/-- A row of the form, with the receipts it may cite. -/
inductive ObligationRow where
  | query (rowId query : String) (candidates : List String)
  | recurrence (rowId : String) (queries : List String) (receiptId : String)
  deriving DecidableEq

namespace ObligationRow

def rowId : ObligationRow → String
  | query id _ _ => id
  | recurrence id _ _ => id

/-- The id as rows are told apart by it. -/
def key (row : ObligationRow) : String := Text.trim row.rowId

end ObligationRow

def queryRow (e : LedgerQuery) : ObligationRow :=
  .query (shortId "Q" ("q!" ++ e.query)) e.query
    (((e.results.map T.receiptKey).map ReceiptText.receiptId).filter (· ≠ ""))

def recurrenceRow (x : String × Group Surfaced) : ObligationRow :=
  .recurrence (shortId "X" ("x:" ++ ReceiptText.normId (ReceiptText.receiptId x.1)))
    (x.2.members.map Surfaced.query) (ReceiptText.receiptId x.1)

def obligationRows (ob : Obligations) : List ObligationRow :=
  ob.queries.map (queryRow T) ++ ob.recurrent.map recurrenceRow

/-- The rows a ledger owes. -/
def rowsOf (recorded : List LedgerQuery) : List ObligationRow :=
  obligationRows T (connotationObligations T recorded)

end

/-- The same query, with the results it had and perhaps more. -/
def GainsResults (e e' : LedgerQuery) : Prop := e'.query = e.query ∧ e.results <+: e'.results

/-- Queries gain results, and queries are added behind the others. -/
def Grows (ledger ledger' : List LedgerQuery) : Prop :=
  ∀ (n : ℕ) (e : LedgerQuery), ledger[n]? = some e → ∃ e', ledger'[n]? = some e' ∧ GainsResults e e'

variable {T : ReceiptText} {ledger ledger' ledger'' entries more : List LedgerQuery}
  {e e' : LedgerQuery} {k : String}

theorem Grows.refl (ledger : List LedgerQuery) : Grows ledger ledger :=
  fun _ e is => ⟨e, is, rfl, List.prefix_rfl⟩

theorem Grows.trans (h : Grows ledger ledger') (h' : Grows ledger' ledger'') :
    Grows ledger ledger'' := by
  intro n e is
  obtain ⟨e', is', query, results⟩ := h n e is
  obtain ⟨e'', is'', query', results'⟩ := h' n e' is'
  exact ⟨e'', is'', query'.trans query, results.trans results'⟩

theorem grows_addEntry (ledger : List LedgerQuery) (e : LedgerQuery) :
    Grows ledger (addEntry ledger e) := by
  intro n x is
  rw [addEntry]
  split
  · refine ⟨_, by rw [List.getElem?_map, is, Option.map_some], ?_⟩
    split
    · exact ⟨rfl, List.prefix_append _ _⟩
    · exact ⟨rfl, List.prefix_rfl⟩
  · have inside := (List.getElem?_eq_some_iff.mp is).1
    exact ⟨x, by rw [List.getElem?_append_left inside, is], rfl, List.prefix_rfl⟩

theorem grows_foldl_addEntry (ledger entries : List LedgerQuery) :
    Grows ledger (entries.foldl addEntry ledger) := by
  induction entries generalizing ledger with
  | nil => exact .refl ledger
  | cons e entries ih => exact (grows_addEntry ledger e).trans (ih _)

/-- A file that is added to is a ledger that grows. -/
theorem grows_parse (entries more : List LedgerQuery) :
    Grows (parsePrRiskResults entries) (parsePrRiskResults (entries ++ more)) := by
  rw [parsePrRiskResults, parsePrRiskResults, List.filter_append, List.map_append,
    List.foldl_append]
  exact grows_foldl_addEntry _ _

theorem isOwed_of_gains (gains : GainsResults e e') (owed : isOwed T e = true) :
    isOwed T e' = true := by
  obtain ⟨query, results⟩ := gains
  rw [isOwed, Bool.and_eq_true, decide_eq_true_eq, decide_eq_true_eq] at owed ⊢
  have length := results.length_le
  exact ⟨by omega, query ▸ owed.2⟩

theorem mem_keysOf : k ∈ keysOf T e ↔ k ∈ e.results.map T.receiptKey ∧ k ≠ "" := by
  have there := exists_mem_firsts some ((e.results.map T.receiptKey).filter (· ≠ "")) k
  simpa [keysOf] using there

theorem nodup_keysOf : (keysOf T e).Nodup := by
  have nodup : ((keysOf T e).filterMap some).Nodup := nodup_filterMap_firsts _
  rwa [List.filterMap_some] at nodup

theorem keysOf_of_gains (gains : GainsResults e e') (mem : k ∈ keysOf T e) :
    k ∈ keysOf T e' := by
  rw [mem_keysOf] at mem ⊢
  exact ⟨(gains.2.map _).subset mem.1, mem.2⟩

/-- How many queries surfaced a result. -/
def timesSurfaced (T : ReceiptText) (k : String) (ledger : List LedgerQuery) : ℕ :=
  ((ledger.filter (isOwed T)).flatMap (keysOf T)).count k

theorem timesSurfaced_cons : timesSurfaced T k (e :: ledger) =
    (if isOwed T e = true ∧ k ∈ keysOf T e then 1 else 0) + timesSurfaced T k ledger := by
  have once : (keysOf T e).count k = if k ∈ keysOf T e then 1 else 0 :=
    List.Nodup.count nodup_keysOf
  rw [timesSurfaced, List.filter_cons]
  by_cases owed : isOwed T e = true
  · rw [if_pos owed, List.flatMap_cons, List.count_append, once]
    simp [owed, timesSurfaced]
  · simp [owed, timesSurfaced]

/-- Results that recur recur in every later ledger. -/
theorem timesSurfaced_le_of_grows (grows : Grows ledger ledger') :
    timesSurfaced T k ledger ≤ timesSurfaced T k ledger' := by
  induction ledger generalizing ledger' with
  | nil => exact Nat.zero_le _
  | cons e ledger ih =>
    obtain ⟨e', is, gains⟩ := grows 0 e rfl
    obtain ⟨rest, rfl⟩ : ∃ rest, ledger' = e' :: rest := by
      cases ledger' with
      | nil => cases is
      | cons x rest => exact ⟨rest, by rw [Option.some.inj is]⟩
    have later : timesSurfaced T k ledger ≤ timesSurfaced T k rest :=
      ih fun n x there => grows (n + 1) x there
    rw [timesSurfaced_cons, timesSurfaced_cons]
    refine Nat.add_le_add ?_ later
    by_cases counts : isOwed T e = true ∧ k ∈ keysOf T e
    · rw [if_pos counts, if_pos ⟨isOwed_of_gains gains counts.1, keysOf_of_gains gains counts.2⟩]
    · rw [if_neg counts]
      exact Nat.zero_le _

/-- The keys that the queries of a ledger surface. -/
theorem map_key_flatMap (queries : List LedgerQuery) :
    (queries.flatMap (surfacedBy T)).map Surfaced.key = queries.flatMap (keysOf T) := by
  rw [List.map_flatMap]
  congr 1
  funext e
  rw [surfacedBy, List.map_map]
  exact List.map_id _

theorem length_members {g : Group Surfaced}
    (mem : (k, g) ∈ (groupsBy Surfaced.key
      ((ledger.filter (isOwed T)).flatMap (surfacedBy T))).entries) :
    g.members.length = timesSurfaced T k ledger := by
  rw [(members_of_mem mem).2, timesSurfaced, ← map_key_flatMap, List.count_eq_countP,
    List.countP_map, List.countP_eq_length_filter]
  congr 2

theorem mem_recurrent : (∃ g, (k, g) ∈ (connotationObligations T ledger).recurrent) ↔
    recurrentMin ≤ timesSurfaced T k ledger := by
  simp only [connotationObligations, List.mem_filter, decide_eq_true_eq]
  constructor
  · rintro ⟨g, mem, recurs⟩
    rwa [← length_members mem]
  · intro recurs
    have some' : 0 < timesSurfaced T k ledger := lt_of_lt_of_le (by decide) recurs
    rw [timesSurfaced, List.count_pos_iff, ← map_key_flatMap] at some'
    obtain ⟨x, mem, rfl⟩ := List.mem_map.mp some'
    obtain ⟨g, group, -⟩ := exists_group Surfaced.key mem
    exact ⟨g, group, by rw [length_members group]; exact recurs⟩

theorem mem_keys_rowsOf {id : String} : id ∈ (rowsOf T ledger).map ObligationRow.key ↔
    (∃ e ∈ ledger, isOwed T e = true ∧ id = (queryRow T e).key) ∨
      ∃ k, recurrentMin ≤ timesSurfaced T k ledger ∧
        id = Text.trim (shortId "X" ("x:" ++ ReceiptText.normId (ReceiptText.receiptId k))) := by
  rw [rowsOf, obligationRows, List.map_append, List.mem_append]
  refine or_congr ?_ ?_
  · simp only [connotationObligations, List.map_map, List.mem_map, List.mem_filter,
      Function.comp_apply]
    exact exists_congr fun e => ⟨fun ⟨⟨mem, owed⟩, is⟩ => ⟨mem, owed, is.symm⟩,
      fun ⟨mem, owed, is⟩ => ⟨⟨mem, owed⟩, is.symm⟩⟩
  · simp only [List.map_map, List.mem_map, Function.comp_apply, ← mem_recurrent]
    constructor
    · rintro ⟨⟨k, g⟩, mem, is⟩
      exact ⟨k, ⟨g, mem⟩, is.symm⟩
    · rintro ⟨k, ⟨g, mem⟩, is⟩
      exact ⟨(k, g), mem, is.symm⟩

/-- A row that is owed is owed by every later ledger. -/
theorem rowsOf_of_grows (grows : Grows ledger ledger') {id : String}
    (mem : id ∈ (rowsOf T ledger).map ObligationRow.key) :
    id ∈ (rowsOf T ledger').map ObligationRow.key := by
  rw [mem_keys_rowsOf] at mem ⊢
  obtain ⟨e, mem, owed, is⟩ | ⟨k, recurs, is⟩ := mem
  · obtain ⟨n, there⟩ := List.mem_iff_getElem?.mp mem
    obtain ⟨e', there', gains⟩ := grows n e there
    refine .inl ⟨e', List.mem_of_getElem? there', isOwed_of_gains gains owed, ?_⟩
    rw [is, ObligationRow.key, ObligationRow.key, queryRow, queryRow, ObligationRow.rowId,
      ObligationRow.rowId, gains.1]
  · exact .inr ⟨k, recurs.trans (timesSurfaced_le_of_grows grows), is⟩

end Clearotron.Connotation
