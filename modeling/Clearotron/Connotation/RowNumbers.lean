import Clearotron.Connotation.Obligations

/-!
# The numbers of the rows

A seat is shown the rows it owes once, and names a row by its number on that page. The order that
was shown is recorded: its rows keep their places, a row that is owed no more leaves its place
empty, and the rows that are not on the page stand behind it, in the order the ledger gives them
now. They keep their numbers as long as that order grows at its end only.
-/

namespace Clearotron.Connotation

/-- The ids of a recorded order, blank ones and repeats passed over. -/
def toldKeys (told : Option (List String)) : List String :=
  (((told.getD []).map Text.trim).filter (· ≠ "")).eraseDups

/-- `byId`: the last row of an id. -/
def rowById (rows : List ObligationRow) (id : String) : Option ObligationRow :=
  (rows.filter fun c => c.key = id).getLast?

/-- The rows that the recorded order does not have. -/
def untold (rows : List ObligationRow) (told : Option (List String)) : List ObligationRow :=
  rows.filter fun c => c.key ∉ toldKeys told

/-- The list a number counts off, from one; a row that is owed no more leaves a hole. -/
def addressableRows (canonical : List ObligationRow) (told : Option (List String)) :
    List (Option ObligationRow) :=
  match told with
  | none => canonical.map some
  | some _ => (toldKeys told).map (rowById canonical) ++ (untold canonical told).map some

/-- `numberOf`: the number of an id, the last of them where the list has it twice. -/
def numberOf (addressable : List (Option ObligationRow)) (id : String) : Option ℕ :=
  ((addressable.zipIdx.filter fun x => x.1.any fun c => c.key = id).getLast?).map fun x => x.2 + 1

section

variable (T : ReceiptText) (told : Option (List String)) (calls : List (List LedgerQuery))

/-- The rows that are owed at a call, what was added to the ledger's file by then. -/
def rowsAt (i : ℕ) : List ObligationRow :=
  rowsOf T (parsePrRiskResults (calls.take (i + 1)).flatten)

def addressableAt (i : ℕ) : List (Option ObligationRow) := addressableRows (rowsAt T calls i) told

/-- A number keeps meaning the row it was shown for, over the calls of a turn. -/
structure NumbersHold : Prop where
  /-- a number addresses the same row in every later call, or none -/
  stable : ∀ i j, i ≤ j → j < calls.length → ∀ (n : ℕ) (c d : ObligationRow),
    (addressableAt T told calls i)[n]? = some (some c) →
      (addressableAt T told calls j)[n]? = some (some d) → d.key = c.key
  /-- no row is without a number -/
  numbered : ∀ i < calls.length, ∀ c ∈ rowsAt T calls i, ∃ n : ℕ,
    numberOf (addressableAt T told calls i) c.key = some (n + 1) ∧
      (addressableAt T told calls i)[n]? = some (some c)
  /-- no two rows share one -/
  apart : ∀ i < calls.length, ∀ (a b : ℕ) (c d : ObligationRow), (rowsAt T calls i)[a]? = some c →
    (rowsAt T calls i)[b]? = some d →
    numberOf (addressableAt T told calls i) c.key = numberOf (addressableAt T told calls i) d.key →
      a = b

/-- The rows that were not shown are derived in an order that grows at its end only, and no two
rows of a derivation have one id. -/
structure RowsAppended : Prop where
  ids : ∀ i < calls.length, ((rowsAt T calls i).map ObligationRow.key).Nodup
  order : ∀ i j, i ≤ j → j < calls.length →
    (untold (rowsAt T calls i) told).map ObligationRow.key <+:
      (untold (rowsAt T calls j) told).map ObligationRow.key

end

section

variable {T : ReceiptText} {told : Option (List String)} {calls : List (List LedgerQuery)}
  {rows : List ObligationRow} {c d : ObligationRow} {id : String} {n i j : ℕ}
  {addressable : List (Option ObligationRow)}

theorem addressableRows_eq (rows : List ObligationRow) (told : Option (List String)) :
    addressableRows rows told =
      (toldKeys told).map (rowById rows) ++ (untold rows told).map some := by
  cases told with
  | some ids => rfl
  | none =>
    have every : untold rows none = rows :=
      List.filter_eq_self.mpr fun c _ => by simp [toldKeys]
    rw [every]
    rfl

theorem rowById_eq_some (found : rowById rows id = some c) : c ∈ rows ∧ c.key = id := by
  have mem := List.mem_filter.mp (List.mem_of_getLast? found)
  exact ⟨mem.1, of_decide_eq_true mem.2⟩

/-- A place of the recorded order stands for its id. -/
theorem key_of_told (inside : n < (toldKeys told).length)
    (is : (addressableRows rows told)[n]? = some (some c)) :
    (toldKeys told)[n]? = some c.key := by
  rw [addressableRows_eq, List.getElem?_append_left (by simpa using inside), List.getElem?_map,
    Option.map_eq_some_iff] at is
  obtain ⟨k, there, found⟩ := is
  rw [there, (rowById_eq_some found).2]

/-- The places behind it are those of the rows it does not have. -/
theorem getElem?_behind (m : ℕ) : (addressableRows rows told)[(toldKeys told).length + m]? =
    (untold rows told)[m]?.map some := by
  rw [addressableRows_eq, List.getElem?_append_right (by simp), List.length_map,
    Nat.add_sub_cancel_left, List.getElem?_map]

theorem mem_of_mem_addressable (mem : some c ∈ addressableRows rows told) : c ∈ rows := by
  rw [addressableRows_eq, List.mem_append, List.mem_map, List.mem_map] at mem
  obtain ⟨k, -, found⟩ | ⟨d, there, same⟩ := mem
  · exact (rowById_eq_some found).1
  · exact Option.some.inj same ▸ List.mem_of_mem_filter there

/-- Rows with one id are one row. -/
theorem eq_of_key (ids : (rows.map ObligationRow.key).Nodup) (left : c ∈ rows) (right : d ∈ rows)
    (same : c.key = d.key) : c = d := List.inj_on_of_nodup_map ids left right same

/-- Every row is in the list. -/
theorem mem_addressable (told : Option (List String))
    (ids : (rows.map ObligationRow.key).Nodup) (mem : c ∈ rows) :
    some c ∈ addressableRows rows told := by
  rw [addressableRows_eq, List.mem_append, List.mem_map, List.mem_map]
  by_cases told' : c.key ∈ toldKeys told
  · refine .inl ⟨c.key, told', ?_⟩
    obtain ⟨d, found⟩ : ∃ d, rowById rows c.key = some d := by
      refine ⟨_, List.getLast?_eq_some_getLast (List.ne_nil_of_mem (a := c) ?_)⟩
      exact List.mem_filter.mpr ⟨mem, decide_eq_true rfl⟩
    obtain ⟨there, same⟩ := rowById_eq_some found
    rw [found, eq_of_key ids there mem same]
  · exact .inr ⟨c, List.mem_filter.mpr ⟨mem, decide_eq_true told'⟩, rfl⟩

theorem numberOf_eq_some (found : numberOf addressable id = some n) :
    ∃ m, n = m + 1 ∧ ∃ c, addressable[m]? = some (some c) ∧ c.key = id := by
  obtain ⟨⟨row, m⟩, last, rfl⟩ := Option.map_eq_some_iff.mp found
  obtain ⟨mem, own⟩ := List.mem_filter.mp (List.mem_of_getLast? last)
  have there := List.mk_mem_zipIdx_iff_getElem?.mp mem
  obtain ⟨c, rfl, same⟩ := (Option.any_eq_true _ _).mp own
  exact ⟨m, rfl, c, there, of_decide_eq_true same⟩

theorem exists_numberOf (mem : some c ∈ addressable) :
    ∃ n, numberOf addressable c.key = some n := by
  obtain ⟨m, there⟩ := List.mem_iff_getElem?.mp mem
  have some' : addressable.zipIdx.filter (fun x => x.1.any fun d => d.key = c.key) ≠ [] := by
    refine List.ne_nil_of_mem (a := (some c, m)) (List.mem_filter.mpr ⟨?_, by simp⟩)
    exact List.mk_mem_zipIdx_iff_getElem?.mpr there
  exact ⟨_, by rw [numberOf, List.getLast?_eq_some_getLast some', Option.map_some]⟩

/-- Where ids are apart, a row is found under its own number. -/
theorem numbered_of_ids (told : Option (List String))
    (ids : (rows.map ObligationRow.key).Nodup) (mem : c ∈ rows) :
    ∃ n, numberOf (addressableRows rows told) c.key = some (n + 1) ∧
      (addressableRows rows told)[n]? = some (some c) := by
  obtain ⟨n, found⟩ := exists_numberOf (mem_addressable told ids mem)
  obtain ⟨m, rfl, d, there, same⟩ := numberOf_eq_some found
  have own := mem_of_mem_addressable (List.mem_of_getElem? there)
  exact ⟨m, found, by rw [there, eq_of_key ids own mem same]⟩

theorem grows_calls (calls : List (List LedgerQuery)) (le : i ≤ j) :
    Grows (parsePrRiskResults (calls.take (i + 1)).flatten)
      (parsePrRiskResults (calls.take (j + 1)).flatten) := by
  obtain ⟨more, is⟩ := (List.take_prefix_take_left (l := calls) (Nat.succ_le_succ le))
  rw [← is, List.flatten_append]
  exact grows_parse _ _

theorem ids_of_apart (hold : NumbersHold T told calls) (inside : i < calls.length) :
    ((rowsAt T calls i).map ObligationRow.key).Nodup := by
  refine List.nodup_iff_getElem?_ne_getElem?.mpr fun a b lt within same => ?_
  rw [List.length_map] at within
  rw [List.getElem?_map, List.getElem?_map, List.getElem?_eq_getElem (lt.trans within),
    List.getElem?_eq_getElem within, Option.map_some, Option.map_some, Option.some_inj] at same
  exact lt.ne (hold.apart i inside a b _ _ (List.getElem?_eq_getElem _)
    (List.getElem?_eq_getElem _) (by rw [same]))

/-- A row that was not shown is owed by every later call. -/
theorem untold_subset (le : i ≤ j) : (untold (rowsAt T calls i) told).map ObligationRow.key ⊆
    (untold (rowsAt T calls j) told).map ObligationRow.key := by
  intro id mem
  obtain ⟨c, there, rfl⟩ := List.mem_map.mp mem
  obtain ⟨mem, absent⟩ := List.mem_filter.mp there
  have later := rowsOf_of_grows (T := T) (grows_calls calls le)
    (List.mem_map_of_mem (f := ObligationRow.key) mem)
  obtain ⟨d, owed, same⟩ := List.mem_map.mp later
  exact List.mem_map.mpr ⟨d, List.mem_filter.mpr ⟨owed, by rw [same]; exact absent⟩, same⟩

theorem appended_of_hold (hold : NumbersHold T told calls) : RowsAppended T told calls where
  ids i inside := ids_of_apart hold inside
  order i j le inside := by
    have ids := ids_of_apart hold (lt_of_le_of_lt le inside)
    have nodup : ((untold (rowsAt T calls i) told).map ObligationRow.key).Nodup :=
      ids.sublist (List.filter_sublist.map _)
    have sub : (untold (rowsAt T calls i) told).map ObligationRow.key ⊆
        (untold (rowsAt T calls j) told).map ObligationRow.key := untold_subset le
    have length := nodup.length_le_of_subset sub
    rw [List.length_map, List.length_map] at length
    refine List.prefix_iff_getElem?.mpr fun m within => ?_
    rw [List.length_map] at within
    have here : (untold (rowsAt T calls i) told)[m]? = some _ := List.getElem?_eq_getElem within
    have there : (untold (rowsAt T calls j) told)[m]? = some _ :=
      List.getElem?_eq_getElem (lt_of_lt_of_le within length)
    have same := hold.stable i j le inside ((toldKeys told).length + m) _ _
      (by rw [addressableAt, getElem?_behind, here, Option.map_some])
      (by rw [addressableAt, getElem?_behind, there, Option.map_some])
    rw [List.getElem?_map, there, Option.map_some, same, List.getElem_map]

theorem hold_of_appended (appended : RowsAppended T told calls) : NumbersHold T told calls where
  stable i j le inside n c d is is' := by
    rw [addressableAt] at is is'
    by_cases shown : n < (toldKeys told).length
    · exact Option.some.inj ((key_of_told shown is').symm.trans (key_of_told shown is))
    · obtain ⟨m, rfl⟩ := Nat.exists_eq_add_of_le (not_lt.mp shown)
      rw [getElem?_behind, Option.map_eq_some_iff] at is is'
      obtain ⟨c', is, same⟩ := is
      obtain rfl := Option.some.inj same
      obtain ⟨d', is', same⟩ := is'
      obtain rfl := Option.some.inj same
      have keys := appended.order i j le inside
      have length := (List.getElem?_eq_some_iff.mp is).1
      have agree := List.prefix_iff_getElem?.mp keys m (by rwa [List.length_map])
      rw [List.getElem?_map, is', Option.map_some, List.getElem_map, Option.some_inj] at agree
      rw [agree, (List.getElem?_eq_some_iff.mp is).2]
  numbered i inside c mem := numbered_of_ids told (appended.ids i inside) mem
  apart i inside a b c d is is' same := by
    have ids := appended.ids i inside
    obtain ⟨n, number, at'⟩ := numbered_of_ids told ids (List.mem_of_getElem? is)
    obtain ⟨n', number', at''⟩ := numbered_of_ids told ids (List.mem_of_getElem? is')
    rw [addressableAt, number, number', Option.some_inj, Nat.add_right_cancel_iff] at same
    subst same
    rw [at'] at at''
    obtain rfl := Option.some.inj (Option.some.inj at'')
    obtain ⟨left, isLeft⟩ := List.getElem?_eq_some_iff.mp is
    obtain ⟨right, isRight⟩ := List.getElem?_eq_some_iff.mp is'
    exact (List.Nodup.getElem_inj_iff (List.Nodup.of_map _ ids)).mp (isLeft.trans isRight.symm)

/-- Numbers keep their meaning exactly where the rows that were not shown are only added to. -/
theorem numbers_hold_iff : NumbersHold T told calls ↔ RowsAppended T told calls :=
  ⟨appended_of_hold, hold_of_appended⟩

/-- Three queries of a sweep: the second has no results at the first call, and gains one before
the second. -/
def toppedUp : List (List LedgerQuery) :=
  [[⟨"ardo gang", [⟨"Ardo", "a.example/1"⟩]⟩, ⟨"ardo slang", []⟩,
    ⟨"ardo meaning", [⟨"Ardo", "b.example/2"⟩]⟩],
   [⟨"ardo slang", [⟨"Slang", "c.example/3"⟩]⟩]]

/-- The first query's row was shown: the second row's number passes from the third query to the
second one. -/
theorem number_passes_to_another : ¬ ∀ (T : ReceiptText) (told : Option (List String))
    (calls : List (List LedgerQuery)), NumbersHold T told calls := by
  intro all
  have same := (all ⟨id⟩ (some [shortId "Q" "q!ardo gang"]) toppedUp).stable 0 1 (by decide)
    (by decide) 1 (queryRow ⟨id⟩ ⟨"ardo meaning", [⟨"Ardo", "b.example/2"⟩]⟩)
    (queryRow ⟨id⟩ ⟨"ardo slang", [⟨"Slang", "c.example/3"⟩]⟩)
    (by decide +kernel) (by decide +kernel)
  revert same
  decide +kernel

end

end Clearotron.Connotation
