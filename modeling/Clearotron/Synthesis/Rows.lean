import Clearotron.Synthesis.Patch

/-!
# The rows of a patch

A list in the order of its ordinals stays in that order under every row: a row takes the
place of the finding of its ordinal, or stands between the lesser ordinals and the greater
ones. What the list then holds at an ordinal is the row sent for it last.
-/

namespace Clearotron

namespace Synthesis

/-- Findings under ordinals of their own, in ascending order. -/
structure InOrder (list : List Json) : Prop where
  rows : ∀ f ∈ list, isRow f = true
  ascending : list.Pairwise fun f g =>
    ∀ m n, rowOrdinal f = some m → rowOrdinal g = some n → m < n

/-- The finding at an ordinal. -/
def findingAt (list : List Json) (n : Nat) : Option Json := list.find? (rowOrdinal · = some n)

section

variable {list list' : List Json} {f g : Json} {m n : Nat}

theorem exists_ordinal (row : isRow f = true) : ∃ n, rowOrdinal f = some n :=
  Option.isSome_iff_exists.mp row

theorem findingAt_ordinal (found : findingAt list n = some f) : rowOrdinal f = some n := by
  have own := List.find?_some found
  simpa using own

theorem findingAt_eq_none : findingAt list n = none ↔ ∀ f ∈ list, rowOrdinal f ≠ some n := by
  simp [findingAt]

theorem findingAt_cons : findingAt (f :: list) n =
    if rowOrdinal f = some n then some f else findingAt list n := by
  unfold findingAt
  by_cases own : rowOrdinal f = some n
  · simp [own]
  · simp [own]

theorem findingAt_append : findingAt (list ++ list') n =
    (findingAt list n).or (findingAt list' n) := List.find?_append

namespace InOrder

theorem of_cons (order : InOrder (f :: list)) : InOrder list :=
  ⟨fun g mem => order.rows g (List.mem_cons_of_mem _ mem), (List.pairwise_cons.mp order.ascending).2⟩

/-- Each finding is the one at its ordinal. -/
theorem findingAt_iff (order : InOrder list) :
    findingAt list n = some f ↔ f ∈ list ∧ rowOrdinal f = some n := by
  constructor
  · exact fun found => ⟨List.mem_of_find?_eq_some found, findingAt_ordinal found⟩
  · rintro ⟨mem, own⟩
    induction list with
    | nil => cases mem
    | cons first rest ih =>
        rw [findingAt_cons]
        obtain rfl | later := List.mem_cons.mp mem
        · rw [if_pos own]
        · have apart : rowOrdinal first ≠ some n := fun same =>
            Nat.lt_irrefl n ((List.pairwise_cons.mp order.ascending).1 f later n n same own)
          rw [if_neg apart]
          exact ih order.of_cons later

/-- Two lists in order that hold the same at every ordinal are one. -/
theorem eq_of_findingAt (order : InOrder list) (order' : InOrder list')
    (same : ∀ n, findingAt list n = findingAt list' n) : list = list' := by
  have nodup {l : List Json} (order : InOrder l) : l.Nodup := by
    refine order.ascending.imp_of_mem fun {a b} mem _ below => ?_
    rintro rfl
    obtain ⟨n, own⟩ := exists_ordinal (order.rows a mem)
    exact Nat.lt_irrefl n (below n n own own)
  have perm : list.Perm list' := by
    refine (List.perm_ext_iff_of_nodup (nodup order) (nodup order')).mpr fun f => ?_
    constructor
    · intro mem
      obtain ⟨n, own⟩ := exists_ordinal (order.rows f mem)
      have found := order.findingAt_iff.mpr ⟨mem, own⟩
      rw [same] at found
      exact (order'.findingAt_iff.mp found).1
    · intro mem
      obtain ⟨n, own⟩ := exists_ordinal (order'.rows f mem)
      have found := order'.findingAt_iff.mpr ⟨mem, own⟩
      rw [← same] at found
      exact (order.findingAt_iff.mp found).1
  refine perm.eq_of_pairwise (fun a b mem mem' below above => ?_) order.ascending order'.ascending
  obtain ⟨m, own⟩ := exists_ordinal (order.rows a mem)
  obtain ⟨n, own'⟩ := exists_ordinal (order'.rows b mem')
  exact absurd (below m n own own') (Nat.lt_asymm (above n m own' own))

end InOrder

/-- What one row with the ordinal `n` can do to a list in order. -/
inductive RowApplied (adds : List Nat) (ri : Json × Nat) (n : Nat) : List Json → List Json → Prop
  | replaces {front back : List Json} {old : Json} (own : rowOrdinal old = some n) :
      RowApplied adds ri n (front ++ old :: back) (front ++ ri.1 :: back)
  | joins {front back : List Json} (allowed : ri.2 ∈ adds)
      (below : ∀ f ∈ front, ∀ m, rowOrdinal f = some m → m < n)
      (above : ∀ g ∈ back, ∀ m, rowOrdinal g = some m → n < m) :
      RowApplied adds ri n (front ++ back) (front ++ ri.1 :: back)

end

section

variable {X : JsonRuntime} {adds : List Nat} {list list' : List Json} {ri : Json × Nat} {n : Nat}

theorem placeOf_eq_none : placeOf list n = none ↔ findingAt list n = none := by
  rw [findingAt_eq_none]
  simp only [placeOf, Option.map_eq_none_iff, List.find?_eq_none, List.mem_reverse,
    decide_eq_true_eq]
  constructor
  · intro none f mem own
    obtain ⟨i, at'⟩ := List.mem_iff_getElem?.mp mem
    exact none (f, i) (List.mk_mem_zipIdx_iff_getElem?.mpr at') own
  · rintro none ⟨f, i⟩ mem
    exact none f (List.mem_of_getElem? (List.mk_mem_zipIdx_iff_getElem?.mp mem))

theorem placeOf_eq_some {at' : Nat} (place : placeOf list n = some at') :
    ∃ front old back, list = front ++ old :: back ∧ rowOrdinal old = some n ∧
      ∀ r, list.set at' r = front ++ r :: back := by
  obtain ⟨⟨old, i⟩, found, rfl⟩ := Option.map_eq_some_iff.mp place
  have own : rowOrdinal old = some n := by
    have holds := List.find?_some found
    simpa using holds
  have mem := List.mem_of_find?_eq_some found
  have there := List.mk_mem_zipIdx_iff_getElem?.mp (List.mem_reverse.mp mem)
  obtain ⟨within, is⟩ := List.getElem?_eq_some_iff.mp there
  refine ⟨list.take i, old, list.drop (i + 1), ?_, own, fun r => List.set_eq_take_append_cons_drop ▸ ?_⟩
  · rw [← is, List.getElem_cons_drop, List.take_append_drop]
  · rw [if_pos within]

theorem insertRow_cons (f : Json) (r : Json) :
    insertRow (f :: list) n r =
      if (rowOrdinal f).any (n < ·) then r :: f :: list else f :: insertRow list n r := by
  unfold insertRow
  cases after : (rowOrdinal f).any (n < ·) <;> simp [after]

theorem insertRow_between (order : InOrder list) (fresh : findingAt list n = none) (r : Json) :
    ∃ front back, list = front ++ back ∧ insertRow list n r = front ++ r :: back ∧
      (∀ f ∈ front, ∀ m, rowOrdinal f = some m → m < n) ∧
      ∀ g ∈ back, ∀ m, rowOrdinal g = some m → n < m := by
  induction list with
  | nil => exact ⟨[], [], rfl, rfl, by simp, by simp⟩
  | cons first rest ih =>
      obtain ⟨k, own⟩ := exists_ordinal (order.rows first List.mem_cons_self)
      have apart : k ≠ n := by
        rintro rfl
        exact findingAt_eq_none.mp fresh first List.mem_cons_self own
      rw [insertRow_cons, own]
      by_cases after : n < k
      · refine ⟨[], first :: rest, rfl, by simp [after], by simp, fun g mem m own' => ?_⟩
        obtain rfl | later := List.mem_cons.mp mem
        · exact Option.some.inj (own.symm.trans own') ▸ after
        · exact after.trans ((List.pairwise_cons.mp order.ascending).1 g later k m own own')
      · have fresh' : findingAt rest n = none := findingAt_eq_none.mpr fun f mem =>
          findingAt_eq_none.mp fresh f (List.mem_cons_of_mem _ mem)
        obtain ⟨front, back, rfl, inserted, below, above⟩ := ih order.of_cons fresh'
        refine ⟨first :: front, back, rfl, by simp [after, inserted], fun f mem m own' => ?_, above⟩
        obtain rfl | later := List.mem_cons.mp mem
        · have same := Option.some.inj (own.symm.trans own')
          omega
        · exact below f later m own'

/-- What one row can do. -/
theorem applyRow_cases (order : InOrder list) (ok : applyRow X adds list ri = .ok list') :
    ∃ n, rowOrdinal ri.1 = some n ∧ RowApplied adds ri n list list' := by
  unfold applyRow at ok
  split at ok
  · cases ok
  · cases own : rowOrdinal ri.1 with
    | none => simp [own] at ok
    | some n =>
        refine ⟨n, rfl, ?_⟩
        simp only [own] at ok
        cases place : placeOf list n with
        | some at' =>
            obtain ⟨front, old, back, rfl, same, set⟩ := placeOf_eq_some place
            simp only [place, Except.ok.injEq] at ok
            rw [← ok, set]
            exact .replaces same
        | none =>
            simp only [place] at ok
            split at ok
            · rename_i allowed
              obtain ⟨front, back, rfl, inserted, below, above⟩ :=
                insertRow_between order (placeOf_eq_none.mp place) ri.1
              rw [← Except.ok.inj ok, inserted]
              exact .joins allowed below above
            · cases ok

namespace RowApplied

variable (own : rowOrdinal ri.1 = some n) (applied : RowApplied adds ri n list list')
include own applied

/-- The row stands between the lesser ordinals and the greater ones. -/
theorem order (order : InOrder list) : InOrder list' := by
  obtain ⟨rows, ascending⟩ := order
  cases applied with
  | @replaces front back old same =>
      refine ⟨fun f mem => ?_, ?_⟩
      · obtain mem | rfl | mem : f ∈ front ∨ f = ri.1 ∨ f ∈ back := by simpa using mem
        · exact rows f (by simp [mem])
        · exact Option.isSome_iff_exists.mpr ⟨n, own⟩
        · exact rows f (by simp [mem])
      · simpa only [List.pairwise_append, List.pairwise_cons, List.mem_cons, forall_eq_or_imp,
          own, same] using ascending
  | @joins front back _ below above =>
      refine ⟨fun f mem => ?_, ?_⟩
      · obtain mem | rfl | mem : f ∈ front ∨ f = ri.1 ∨ f ∈ back := by simpa using mem
        · exact rows f (by simp [mem])
        · exact Option.isSome_iff_exists.mpr ⟨n, own⟩
        · exact rows f (by simp [mem])
      · obtain ⟨first, last, across⟩ := List.pairwise_append.mp ascending
        refine List.pairwise_append.mpr ⟨first, List.pairwise_cons.mpr ⟨?_, last⟩, ?_⟩
        · intro g mem m k row ordinal
          exact Option.some.inj (own.symm.trans row) ▸ above g mem k ordinal
        · intro f mem g there m k ordinal ordinal'
          obtain rfl | there := List.mem_cons.mp there
          · exact Option.some.inj (own.symm.trans ordinal') ▸ below f mem m ordinal
          · exact across f mem g there m k ordinal ordinal'

/-- It is what the list holds at its ordinal, and nothing else moves. -/
theorem finding_at (order : InOrder list) (m : Nat) :
    findingAt list' m = if m = n then some ri.1 else findingAt list m := by
  have order' := applied.order own order
  by_cases same : m = n
  · subst same
    rw [if_pos rfl]
    refine order'.findingAt_iff.mpr ⟨?_, own⟩
    cases applied <;> simp
  · have apart : rowOrdinal ri.1 ≠ some m := fun other =>
      same (Option.some.inj (other.symm.trans own))
    rw [if_neg same]
    cases applied with
    | replaces there =>
        have apart' : rowOrdinal _ ≠ some m := fun other =>
          same (Option.some.inj (other.symm.trans there))
        rw [findingAt_append, findingAt_append, findingAt_cons, findingAt_cons, if_neg apart,
          if_neg apart']
    | joins => rw [findingAt_append, findingAt_append, findingAt_cons, if_neg apart]

/-- What is not of the row's ordinal stays as it is and where it is. -/
theorem filter {p : Json → Bool} (other : ∀ f, rowOrdinal f = some n → p f = false) :
    list'.filter p = list.filter p := by
  have row := other ri.1 own
  cases applied with
  | replaces same => simp [List.filter_append, row, other _ same]
  | joins => simp [List.filter_append, row]

theorem added {m : Nat} (fresh : findingAt list m = none) (order : InOrder list)
    (there : findingAt list' m ≠ none) : m = n ∧ ri.2 ∈ adds := by
  rw [applied.finding_at own order] at there
  by_cases same : m = n
  · refine ⟨same, ?_⟩
    cases applied with
    | replaces held =>
        subst same
        exact absurd held (findingAt_eq_none.mp fresh _ (by simp))
    | joins allowed => exact allowed
  · rw [if_neg same] at there
    exact absurd fresh there

end RowApplied

theorem lastRow_cons (r : Json) (rows : List Json) (m : Option Nat) :
    lastRow (r :: rows) m = (lastRow rows m).or (if rowOrdinal r = m then some r else none) := by
  unfold lastRow
  rw [List.reverse_cons, List.find?_append]
  by_cases own : rowOrdinal r = m
  · simp [own]
  · simp [own]

theorem lastRow_eq_none {rows : List Json} {m : Option Nat} :
    lastRow rows m = none ↔ ∀ r ∈ rows, rowOrdinal r ≠ m := by
  simp [lastRow]

theorem lastRow_mem {rows : List Json} {m : Option Nat} {r : Json} (last : lastRow rows m = some r) :
    r ∈ rows ∧ rowOrdinal r = m := by
  refine ⟨List.mem_reverse.mp (List.mem_of_find?_eq_some last), ?_⟩
  have own := List.find?_some last
  simpa using own

/-- What the rows of a patch do to a list in order. -/
structure RowsApplied (adds : List Nat) (items : List (Json × Nat)) (list list' : List Json) :
    Prop where
  order : InOrder list'
  rows : ∀ ri ∈ items, isRow ri.1 = true
  at_ordinal : ∀ m, findingAt list' m =
    (lastRow (items.map Prod.fst) (some m)).or (findingAt list m)
  kept : ∀ p : Json → Bool, (∀ ri ∈ items, ∀ f, rowOrdinal f = rowOrdinal ri.1 → p f = false) →
    list'.filter p = list.filter p
  added : ∀ m, findingAt list m = none → findingAt list' m ≠ none →
    ∃ ri ∈ items, ri.2 ∈ adds ∧ rowOrdinal ri.1 = some m

theorem applyRows_spec {items : List (Json × Nat)} (order : InOrder list)
    (ok : items.foldlM (applyRow X adds) list = .ok list') : RowsApplied adds items list list' := by
  induction items generalizing list with
  | nil =>
      obtain rfl : list = list' := Except.ok.inj ok
      exact ⟨order, by simp, by simp [lastRow], fun _ _ => rfl, fun m fresh there => absurd fresh there⟩
  | cons ri rest ih =>
      rw [List.foldlM_cons] at ok
      cases first : applyRow X adds list ri with
      | error e => simp [first, bind, Except.bind] at ok
      | ok mid =>
          simp only [first, bind, Except.bind] at ok
          obtain ⟨n, own, applied⟩ := applyRow_cases order first
          have rest' := ih (applied.order own order) ok
          refine ⟨rest'.order, ?_, fun m => ?_, fun p others => ?_, fun m fresh there => ?_⟩
          · intro item mem
            obtain rfl | mem := List.mem_cons.mp mem
            · exact Option.isSome_iff_exists.mpr ⟨n, own⟩
            · exact rest'.rows item mem
          · rw [rest'.at_ordinal, applied.finding_at own order, List.map_cons, lastRow_cons, own,
              Option.or_assoc]
            congr 1
            by_cases same : m = n
            · simp [same]
            · have apart : n ≠ m := fun e => same e.symm
              simp [same, apart]
          · rw [rest'.kept p fun item mem => others item (List.mem_cons_of_mem _ mem)]
            exact applied.filter own fun f same => others ri List.mem_cons_self f (same.trans own.symm)
          · by_cases held : findingAt mid m = none
            · obtain ⟨item, mem, allowed, ordinal⟩ := rest'.added m held there
              exact ⟨item, List.mem_cons_of_mem _ mem, allowed, ordinal⟩
            · obtain ⟨rfl, allowed⟩ := applied.added own fresh order held
              exact ⟨ri, List.mem_cons_self, allowed, own⟩

/-- Rows that each name a finding of the list are applied. -/
theorem applyRows_of_held {items : List (Json × Nat)} (order : InOrder list)
    (held : ∀ ri ∈ items, ∃ n, rowOrdinal ri.1 = some n ∧ findingAt list n ≠ none) :
    ∃ list', items.foldlM (applyRow X adds) list = .ok list' := by
  induction items generalizing list with
  | nil => exact ⟨list, rfl⟩
  | cons ri rest ih =>
      obtain ⟨n, own, there⟩ := held ri List.mem_cons_self
      have first : ∃ mid, applyRow X adds list ri = .ok mid := by
        obtain ⟨at', place⟩ : ∃ at', placeOf list n = some at' :=
          Option.ne_none_iff_exists'.mp (mt placeOf_eq_none.mp there)
        have plain : ri.1.isPlainObject = true := by
          unfold rowOrdinal Json.field at own
          cases is : ri.1 with
          | obj fields => rfl
          | _ => simp [is] at own
        exact ⟨list.set at' ri.1, by simp [applyRow, plain, own, place]⟩
      obtain ⟨mid, first⟩ := first
      obtain ⟨n', own', applied⟩ := applyRow_cases order first
      obtain ⟨list', rest'⟩ := ih (applied.order own' order) fun item mem => by
        obtain ⟨k, ordinal, stands⟩ := held item (List.mem_cons_of_mem _ mem)
        refine ⟨k, ordinal, ?_⟩
        rw [applied.finding_at own' order]
        split
        · simp
        · exact stands
      refine ⟨list', ?_⟩
      rw [List.foldlM_cons, first]
      exact rest'

end

end Synthesis

end Clearotron
