import Clearotron.Library.Sorted
import Mathlib.Data.String.Basic

/-!
# The order queued jobs are admitted in

Beside each queue stands a file that lists the ids in the order they are to be admitted. A job
it does not list comes behind the listed ones, oldest first. A caller reorders the jobs it may
move: their places in the queue are filled again in the order of the request, and the whole
queue is written back.
-/

namespace Clearotron

namespace QueueOrder

/-- What the host knows of texts. -/
structure Collation where
  /-- `a.localeCompare(b) <= 0` -/
  le : String → String → Bool
  total : ∀ a b, le a b || le b a
  trans : ∀ a b c, le a b → le b c → le a c

/-- A queue directory. -/
structure Lane where
  path : String
  /-- the ids of its files `<id>.json` -/
  files : List String
  /-- `enqueuedAt` of a job's manifest, empty where it states none or does not parse -/
  enqueuedAt : String → String
  /-- what the order file asserts, nothing where it is missing or broken -/
  order : List String
  nodup : files.Nodup
  named : ∀ id ∈ files, id ≠ ""

def readQueueOrder (q : Lane) : List String := q.order.filter (· ≠ "")

def writeQueueOrder (q : Lane) (order : List String) : Lane := { q with order }

/-- `new Map(order.map((id, i) => [id, i])).get(id)`: an id listed twice has its last place. -/
def rank (order : List String) (id : String) : Option Nat :=
  (order.zipIdx.reverse.find? (·.1 = id)).map (·.2)

structure SortKey where
  f : String
  tier : Nat
  pos : Nat
  at' : String

def sortKey (order : List String) (enqueuedAt : String → String) (id : String) : SortKey :=
  match rank order id with
  | some listed => ⟨id ++ ".json", 0, listed, ""⟩
  | none => ⟨id ++ ".json", 1, 0, enqueuedAt id⟩

/-- The comparison of the sort: tier, place, age, file name. -/
def keyLe (C : Collation) : SortKey → SortKey → Bool :=
  thenBy (fun a b => a.tier ≤ b.tier) (thenBy (fun a b => a.pos ≤ b.pos)
    (thenBy (fun a b => C.le a.at' b.at') (fun a b => C.le a.f b.f)))

/-- Listed jobs as listed, then the others, oldest first. -/
def sortJobs (C : Collation) (order : List String) (enqueuedAt : String → String)
    (files : List String) : List String :=
  files.insertionSort fun a b =>
    keyLe C (sortKey order enqueuedAt a) (sortKey order enqueuedAt b)

def orderedQueueFiles (C : Collation) (q : Lane) : List String :=
  sortJobs C (readQueueOrder q) q.enqueuedAt q.files

/-- The places of the caller's jobs, filled again from the request. -/
def refill (mine : String → Bool) : List String → List String → List String
  | [], _ => []
  | current, [] => current
  | id :: current, asked :: fill =>
    if mine id then asked :: refill mine current fill
    else id :: refill mine current (asked :: fill)

/-- The requested ids that stand in a lane. -/
def askedHere (C : Collation) (q : Lane) (want : List String) : List String :=
  want.filter (· ∈ orderedQueueFiles C q)

def reorderLane (C : Collation) (want : List String) (q : Lane) : Lane :=
  let current := orderedQueueFiles C q
  let here := askedHere C q want
  if here = [] then q else writeQueueOrder q (refill (· ∈ here) current here)

/-- What a reorder leaves, and each lane it wrote with the number of ids it was asked for there. -/
structure Reordered where
  lanes : List Lane
  detail : List (String × Nat)

def reorderQueue (C : Collation) (lanes : List Lane) (order : List String)
    (allowed : String → Bool) : Reordered :=
  let want := order.filter allowed
  { lanes := lanes.map (reorderLane C want)
    detail := lanes.filterMap fun q =>
      let here := askedHere C q want
      if here = [] then none else some (q.path, here.length) }

section Sorting

variable (C : Collation) (order : List String) (enqueuedAt : String → String)

theorem keyLe_total (a b : SortKey) : keyLe C a b || keyLe C b a := by
  refine thenBy_total (fun a b => ?_) (thenBy_total (fun a b => ?_) (thenBy_total (fun a b => ?_)
    fun a b => ?_)) a b
  · simpa using Nat.le_total a.tier b.tier
  · simpa using Nat.le_total a.pos b.pos
  · exact C.total _ _
  · exact C.total _ _

theorem keyLe_trans (a b c : SortKey) (ab : keyLe C a b) (bc : keyLe C b c) : keyLe C a c := by
  refine thenBy_trans (fun a b c ab bc => ?_) (thenBy_trans (fun a b c ab bc => ?_)
    (thenBy_trans (fun a b c => ?_) fun a b c => ?_)) a b c ab bc
  · exact decide_eq_true (Nat.le_trans (of_decide_eq_true ab) (of_decide_eq_true bc))
  · exact decide_eq_true (Nat.le_trans (of_decide_eq_true ab) (of_decide_eq_true bc))
  · exact C.trans _ _ _
  · exact C.trans _ _ _

instance : Std.Total fun a b : String =>
    (keyLe C (sortKey order enqueuedAt a) (sortKey order enqueuedAt b) : Prop) :=
  ⟨fun a b => by
    simpa using keyLe_total C (sortKey order enqueuedAt a) (sortKey order enqueuedAt b)⟩

instance : IsTrans String fun a b : String =>
    (keyLe C (sortKey order enqueuedAt a) (sortKey order enqueuedAt b) : Prop) :=
  ⟨fun _ _ _ => keyLe_trans C _ _ _⟩

theorem sortJobs_perm (files : List String) : (sortJobs C order enqueuedAt files).Perm files :=
  List.perm_insertionSort _ _

theorem pairwise_sortJobs (files : List String) :
    (sortJobs C order enqueuedAt files).Pairwise fun a b =>
      keyLe C (sortKey order enqueuedAt a) (sortKey order enqueuedAt b) :=
  List.pairwise_insertionSort _ _

@[simp] theorem rank_nil (id : String) : rank [] id = none := rfl

theorem rank_cons (x : String) (order : List String) (id : String) :
    rank (x :: order) id =
      ((rank order id).map (· + 1)).or (if x = id then some 0 else none) := by
  unfold rank
  rw [List.zipIdx_cons, List.reverse_cons, List.find?_append, Nat.zero_add, List.zipIdx_succ,
    ← List.map_reverse, List.find?_map]
  have moved : (fun e : String × Nat => decide (e.1 = id)) ∘
      (fun e : String × Nat => (e.1, e.2 + 1)) = fun e => decide (e.1 = id) := rfl
  rw [moved]
  cases found : order.zipIdx.reverse.find? (·.1 = id) with
  | some e => rfl
  | none => by_cases own : x = id <;> simp [own]

theorem rank_eq_none {order : List String} {id : String} : rank order id = none ↔ id ∉ order := by
  induction order with
  | nil => simp
  | cons x order ih =>
    rw [rank_cons]
    cases found : rank order id with
    | some n =>
      have mem : id ∈ order := by
        by_contra absent
        rw [ih.mpr absent] at found
        cases found
      simp [mem]
    | none =>
      have absent := ih.mp found
      by_cases own : x = id
      · simp [own]
      · simp [own, absent, Ne.symm own]

theorem getElem?_rank {order : List String} {id : String} {pos : Nat}
    (found : rank order id = some pos) : order[pos]? = some id := by
  induction order generalizing pos with
  | nil => cases found
  | cons x order ih =>
    rw [rank_cons] at found
    cases later : rank order id with
    | some n =>
      rw [later] at found
      obtain rfl : n + 1 = pos := Option.some.inj found
      simpa using ih later
    | none =>
      rw [later] at found
      by_cases own : x = id
      · rw [if_pos own] at found
        obtain rfl : 0 = pos := Option.some.inj found
        simp [own]
      · simp [own] at found

/-- Without its repeats an order file lists ids by their ranks. -/
theorem pairwise_rank (order : List String) :
    order.dedup.Pairwise fun a b =>
      ∃ i j, rank order a = some i ∧ rank order b = some j ∧ i < j := by
  induction order with
  | nil => exact .nil
  | cons x order ih =>
    have later : order.dedup.Pairwise fun a b => ∃ i j, rank (x :: order) a = some i ∧
        rank (x :: order) b = some j ∧ i < j := by
      refine ih.imp ?_
      rintro a b ⟨i, j, first, second, lt⟩
      refine ⟨i + 1, j + 1, ?_, ?_, Nat.succ_lt_succ lt⟩
      · rw [rank_cons, first]
        rfl
      · rw [rank_cons, second]
        rfl
    by_cases again : x ∈ order
    · rwa [List.dedup_cons_of_mem again]
    · rw [List.dedup_cons_of_notMem again]
      refine List.pairwise_cons.mpr ⟨fun b mem => ?_, later⟩
      obtain ⟨j, found⟩ : ∃ j, rank order b = some j :=
        Option.ne_none_iff_exists'.mp fun none' =>
          rank_eq_none.mp none' (List.mem_dedup.mp mem)
      refine ⟨0, j + 1, ?_, ?_, Nat.succ_pos j⟩
      · rw [rank_cons, rank_eq_none.mpr again]
        simp
      · rw [rank_cons, found]
        rfl

variable {C order enqueuedAt}

variable (order enqueuedAt) in
theorem sortKey_of_mem {id : String} (listed : id ∈ order) :
    ∃ pos, rank order id = some pos ∧
      sortKey order enqueuedAt id = ⟨id ++ ".json", 0, pos, ""⟩ := by
  obtain ⟨pos, found⟩ : ∃ pos, rank order id = some pos :=
    Option.ne_none_iff_exists'.mp fun none' => rank_eq_none.mp none' listed
  exact ⟨pos, found, by rw [sortKey, found]⟩

theorem sortKey_of_not_mem {id : String} (unlisted : id ∉ order) :
    sortKey order enqueuedAt id = ⟨id ++ ".json", 1, 0, enqueuedAt id⟩ := by
  rw [sortKey, rank_eq_none.mpr unlisted]

/-- Jobs by their age alone. -/
abbrev byAge (C : Collation) (enqueuedAt : String → String) (files : List String) : List String :=
  sortJobs C [] enqueuedAt files

/-- Two sorts agree on jobs their comparisons agree on. -/
theorem insertionSort_congr {r s : String → String → Prop} [DecidableRel r] [DecidableRel s]
    {files : List String} (same : ∀ a ∈ files, ∀ b ∈ files, r a b ↔ s a b) :
    files.insertionSort r = files.insertionSort s := by
  have := List.map_insertionSort (r := r) (s := s) id files (by simpa using same)
  simpa using this

/-- The queue a file listing present jobs leaves: its last mentions, then the others by age. -/
theorem sortJobs_of_listed (files : List String) (nodup : files.Nodup)
    (present : ∀ id ∈ order, id ∈ files) :
    sortJobs C order enqueuedAt files =
      order.dedup ++ byAge C enqueuedAt (files.filter (· ∉ order)) := by
  have sorted := pairwise_sortJobs C order enqueuedAt files
  have apart : (sortJobs C order enqueuedAt files).Pairwise fun a b =>
      decide (a ∈ order) = false → decide (b ∈ order) = false := by
    refine sorted.imp fun {a b} le unlisted => ?_
    by_contra listed
    have first : a ∉ order := of_decide_eq_false unlisted
    have second : b ∈ order := by simpa using listed
    obtain ⟨pos, -, key⟩ := sortKey_of_mem order enqueuedAt second
    rw [sortKey_of_not_mem first, key] at le
    simp [keyLe, thenBy] at le
  rw [← filter_append_filter apart]
  congr 1
  · have perm : ((sortJobs C order enqueuedAt files).filter (· ∈ order)).Perm order.dedup := by
      refine (List.perm_ext_iff_of_nodup ?_ (List.nodup_dedup _)).mpr fun id => ?_
      · exact ((sortJobs_perm C order enqueuedAt files).nodup_iff.mpr nodup).filter _
      · rw [List.mem_filter, (sortJobs_perm C order enqueuedAt files).mem_iff, List.mem_dedup]
        simpa using present id
    have alike (a b : String) (mem : a ∈ (sortJobs C order enqueuedAt files).filter (· ∈ order))
        (mem' : b ∈ order.dedup)
        (ab : keyLe C (sortKey order enqueuedAt a) (sortKey order enqueuedAt b))
        (ba : keyLe C (sortKey order enqueuedAt b) (sortKey order enqueuedAt a)) : a = b := by
      obtain ⟨i, first, key⟩ := sortKey_of_mem order enqueuedAt
        (of_decide_eq_true (List.mem_filter.mp mem).2)
      obtain ⟨j, second, key'⟩ := sortKey_of_mem order enqueuedAt
        (List.mem_dedup.mp mem')
      rw [key, key'] at ab ba
      have le : i ≤ j := by
        simp only [keyLe, thenBy, Bool.and_eq_true, decide_eq_true_eq] at ab
        simpa using And.left (by simpa using ab)
      have ge : j ≤ i := by
        simp only [keyLe, thenBy, Bool.and_eq_true, decide_eq_true_eq] at ba
        simpa using And.left (by simpa using ba)
      have same : i = j := Nat.le_antisymm le ge
      subst same
      exact Option.some.inj ((getElem?_rank first).symm.trans (getElem?_rank second))
    have ranked : order.dedup.Pairwise fun a b =>
        keyLe C (sortKey order enqueuedAt a) (sortKey order enqueuedAt b) := by
      refine (pairwise_rank order).imp ?_
      rintro a b ⟨i, j, first, second, lt⟩
      rw [sortKey, sortKey, first, second]
      simp only [keyLe, thenBy, Bool.and_eq_true, Bool.or_eq_true, decide_eq_true_eq]
      exact ⟨Nat.le_refl _, .inr ⟨Nat.le_of_lt lt, .inl (by simpa using lt)⟩⟩
    exact perm.eq_of_pairwise alike (sorted.filter _) ranked
  · rw [sortJobs, filter_insertionSort]
    have same : files.filter (fun a => !decide (a ∈ order)) = files.filter (· ∉ order) := by
      congr 1
      funext a
      simp
    rw [same]
    refine insertionSort_congr fun a mem b mem' => ?_
    have first : a ∉ order := by simpa using (List.mem_filter.mp mem).2
    have second : b ∉ order := by simpa using (List.mem_filter.mp mem').2
    rw [sortKey_of_not_mem first, sortKey_of_not_mem second, sortKey_of_not_mem (by simp),
      sortKey_of_not_mem (by simp)]

end Sorting

section Refill

variable {mine : String → Bool}

@[simp] theorem refill_nil (fill : List String) : refill mine [] fill = [] := by
  cases fill <;> rfl

@[simp] theorem refill_nothing (current : List String) : refill mine current [] = current := by
  cases current <;> rfl

theorem refill_of_mine {id asked : String} {current fill : List String} (own : mine id = true) :
    refill mine (id :: current) (asked :: fill) = asked :: refill mine current fill := by
  rw [refill, if_pos own]

theorem refill_of_other {id : String} {current fill : List String} (other : mine id = false) :
    refill mine (id :: current) fill = id :: refill mine current fill := by
  cases fill with
  | nil => simp
  | cons asked fill => rw [refill, if_neg (by simp [other])]

theorem length_refill (current fill : List String) :
    (refill mine current fill).length = current.length := by
  induction current generalizing fill with
  | nil => simp
  | cons id current ih =>
    cases own : mine id with
    | false => simp [refill_of_other own, ih]
    | true =>
      cases fill with
      | nil => simp
      | cons asked fill => simp [refill_of_mine own, ih]

theorem refill_append (c₁ c₂ fill : List String) :
    refill mine (c₁ ++ c₂) fill =
      refill mine c₁ fill ++ refill mine c₂ (fill.drop (c₁.countP mine)) := by
  induction c₁ generalizing fill with
  | nil => simp
  | cons id c₁ ih =>
    rw [List.cons_append, List.countP_cons]
    cases own : mine id with
    | false => simp [refill_of_other own, ih]
    | true =>
      cases fill with
      | nil => simp
      | cons asked fill => simp [refill_of_mine own, ih]

/-- The jobs that are not the caller's stand as they stood. -/
theorem refill_filter_not {current fill : List String} (own : ∀ id ∈ fill, mine id = true) :
    (refill mine current fill).filter (fun id => !mine id) = current.filter fun id => !mine id := by
  induction current generalizing fill with
  | nil => simp
  | cons id current ih =>
    cases here : mine id with
    | false => simp [refill_of_other here, here, ih own]
    | true =>
      cases fill with
      | nil => simp
      | cons asked fill =>
        have asked' := own asked List.mem_cons_self
        simp [refill_of_mine here, here, asked',
          ih fun id mem => own id (List.mem_cons_of_mem _ mem)]

/-- The caller's places hold the first of what is asked for. -/
theorem refill_filter {current fill : List String} (own : ∀ id ∈ fill, mine id = true)
    (enough : current.countP mine ≤ fill.length) :
    (refill mine current fill).filter mine = fill.take (current.countP mine) := by
  induction current generalizing fill with
  | nil => simp
  | cons id current ih =>
    rw [List.countP_cons] at enough ⊢
    cases here : mine id with
    | false =>
      rw [here] at enough
      simp only [Bool.false_eq_true, if_false, Nat.add_zero] at enough ⊢
      rw [refill_of_other here, List.filter_cons_of_neg (by simp [here]), ih own enough]
    | true =>
      rw [here] at enough
      cases fill with
      | nil => simp at enough
      | cons asked fill =>
        simp only [if_true, List.length_cons, Nat.add_le_add_iff_right] at enough ⊢
        rw [refill_of_mine here, List.filter_cons_of_pos (own asked List.mem_cons_self),
          ih (fun id mem => own id (List.mem_cons_of_mem _ mem)) enough, List.take_succ_cons]

end Refill

/-- The jobs are the same, those the caller may not move stand where they stood, and those it
asked for stand in the order of their first mention. -/
structure MovesOnly (order : List String) (allowed : String → Bool) (before after : List String) :
    Prop where
  same : after.Perm before
  others : ∀ (i : Nat) (id : String), before[i]? = some id → allowed id = false →
    after[i]? = some id
  asked : (after.filter fun id => allowed id && decide (id ∈ order)).Pairwise fun a b =>
    order.idxOf a < order.idxOf b

/-- The mentions that fill the caller's places: as many as it asked for different jobs. -/
def filling (C : Collation) (q : Lane) (want : List String) : List String :=
  (askedHere C q want).take ((orderedQueueFiles C q).countP (· ∈ askedHere C q want))

/-- The jobs asked for that no place is left for. -/
def crowdedOut (C : Collation) (q : Lane) (want : List String) : List String :=
  q.files.filter fun id => id ∈ askedHere C q want && id ∉ filling C q want

/-- No repeat costs anything: a job fills two places only behind every job of another, the last
mentions stand in the order of the first, and so do, by their age, the jobs no place is left for. -/
structure RepeatsHarmless (C : Collation) (q : Lane) (order : List String)
    (allowed : String → Bool) : Prop where
  pinned : ∀ c₁ id c₂, orderedQueueFiles C q = c₁ ++ id :: c₂ → allowed id = false →
    ∀ m ∈ (filling C q (order.filter allowed)).take
        (c₁.countP (· ∈ askedHere C q (order.filter allowed))),
      (filling C q (order.filter allowed)).count m = 1
  lastMentions : (filling C q (order.filter allowed)).dedup.Pairwise fun a b =>
    order.idxOf a < order.idxOf b
  behind : (byAge C q.enqueuedAt (crowdedOut C q (order.filter allowed))).Pairwise fun a b =>
    order.idxOf a < order.idxOf b

theorem idxOf_filter_lt {p : String → Bool} {l : List String} {a b : String} (pa : p a = true)
    (pb : p b = true) (lt : (l.filter p).idxOf a < (l.filter p).idxOf b) :
    l.idxOf a < l.idxOf b := by
  induction l with
  | nil => exact lt
  | cons x l ih =>
    cases px : p x with
    | true =>
      rw [List.filter_cons_of_pos px, List.idxOf_cons, List.idxOf_cons] at lt
      rw [List.idxOf_cons, List.idxOf_cons]
      by_cases xb : x = b
      · simp [xb] at lt
      by_cases xa : x = a
      · subst xa
        have apart : (x == b) = false := by simpa using xb
        simp [apart]
      · have apart : (x == a) = false := by simpa using xa
        have apart' : (x == b) = false := by simpa using xb
        simp only [apart, apart', cond_false, Nat.add_lt_add_iff_right] at lt ⊢
        exact ih lt
    | false =>
      rw [List.filter_cons_of_neg (by simp [px])] at lt
      have xa : x ≠ a := fun e => by simp [e, pa] at px
      have xb : x ≠ b := fun e => by simp [e, pb] at px
      have apart : (x == a) = false := by simpa using xa
      have apart' : (x == b) = false := by simpa using xb
      rw [List.idxOf_cons, List.idxOf_cons, apart, apart']
      simpa using ih lt

/-- What a front part of a list holds stands before all it does not hold. -/
theorem idxOf_take_lt {l : List String} {k : Nat} {a b : String} (mem : a ∈ l.take k)
    (absent : b ∉ l.take k) : l.idxOf a < l.idxOf b := by
  rw [← List.take_append_drop k l, List.idxOf_append_of_mem mem,
    List.idxOf_append_of_notMem absent]
  exact Nat.lt_of_lt_of_le (List.idxOf_lt_length_of_mem mem) (Nat.le_add_right ..)

section Reorder

variable {C : Collation} {q : Lane} {order : List String} {allowed : String → Bool}

theorem mem_askedHere {id : String} :
    id ∈ askedHere C q (order.filter allowed) ↔
      id ∈ orderedQueueFiles C q ∧ allowed id = true ∧ id ∈ order := by
  simp only [askedHere, List.mem_filter, decide_eq_true_eq]
  tauto

theorem ordered_perm (C : Collation) (q : Lane) : (orderedQueueFiles C q).Perm q.files :=
  sortJobs_perm ..

theorem ordered_nodup (C : Collation) (q : Lane) : (orderedQueueFiles C q).Nodup :=
  (ordered_perm C q).nodup_iff.mpr q.nodup

/-- There are at least as many mentions as places. -/
theorem countP_le_length (want : List String) :
    (orderedQueueFiles C q).countP (· ∈ askedHere C q want) ≤ (askedHere C q want).length := by
  rw [List.countP_eq_length_filter]
  refine (List.subperm_of_subset ((ordered_nodup C q).filter _) fun id mem => ?_).length_le
  exact of_decide_eq_true (List.mem_filter.mp mem).2

/-- The queue as a reorder writes it. -/
def rewritten (C : Collation) (q : Lane) (want : List String) : List String :=
  refill (· ∈ askedHere C q want) (orderedQueueFiles C q) (askedHere C q want)

theorem rewritten_filter (want : List String) :
    (rewritten C q want).filter (· ∈ askedHere C q want) = filling C q want :=
  refill_filter (fun _ mem => decide_eq_true mem) (countP_le_length want)

theorem rewritten_filter_not (want : List String) :
    (rewritten C q want).filter (fun id => !decide (id ∈ askedHere C q want)) =
      (orderedQueueFiles C q).filter fun id => !decide (id ∈ askedHere C q want) :=
  refill_filter_not fun _ mem => decide_eq_true mem

theorem mem_rewritten {want : List String} {id : String} :
    id ∈ rewritten C q want ↔
      id ∈ filling C q want ∨ id ∈ orderedQueueFiles C q ∧ id ∉ askedHere C q want := by
  by_cases own : id ∈ askedHere C q want
  · have kept : id ∈ rewritten C q want ↔ id ∈ filling C q want := by
      rw [← rewritten_filter, List.mem_filter]
      simp [own]
    rw [kept]
    simp [own]
  · have kept : id ∈ rewritten C q want ↔ id ∈ orderedQueueFiles C q := by
      have both : id ∈ (rewritten C q want).filter (fun id => !decide (id ∈ askedHere C q want)) ↔
          id ∈ (orderedQueueFiles C q).filter fun id => !decide (id ∈ askedHere C q want) := by
        rw [rewritten_filter_not]
      simpa [List.mem_filter, own] using both
    have unfilled : id ∉ filling C q want := fun mem => own (List.mem_of_mem_take mem)
    simp [kept, own, unfilled]

theorem subset_rewritten {want : List String} {id : String} (mem : id ∈ rewritten C q want) :
    id ∈ q.files := by
  rw [← (ordered_perm C q).mem_iff]
  obtain filled | ⟨there, -⟩ := mem_rewritten.mp mem
  · exact of_decide_eq_true (List.mem_filter.mp (List.mem_of_mem_take filled)).2
  · exact there

/-- The queue after a reorder: the last mention of each id written, then what found no place. -/
theorem ordered_reorderLane {want : List String} (some' : askedHere C q want ≠ []) :
    orderedQueueFiles C (reorderLane C want q) =
      (rewritten C q want).dedup ++ byAge C q.enqueuedAt (crowdedOut C q want) := by
  have read : readQueueOrder (writeQueueOrder q (rewritten C q want)) = rewritten C q want :=
    List.filter_eq_self.mpr fun id mem => decide_eq_true (q.named id (subset_rewritten mem))
  have written : reorderLane C want q = writeQueueOrder q (rewritten C q want) := by
    unfold reorderLane
    rw [if_neg some']
    rfl
  rw [written, orderedQueueFiles, read]
  refine (sortJobs_of_listed q.files q.nodup fun id => subset_rewritten).trans ?_
  congr 2
  refine List.filter_congr fun id mem => ?_
  have there := (ordered_perm C q).mem_iff.mpr mem
  by_cases own : id ∈ askedHere C q want <;> simp [mem_rewritten, own, there]

/-- A job that no request names stands once in what is written. -/
theorem count_rewritten_other {want : List String} {id : String}
    (there : id ∈ orderedQueueFiles C q) (other : id ∉ askedHere C q want) :
    (rewritten C q want).count id = 1 := by
  have kept : (fun id => !decide (id ∈ askedHere C q want)) id = true := by simpa using other
  rw [← List.count_filter (p := fun id => !decide (id ∈ askedHere C q want)) kept,
    rewritten_filter_not,
    List.count_filter (p := fun id => !decide (id ∈ askedHere C q want)) kept]
  exact List.count_eq_one_of_mem (ordered_nodup C q) there

/-- A requested job stands as often as it fills a place. -/
theorem count_rewritten_own {want : List String} {id : String} (own : id ∈ askedHere C q want) :
    (rewritten C q want).count id = (filling C q want).count id := by
  rw [← rewritten_filter,
    List.count_filter (p := fun id => decide (id ∈ askedHere C q want)) (decide_eq_true own)]

theorem mem_crowdedOut {want : List String} {id : String} :
    id ∈ byAge C q.enqueuedAt (crowdedOut C q want) ↔
      id ∈ askedHere C q want ∧ id ∉ filling C q want := by
  rw [byAge, (sortJobs_perm ..).mem_iff, crowdedOut, List.mem_filter]
  constructor
  · rintro ⟨-, own⟩
    simpa using own
  · intro own
    refine ⟨(ordered_perm C q).mem_iff.mp ?_, by simpa using own⟩
    exact of_decide_eq_true (List.mem_filter.mp own.1).2

/-- What stood in front of another's job still fills as many places, where nothing repeats. -/
theorem other_stays {want c₁ c₂ : List String} {id : String} (some' : askedHere C q want ≠ [])
    (split : orderedQueueFiles C q = c₁ ++ id :: c₂) (other : id ∉ askedHere C q want) :
    (orderedQueueFiles C (reorderLane C want q))[c₁.length]? = some id ↔
      ∀ m ∈ (filling C q want).take (c₁.countP (· ∈ askedHere C q want)),
        (filling C q want).count m = 1 := by
  let mine (id : String) : Bool := id ∈ askedHere C q want
  let n₁ := refill mine c₁ (askedHere C q want)
  let n₂ := refill mine c₂ ((askedHere C q want).drop (c₁.countP mine))
  have written : rewritten C q want = n₁ ++ id :: n₂ := by
    rw [rewritten, split, refill_append, refill_of_other (by simpa using other)]
  have there : id ∈ orderedQueueFiles C q := by simp [split]
  have once := count_rewritten_other there other
  have absent : id ∉ n₁ ∧ id ∉ n₂ := by
    rw [written, List.count_append, List.count_cons_self] at once
    exact ⟨List.count_eq_zero.mp (by omega), List.count_eq_zero.mp (by omega)⟩
  have shape : orderedQueueFiles C (reorderLane C want q) =
      (n₁.filter (· ∉ id :: n₂)).dedup ++
        id :: (n₂.dedup ++ byAge C q.enqueuedAt (crowdedOut C q want)) := by
    rw [ordered_reorderLane some', written, dedup_append_eq, List.dedup_cons_of_notMem absent.2,
      List.append_assoc, List.cons_append]
  have nodup : (orderedQueueFiles C (reorderLane C want q)).Nodup := ordered_nodup ..
  have place : (orderedQueueFiles C (reorderLane C want q))[c₁.length]? = some id ↔
      (n₁.filter (· ∉ id :: n₂)).dedup.length = n₁.length := by
    have own : (orderedQueueFiles C (reorderLane C want q))[
        (n₁.filter (· ∉ id :: n₂)).dedup.length]? = some id := by
      rw [shape]
      simp
    rw [show n₁.length = c₁.length from length_refill ..]
    constructor
    · intro at'
      exact (List.getElem?_inj (List.getElem?_eq_some_iff.mp own).1 nodup).mp (own.trans at'.symm)
    · intro same
      rw [← same]
      exact own
  rw [place, length_dedup_filter_eq_iff, ← written]
  have enough : c₁.countP mine ≤ (askedHere C q want).length := by
    refine Nat.le_trans ?_ (countP_le_length want)
    rw [split, List.countP_append]
    exact Nat.le_add_right ..
  have front : n₁.filter mine =
      (filling C q want).take (c₁.countP (· ∈ askedHere C q want)) := by
    rw [refill_filter (fun _ mem => decide_eq_true mem) enough, filling, List.take_take]
    congr 1
    rw [split, List.countP_append]
    omega
  constructor
  · intro all m mem
    rw [← front] at mem
    obtain ⟨mem, own⟩ := List.mem_filter.mp mem
    rw [← count_rewritten_own (of_decide_eq_true own)]
    exact all m mem
  · intro all m mem
    by_cases own : m ∈ askedHere C q want
    · rw [count_rewritten_own own]
      exact all m (front ▸ List.mem_filter.mpr ⟨mem, decide_eq_true own⟩)
    · refine count_rewritten_other ?_ own
      have written' : m ∈ rewritten C q want := written ▸ List.mem_append_left _ mem
      obtain filled | ⟨there, -⟩ := mem_rewritten.mp written'
      · exact absurd (List.mem_of_mem_take filled) own
      · exact there

/-- A requested job that no place is left for is mentioned behind all that fill one. -/
theorem filling_before {a b : String} (fills : a ∈ filling C q (order.filter allowed))
    (own : b ∈ askedHere C q (order.filter allowed))
    (unplaced : b ∉ filling C q (order.filter allowed)) : order.idxOf a < order.idxOf b := by
  have there := List.mem_of_mem_take fills
  have inHere := idxOf_take_lt fills unplaced
  have asked := mem_askedHere.mp there
  have asked' := mem_askedHere.mp own
  exact idxOf_filter_lt asked.2.1 asked'.2.1
    (idxOf_filter_lt (by simpa using asked.1) (by simpa using asked'.1) inHere)

/-- The requested jobs of a reordered queue. -/
theorem filter_asked (some' : askedHere C q (order.filter allowed) ≠ []) :
    (orderedQueueFiles C (reorderLane C (order.filter allowed) q)).filter
        (fun id => allowed id && decide (id ∈ order)) =
      (filling C q (order.filter allowed)).dedup ++
        byAge C q.enqueuedAt (crowdedOut C q (order.filter allowed)) := by
  have asked : (orderedQueueFiles C (reorderLane C (order.filter allowed) q)).filter
      (fun id => allowed id && decide (id ∈ order)) =
      (orderedQueueFiles C (reorderLane C (order.filter allowed) q)).filter
        (· ∈ askedHere C q (order.filter allowed)) := by
    refine List.filter_congr fun id mem => ?_
    have there : id ∈ orderedQueueFiles C q := by
      rw [(ordered_perm ..).mem_iff] at mem ⊢
      rwa [reorderLane, if_neg some'] at mem
    rw [Bool.eq_iff_iff]
    simp [mem_askedHere, there]
  rw [asked, ordered_reorderLane some', List.filter_append, filter_dedup, rewritten_filter,
    List.filter_eq_self.mpr fun id mem => decide_eq_true (mem_crowdedOut.mp mem).1]

theorem reorderLane_iff : MovesOnly order allowed (orderedQueueFiles C q)
      (orderedQueueFiles C (reorderLane C (order.filter allowed) q)) ↔
    RepeatsHarmless C q order allowed := by
  by_cases some' : askedHere C q (order.filter allowed) = []
  · have unwritten : reorderLane C (order.filter allowed) q = q := if_pos some'
    have unasked : (orderedQueueFiles C q).filter
        (fun id => allowed id && decide (id ∈ order)) = [] := by
      refine List.filter_eq_nil_iff.mpr fun id mem asked => ?_
      have own : id ∈ askedHere C q (order.filter allowed) :=
        mem_askedHere.mpr ⟨mem, by simpa using asked⟩
      rw [some'] at own
      cases own
    rw [unwritten]
    refine ⟨fun _ => ?_, fun _ => ⟨.refl _, fun _ _ at' _ => at', unasked ▸ .nil⟩⟩
    refine ⟨fun c₁ id c₂ _ _ m mem => ?_, ?_, ?_⟩
    · simp [filling, some'] at mem
    · simp [filling, some']
    · simp [crowdedOut, some', byAge, sortJobs]
  · have perm : (orderedQueueFiles C (reorderLane C (order.filter allowed) q)).Perm
        (orderedQueueFiles C q) := by
      refine (ordered_perm ..).trans ?_
      rw [reorderLane, if_neg some']
      exact (ordered_perm C q).symm
    have unlisted (id : String) (other : allowed id = false) :
        id ∉ askedHere C q (order.filter allowed) := fun own => by
      simp [(mem_askedHere.mp own).2.1] at other
    constructor
    · rintro ⟨-, others, asked⟩
      rw [filter_asked some'] at asked
      obtain ⟨last, behind, -⟩ := List.pairwise_append.mp asked
      refine ⟨fun c₁ id c₂ split other => ?_, last, behind⟩
      refine (other_stays some' split (unlisted id other)).mp (others _ id ?_ other)
      rw [split]
      simp
    · rintro ⟨pinned, last, behind⟩
      refine ⟨perm, fun i id at' other => ?_, ?_⟩
      · obtain ⟨bound, is⟩ := List.getElem?_eq_some_iff.mp at'
        have split : orderedQueueFiles C q = (orderedQueueFiles C q).take i ++
            id :: (orderedQueueFiles C q).drop (i + 1) := by
          rw [← is, List.getElem_cons_drop, List.take_append_drop]
        have stays := (other_stays some' split (unlisted id other)).mpr
          (pinned _ _ _ split other)
        rwa [List.length_take, Nat.min_eq_left (Nat.le_of_lt bound)] at stays
      · rw [filter_asked some']
        refine List.pairwise_append.mpr ⟨last, behind, fun a mem b mem' => ?_⟩
        obtain ⟨own, unplaced⟩ := mem_crowdedOut.mp mem'
        exact filling_before (List.mem_dedup.mp mem) own unplaced

end Reorder

/-- A reorder moves only what was asked, on every lane, exactly where no repeat in the request
costs a job its place. -/
theorem reorder_moves_only (C : Collation) (lanes : List Lane) (order : List String)
    (allowed : String → Bool) :
    (∀ qs ∈ lanes.zip (reorderQueue C lanes order allowed).lanes,
        MovesOnly order allowed (orderedQueueFiles C qs.1) (orderedQueueFiles C qs.2)) ↔
      ∀ q ∈ lanes, RepeatsHarmless C q order allowed := by
  have pairs : lanes.zip (reorderQueue C lanes order allowed).lanes =
      lanes.map fun q => (q, reorderLane C (order.filter allowed) q) := by
    rw [reorderQueue]
    simpa using List.zip_map' (f := id) (g := reorderLane C (order.filter allowed)) (l := lanes)
  rw [pairs, List.forall_mem_map]
  exact forall₂_congr fun q _ => reorderLane_iff

/-- Texts by their code points, as a locale puts digits. -/
def byCodePoint : Collation where
  le a b := a ≤ b
  total a b := by simpa using le_total a b
  trans a b c ab bc := by simpa using le_trans (of_decide_eq_true ab) (of_decide_eq_true bc)

/-- One lane: a job of the caller, one of another, and a second of the caller. -/
def sharedLane : Lane where
  path := "/workspace-prelim/studio/queue"
  files := ["a", "x", "b"]
  enqueuedAt id := if id = "a" then "1" else if id = "x" then "2" else "3"
  order := []
  nodup := by decide
  named := by decide

/-- The caller asks for `a`, `a` and `b`, and the other's job is admitted first. -/
theorem repeated_mention_moves_another :
    ¬ ∀ qs ∈ [sharedLane].zip (reorderQueue byCodePoint [sharedLane] ["a", "a", "b"]
        fun id => id = "a" || id = "b").lanes,
      MovesOnly ["a", "a", "b"] (fun id => id = "a" || id = "b")
        (orderedQueueFiles byCodePoint qs.1) (orderedQueueFiles byCodePoint qs.2) := by
  intro all
  have before : orderedQueueFiles byCodePoint sharedLane = ["a", "x", "b"] := by decide +kernel
  have after : orderedQueueFiles byCodePoint (reorderLane byCodePoint ["a", "a", "b"] sharedLane) =
      ["x", "a", "b"] := by decide +kernel
  have moved := (all (sharedLane, reorderLane byCodePoint ["a", "a", "b"] sharedLane)
    List.mem_cons_self).others 1 "x" (by rw [before]; rfl) rfl
  rw [after] at moved
  simp at moved

end QueueOrder

end Clearotron
