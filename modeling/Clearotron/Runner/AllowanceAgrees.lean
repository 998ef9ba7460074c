import Clearotron.Runner.Allowance
import Mathlib.Algebra.BigOperators.Group.Finset.Basic
import Mathlib.Algebra.Order.BigOperators.Group.Finset
import Mathlib.Algebra.Order.BigOperators.Group.List
import Mathlib.Algebra.Group.Action.Defs

/-!
# Where the allowance shown is the one enforced

The two readers agree, and count each row and each marker once, exactly where no ledger holds the
line `null`, every time that is counted is one a date can hold, and no ledger that is counted and
no marker is reached from two of the folders.
-/

namespace Clearotron.Allowance

open Matters (Lane RunCaps effectiveCaps)

section

variable {α : Type*} [BEq α] [LawfulBEq α] [deq : DecidableEq α] {f : α → Nat}

/-- A sum over a list is the one over what it holds where nothing that counts stands twice. -/
theorem sum_map_eq_sum_toFinset_iff {l : List α} :
    (l.map f).sum = ∑ x ∈ l.toFinset, f x ↔ ∀ x ∈ l, f x ≠ 0 → l.count x = 1 := by
  have beq : ‹BEq α› = instBEqOfDecidableEq := lawful_beq_subsingleton _ _
  subst beq
  rw [Finset.sum_list_map_count, eq_comm, Finset.sum_eq_sum_iff_of_le]
  · constructor
    · intro same x mem counts
      have own := same x (List.mem_toFinset.2 mem)
      rw [smul_eq_mul] at own
      exact Nat.eq_of_mul_eq_mul_right (Nat.pos_of_ne_zero counts) (by rw [one_mul]; exact own.symm)
    · intro alone x mem
      rw [smul_eq_mul]
      rcases Nat.eq_zero_or_pos (f x) with none | counts
      · rw [none, mul_zero]
      · rw [alone x (List.mem_toFinset.1 mem) (Nat.pos_iff_ne_zero.1 counts), one_mul]
  · intro x mem
    rw [smul_eq_mul]
    exact Nat.le_mul_of_pos_left _ (List.count_pos_iff.2 (List.mem_toFinset.1 mem))

end

/-- What a filter drops adds nothing exactly where the sum stays. -/
theorem sum_map_filter_eq_iff {α : Type*} {p : α → Bool} {f : α → Nat} (l : List α) :
    ((l.filter p).map f).sum = (l.map f).sum ↔ ∀ x ∈ l, p x = false → f x = 0 := by
  have le : ∀ l : List α, ((l.filter p).map f).sum ≤ (l.map f).sum := fun l =>
    (List.filter_sublist.map f).sum_le_sum fun _ _ => Nat.zero_le _
  induction l with
  | nil => simp
  | cons x l ih =>
    cases own : p x with
    | true =>
      rw [List.filter_cons_of_pos own, List.map_cons, List.map_cons, List.sum_cons, List.sum_cons,
        Nat.add_left_cancel_iff, List.forall_mem_cons]
      simp [own, ih]
    | false =>
      rw [List.filter_cons_of_neg (by simp [own]), List.map_cons, List.sum_cons,
        List.forall_mem_cons]
      have dropped := le l
      simp only [own, true_implies]
      constructor
      · intro same
        exact ⟨by omega, ih.1 (by omega)⟩
      · rintro ⟨zero, rest⟩
        rw [ih.2 rest, zero, Nat.zero_add]

def Field.named : Field → Bool
  | other => false
  | _ => true

/-- Does a key with an organisation name a lane? -/
def isCharged (key org : Field) : Bool :=
  match key with
  | .text account => account ≠ "" && (account ≠ "generic" || org.named)
  | _ => false

theorem isCharged_iff {key org : Field} :
    isCharged key org = true ↔ ∃ lane : Lane, lane.account ≠ "" ∧ inLane lane key org = true := by
  cases key with
  | nothing => simp [isCharged, inLane, Field.is]
  | other => simp [isCharged, inLane, Field.is]
  | text account =>
    constructor
    · intro charged
      simp only [isCharged, ne_eq, Bool.and_eq_true, decide_eq_true_eq, Bool.or_eq_true] at charged
      cases org with
      | nothing => exact ⟨⟨account, none⟩, charged.1, by simp [inLane, Field.is]⟩
      | text organisation =>
        exact ⟨⟨account, some organisation⟩, charged.1, by simp [inLane, Field.is]⟩
      | other =>
        refine ⟨⟨account, none⟩, charged.1, ?_⟩
        simpa [inLane, Field.is, Field.named] using charged.2
    · rintro ⟨lane, named, held⟩
      simp only [inLane, Field.is, Bool.and_eq_true, decide_eq_true_eq, Bool.or_eq_true] at held
      obtain ⟨rfl, held⟩ := held
      simp only [isCharged, Bool.and_eq_true, decide_eq_true_eq, Bool.or_eq_true]
      refine ⟨named, held.imp_right fun own => ?_⟩
      cases org with
      | nothing => rfl
      | text _ => rfl
      | other => cases lane.organisation <;> simp at own

/-- Does the row name a lane and a time? -/
def Entry.counted (e : Entry) : Bool := isCharged e.profileKey e.organisation && e.ts.isSome

/-- Can a date hold the time of the row? -/
def Entry.dated (e : Entry) : Bool := (e.ts.bind dateOf).isSome

def Entry.isToday (lane : Lane) (now : Moment) (e : Entry) : Bool :=
  inLane lane e.profileKey e.organisation && e.clientPrincipal && !e.failed &&
    (e.ts.bind dateOf).any (dayKey · = dayKey now)

def Entry.isThisMonth (lane : Lane) (now : Moment) (e : Entry) : Bool :=
  inLane lane e.profileKey e.organisation && (e.ts.bind dateOf).any (monthKey · = monthKey now)

/-- A line no row can be read from. -/
def Line.unreadable : Line → Bool
  | .row e => e.ts.isSome && !e.dated
  | _ => true

/-- The lines of a ledger that count. -/
def countAt (disk : Disk) (counts : Entry → Bool) (p : Place) : Nat :=
  (disk.linesAt p).countP fun l => l.entry?.any counts

/-- The rows that count, of every ledger beside one of the folders. -/
def rowsOnce (disk : Disk) (queueDirs : List String) (counts : Entry → Bool) : Nat :=
  ∑ p ∈ (queueDirs.map matterLedgerPath).toFinset, countAt disk counts p

/-- The live markers of the lane, of every folder. -/
def markersOnce (disk : Disk) (lane : Lane) (queueDirs : List String) : Nat :=
  ∑ folder ∈ (queueDirs.map folderOf).toFinset, queuedIn disk lane folder

/-- Does admission fail on the line, with these caps, for a run a client started? -/
def wallFails (lane : Lane) (caps : Option RunCaps) (now : Moment) (l : Line) : Bool :=
  l.entry?.any fun e => (dayAdds lane now e).isNone ||
    ((effectiveCaps caps).monthlyRuns.isSome && (monthAdds lane now e).isNone)

/-- The daily cap in force. -/
def dailyCap (caps : Option RunCaps) : Nat :=
  (caps.bind RunCaps.dailyRuns).getD Matters.defaultClientDailyRuns

/-- The allowance shown is the one enforced. -/
structure Agrees (disk : Disk) (queueDirs : List String) : Prop where
  /-- a complete answer holds the numbers admission compares, in the order it compares them -/
  compared : ∀ (lane : Lane) (caps : Option RunCaps) (inHandTagged : Bool) (now : Moment),
    lane.account ≠ "" →
      let u := accountUsage disk lane queueDirs now
      let refused := checkRunCaps disk lane caps queueDirs inHandTagged now true
      let full := queueRefusal (effectiveCaps caps) inHandTagged u.queued
      u.complete →
        (∀ refusal, full = some refusal → refused = some (some refusal)) ∧
        (full = none →
          (refused = some (some (.day u.today (dailyCap caps))) ↔ ¬ u.today < dailyCap caps) ∧
          (u.today < dailyCap caps →
            refused = some (monthRefusal (effectiveCaps caps) u.thisMonth) ∧
            ∀ cap, (effectiveCaps caps).monthlyRuns = some cap →
              (refused = some (some (.month u.thisMonth cap)) ↔ ¬ u.thisMonth < cap)))
  /-- both readers count each row and each marker once -/
  once : ∀ (lane : Lane) (now : Moment), lane.account ≠ "" →
    let u := accountUsage disk lane queueDirs now
    let today := rowsOnce disk queueDirs (·.isToday lane now)
    let thisMonth := rowsOnce disk queueDirs (·.isThisMonth lane now)
    u.today = today ∧ u.thisMonth = thisMonth ∧ u.queued = markersOnce disk lane queueDirs ∧
      wallCount disk queueDirs (dayAdds lane now) = some today ∧
      wallCount disk queueDirs (monthAdds lane now) = some thisMonth ∧
      wallQueued disk lane queueDirs = markersOnce disk lane queueDirs
  /-- a ledger reads as it does without a line that cannot be read -/
  alone : ∀ qdir ∈ queueDirs, qdir ≠ "" → ∀ front l back,
    disk.linesAt (matterLedgerPath qdir) = front ++ l :: back → l.unreadable = true →
      ∀ (lane : Lane) (now : Moment), lane.account ≠ "" →
        usageScan lane now (front ++ l :: back) (0, 0) = usageScan lane now (front ++ back) (0, 0) ∧
        ∀ adds ∈ [dayAdds lane now, monthAdds lane now],
          ((front ++ l :: back).filterMap Line.entry?).foldlM (fun n e => (adds e).map (n + ·)) 0 =
            ((front ++ back).filterMap Line.entry?).foldlM (fun n e => (adds e).map (n + ·)) 0
  /-- the readers fail on the same lines -/
  tolerated : ∀ qdir ∈ queueDirs, qdir ≠ "" → ∀ l ∈ disk.linesAt (matterLedgerPath qdir),
    ∀ (lane : Lane) (caps : Option RunCaps) (now : Moment), lane.account ≠ "" →
      ((usageAdds lane now l).isNone = true ↔ wallFails lane caps now l = true)

/-- Every line both readers take can be read by both, and each is reached once. -/
structure Plain (disk : Disk) (queueDirs : List String) : Prop where
  parsed : ∀ qdir ∈ queueDirs, qdir ≠ "" → .null ∉ disk.linesAt (matterLedgerPath qdir)
  dated : ∀ qdir ∈ queueDirs, ∀ e, .row e ∈ disk.linesAt (matterLedgerPath qdir) →
    e.counted = true → e.dated = true
  ledgers : ∀ qdir ∈ queueDirs, ∀ e, .row e ∈ disk.linesAt (matterLedgerPath qdir) →
    e.counted = true →
      qdir ≠ "" ∧ (queueDirs.map matterLedgerPath).count (matterLedgerPath qdir) = 1
  folders : ∀ qdir ∈ queueDirs, ∀ j ∈ disk.live (folderOf qdir),
    isCharged j.profileKey j.tenant = true → (queueDirs.map folderOf).count (folderOf qdir) = 1

section

variable {disk : Disk} {queueDirs : List String} {lane : Lane} {now : Moment}

theorem isCharged_of_inLane {key org : Field} (named : lane.account ≠ "")
    (held : inLane lane key org = true) : isCharged key org = true :=
  isCharged_iff.2 ⟨lane, named, held⟩

/-- The time of a row of the lane is one a date holds, where that is so of the rows that count. -/
theorem dated_of_inLane {e : Entry} {ts : Number} (sound : e.counted = true → e.dated = true)
    (named : lane.account ≠ "") (held : inLane lane e.profileKey e.organisation = true)
    (timed : e.ts = some ts) : ∃ stamp, dateOf ts = some stamp := by
  have dated : e.dated = true :=
    sound (by simp [Entry.counted, isCharged_of_inLane named held, timed])
  rw [Entry.dated, timed, Option.bind_some] at dated
  exact Option.isSome_iff_exists.1 dated

theorem dayAdds_eq {e : Entry} (sound : e.counted = true → e.dated = true)
    (named : lane.account ≠ "") : dayAdds lane now e = some (e.isToday lane now).toNat := by
  unfold dayAdds Entry.isToday
  cases held : inLane lane e.profileKey e.organisation with
  | false => simp
  | true =>
    cases failed : e.failed with
    | true => simp
    | false =>
      cases client : e.clientPrincipal with
      | false => simp
      | true =>
        cases timed : e.ts with
        | none => simp
        | some ts =>
          obtain ⟨stamp, own⟩ := dated_of_inLane sound named held timed
          by_cases same : dayKey stamp = dayKey now <;> simp [own, same]

theorem monthAdds_eq {e : Entry} (sound : e.counted = true → e.dated = true)
    (named : lane.account ≠ "") : monthAdds lane now e = some (e.isThisMonth lane now).toNat := by
  unfold monthAdds Entry.isThisMonth
  cases held : inLane lane e.profileKey e.organisation with
  | false => simp
  | true =>
    cases timed : e.ts with
    | none => simp
    | some ts =>
      obtain ⟨stamp, own⟩ := dated_of_inLane sound named held timed
      by_cases same : monthKey stamp = monthKey now <;> simp [own, same]

theorem usageAdds_eq {l : Line} (now : Moment) (parsed : l ≠ .null)
    (sound : ∀ e, l = .row e → e.counted = true → e.dated = true) (named : lane.account ≠ "") :
    usageAdds lane now l = some ((l.entry?.any (·.isToday lane now)).toNat,
      (l.entry?.any (·.isThisMonth lane now)).toNat) := by
  cases l with
  | torn => rfl
  | null => exact absurd rfl parsed
  | other truthy =>
    cases truthy <;>
      simp [usageAdds, Line.entry?, Entry.isToday, Entry.isThisMonth, inLane, Field.is]
  | row e =>
    unfold usageAdds Entry.isToday Entry.isThisMonth
    simp only [Line.entry?, Option.any_some]
    cases held : inLane lane e.profileKey e.organisation with
    | false => simp
    | true =>
      cases timed : e.ts with
      | none => simp
      | some ts =>
        obtain ⟨stamp, own⟩ := dated_of_inLane (sound e rfl) named held timed
        by_cases month : monthKey stamp = monthKey now <;>
          by_cases day : dayKey stamp = dayKey now <;>
          cases client : e.clientPrincipal <;> cases failed : e.failed <;> simp [own, month, day]

theorem counted_of_isThisMonth {e : Entry} (named : lane.account ≠ "")
    (counts : e.isThisMonth lane now = true) : e.counted = true := by
  unfold Entry.isThisMonth at counts
  rw [Bool.and_eq_true] at counts
  rw [Entry.counted, isCharged_of_inLane named counts.1, Bool.true_and]
  cases timed : e.ts with
  | none => simp [timed] at counts
  | some _ => rfl

theorem counted_of_isToday {e : Entry} (named : lane.account ≠ "")
    (counts : e.isToday lane now = true) : e.counted = true := by
  unfold Entry.isToday at counts
  simp only [Bool.and_eq_true] at counts
  rw [Entry.counted, isCharged_of_inLane named counts.1.1.1, Bool.true_and]
  cases timed : e.ts with
  | none => simp [timed] at counts
  | some _ => rfl

/-- What a line carries is its row, or a value without fields. -/
theorem entry?_eq_some {l : Line} {e : Entry} (own : l.entry? = some e) : l = .row e ∨ e = {} := by
  cases l with
  | torn => cases own
  | null => cases own
  | other truthy =>
    cases truthy with
    | false => cases own
    | true => exact .inr (Option.some.inj own).symm
  | row _ => exact .inl (congrArg Line.row (Option.some.inj own))

theorem usageScan_eq {today thisMonth : Line → Bool} {ls : List Line}
    (adds : ∀ l ∈ ls, usageAdds lane now l = some ((today l).toNat, (thisMonth l).toNat))
    (counts : Nat × Nat) : usageScan lane now ls counts =
      ((counts.1 + ls.countP today, counts.2 + ls.countP thisMonth), true) := by
  induction ls generalizing counts with
  | nil => rfl
  | cons l ls ih =>
    rw [List.forall_mem_cons] at adds
    rw [usageScan, adds.1]
    simp only [ih adds.2, List.countP_cons]
    cases today l <;> cases thisMonth l <;> simp <;> omega

theorem foldlM_eq {adds : Entry → Option Nat} (counts : Entry → Bool) {es : List Entry}
    (own : ∀ e ∈ es, adds e = some (counts e).toNat) (n : Nat) :
    es.foldlM (fun n e => (adds e).map (n + ·)) n = some (n + es.countP counts) := by
  induction es generalizing n with
  | nil => rfl
  | cons e es ih =>
    rw [List.forall_mem_cons] at own
    rw [List.foldlM_cons, own.1]
    simp only [Option.map_some, Option.bind_eq_bind, Option.bind_some, ih own.2, List.countP_cons]
    cases counts e with
    | false => simp
    | true =>
      simp
      omega

/-- A count that does not throw has read every row. -/
theorem isSome_of_foldlM {adds : Entry → Option Nat} {es : List Entry} {n m : Nat}
    (read : es.foldlM (fun n e => (adds e).map (n + ·)) n = some m) :
    ∀ e ∈ es, (adds e).isSome = true := by
  induction es generalizing n with
  | nil => simp
  | cons e es ih =>
    rw [List.foldlM_cons] at read
    cases own : adds e with
    | none => simp [own] at read
    | some k =>
      simp only [own, Option.map_some, Option.bind_eq_bind, Option.bind_some] at read
      exact List.forall_mem_cons.2 ⟨by simp [own], ih read⟩

/-- A ledger both readers take whole. -/
def Sound (disk : Disk) (qdir : String) : Prop :=
  .null ∉ disk.linesAt (matterLedgerPath qdir) ∧
    ∀ e, .row e ∈ disk.linesAt (matterLedgerPath qdir) → e.counted = true → e.dated = true

@[simp] theorem queuedIn_none : queuedIn disk lane none = 0 := rfl

/-- What a folder adds to the counts. -/
theorem usageFolder_counts {qdir : String} (sound : Sound disk qdir) (named : lane.account ≠ "")
    (now : Moment) (t : Tally) :
    (usageFolder disk lane now t qdir).today =
        t.today + countAt disk (·.isToday lane now) (matterLedgerPath qdir) ∧
      (usageFolder disk lane now t qdir).thisMonth =
        t.thisMonth + countAt disk (·.isThisMonth lane now) (matterLedgerPath qdir) := by
  obtain ⟨parsed, dated⟩ := sound
  unfold usageFolder countAt Disk.linesAt
  unfold Disk.linesAt at parsed dated
  cases read : disk.ledger (matterLedgerPath qdir) with
  | absent => simp
  | unreadable => simp
  | lines ls =>
    simp only [read] at parsed dated
    have adds := fun l (mem : l ∈ ls) => usageAdds_eq now (fun null => parsed (null ▸ mem))
      (fun e row => dated e (row ▸ mem)) named
    simp only [usageScan_eq adds, and_self]

theorem usageFolder_queued (qdir : String) (t : Tally) :
    (usageFolder disk lane now t qdir).queued = t.queued + queuedIn disk lane (folderOf qdir) := by
  unfold usageFolder
  cases disk.ledger (matterLedgerPath qdir) <;> rfl

theorem foldl_counts {dirs : List String} (sound : ∀ qdir ∈ dirs, Sound disk qdir)
    (named : lane.account ≠ "") (now : Moment) (t : Tally) :
    (dirs.foldl (usageFolder disk lane now) t).today = t.today +
        (dirs.map fun qdir => countAt disk (·.isToday lane now) (matterLedgerPath qdir)).sum ∧
      (dirs.foldl (usageFolder disk lane now) t).thisMonth = t.thisMonth +
        (dirs.map fun qdir =>
          countAt disk (·.isThisMonth lane now) (matterLedgerPath qdir)).sum := by
  induction dirs generalizing t with
  | nil => simp
  | cons qdir dirs ih =>
    rw [List.forall_mem_cons] at sound
    have own := usageFolder_counts sound.1 named now t
    have rest := ih sound.2 (usageFolder disk lane now t qdir)
    rw [own.1, own.2] at rest
    simp only [List.foldl_cons, List.map_cons, List.sum_cons]
    omega

theorem foldl_queued (dirs : List String) (t : Tally) :
    (dirs.foldl (usageFolder disk lane now) t).queued = t.queued +
      (dirs.map fun qdir => queuedIn disk lane (folderOf qdir)).sum := by
  induction dirs generalizing t with
  | nil => simp
  | cons qdir dirs ih =>
    rw [List.foldl_cons, ih, usageFolder_queued, List.map_cons, List.sum_cons, Nat.add_assoc]

/-- The folder without a name lists no marker, so the two count the same. -/
theorem usage_queued : (accountUsage disk lane queueDirs now).queued =
    wallQueued disk lane queueDirs := by
  unfold accountUsage wallQueued
  simp only [foldl_queued, Nat.zero_add]
  rw [sum_map_filter_eq_iff]
  intro qdir _ empty
  have : qdir = "" := by simpa using empty
  rw [this]
  rfl

theorem usage_counts (sound : ∀ qdir ∈ queueDirs, qdir ≠ "" → Sound disk qdir)
    (named : lane.account ≠ "") (now : Moment) :
    let dirs := queueDirs.filter (· ≠ "")
    (accountUsage disk lane queueDirs now).today =
        (dirs.map fun qdir => countAt disk (·.isToday lane now) (matterLedgerPath qdir)).sum ∧
      (accountUsage disk lane queueDirs now).thisMonth =
        (dirs.map fun qdir => countAt disk (·.isThisMonth lane now) (matterLedgerPath qdir)).sum := by
  have kept : ∀ qdir ∈ queueDirs.filter (· ≠ ""), Sound disk qdir :=
    fun qdir mem => sound qdir (List.mem_filter.1 mem).1 (by simpa using (List.mem_filter.1 mem).2)
  simpa [accountUsage] using foldl_counts kept named now {}

/-- The wall's count, where no row throws. -/
theorem wallCount_eq {adds : Entry → Option Nat} (counts : Entry → Bool)
    (own : ∀ qdir ∈ queueDirs, ∀ e ∈ readMatterLedger disk qdir, adds e = some (counts e).toNat) :
    wallCount disk queueDirs adds = some
      (queueDirs.map fun qdir => countAt disk counts (matterLedgerPath qdir)).sum := by
  unfold wallCount
  rw [foldlM_eq counts, Nat.zero_add]
  · congr 1
    rw [List.countP_flatMap]
    congr 1
    refine List.map_congr_left fun qdir _ => ?_
    rw [Function.comp_apply, readMatterLedger, List.countP_filterMap, countAt]
    refine List.countP_congr fun l _ => ?_
    cases l.entry? <;> simp
  · intro e mem
    obtain ⟨qdir, dir, read⟩ := List.mem_flatMap.1 mem
    exact own qdir dir e read

theorem isSome_of_wallCount {adds : Entry → Option Nat} {n : Nat}
    (read : wallCount disk queueDirs adds = some n) :
    ∀ qdir ∈ queueDirs, ∀ e ∈ readMatterLedger disk qdir, (adds e).isSome = true :=
  fun qdir dir e mem => isSome_of_foldlM read e (List.mem_flatMap.2 ⟨qdir, dir, mem⟩)

theorem mem_readMatterLedger {qdir : String} {e : Entry}
    (row : .row e ∈ disk.linesAt (matterLedgerPath qdir)) : e ∈ readMatterLedger disk qdir :=
  List.mem_filterMap.2 ⟨.row e, row, rfl⟩

theorem row_of_mem {qdir : String} {e : Entry} (mem : e ∈ readMatterLedger disk qdir)
    (counted : e.counted = true) : .row e ∈ disk.linesAt (matterLedgerPath qdir) := by
  obtain ⟨l, line, own⟩ := List.mem_filterMap.1 mem
  rcases entry?_eq_some own with rfl | rfl
  · exact line
  · cases counted

/-- A ledger that counts holds a row that does. -/
theorem exists_row_of_countAt {qdir : String} {counts : Entry → Bool}
    (some' : countAt disk counts (matterLedgerPath qdir) ≠ 0) :
    ∃ e ∈ readMatterLedger disk qdir, counts e = true := by
  obtain ⟨l, line, own⟩ := List.countP_pos_iff.1 (Nat.pos_of_ne_zero some')
  cases carried : l.entry? with
  | none => simp [carried] at own
  | some e =>
    rw [carried, Option.any_some] at own
    exact ⟨e, List.mem_filterMap.2 ⟨l, line, carried⟩, own⟩

theorem Plain.sound (plain : Plain disk queueDirs) :
    ∀ qdir ∈ queueDirs, qdir ≠ "" → Sound disk qdir :=
  fun qdir dir named => ⟨plain.parsed qdir dir named, plain.dated qdir dir⟩

theorem Plain.sound_entry (plain : Plain disk queueDirs) {qdir : String} (dir : qdir ∈ queueDirs)
    {e : Entry} (mem : e ∈ readMatterLedger disk qdir) (counted : e.counted = true) :
    e.dated = true :=
  plain.dated qdir dir e (row_of_mem mem counted) counted

theorem Plain.usageAdds_line (plain : Plain disk queueDirs) {qdir : String}
    (dir : qdir ∈ queueDirs) (folder : qdir ≠ "") {l : Line}
    (mem : l ∈ disk.linesAt (matterLedgerPath qdir)) (named : lane.account ≠ "") :
    usageAdds lane now l = some ((l.entry?.any (·.isToday lane now)).toNat,
      (l.entry?.any (·.isThisMonth lane now)).toNat) :=
  usageAdds_eq now (fun null => plain.parsed qdir dir folder (null ▸ mem))
    (fun e row => plain.dated qdir dir e (row ▸ mem)) named

/-- The rows of every folder are the rows of every ledger, and the folder without a name adds
none. -/
theorem Plain.rows_once (plain : Plain disk queueDirs) (counts : Entry → Bool)
    (charged : ∀ e, counts e = true → e.counted = true) :
    (queueDirs.map fun qdir => countAt disk counts (matterLedgerPath qdir)).sum =
        rowsOnce disk queueDirs counts ∧
      ((queueDirs.filter (· ≠ "")).map fun qdir =>
        countAt disk counts (matterLedgerPath qdir)).sum = rowsOnce disk queueDirs counts := by
  have alone : ∀ qdir ∈ queueDirs, countAt disk counts (matterLedgerPath qdir) ≠ 0 →
      qdir ≠ "" ∧ (queueDirs.map matterLedgerPath).count (matterLedgerPath qdir) = 1 := by
    intro qdir dir counted
    obtain ⟨e, mem, own⟩ := exists_row_of_countAt counted
    exact plain.ledgers qdir dir e (row_of_mem mem (charged e own)) (charged e own)
  have whole : (queueDirs.map fun qdir => countAt disk counts (matterLedgerPath qdir)).sum =
      rowsOnce disk queueDirs counts := by
    have sums := (sum_map_eq_sum_toFinset_iff (f := countAt disk counts)
      (l := queueDirs.map matterLedgerPath)).2 (by
        simp only [List.forall_mem_map]
        exact fun qdir dir counted => (alone qdir dir counted).2)
    rw [List.map_map] at sums
    exact sums
  refine ⟨whole, Eq.trans ?_ whole⟩
  rw [sum_map_filter_eq_iff]
  intro qdir dir empty
  by_contra counted
  have named := (alone qdir dir counted).1
  simp [named] at empty

theorem Plain.markers_once (plain : Plain disk queueDirs) (named : lane.account ≠ "") :
    wallQueued disk lane queueDirs = markersOnce disk lane queueDirs := by
  have sums := (sum_map_eq_sum_toFinset_iff (f := queuedIn disk lane)
    (l := queueDirs.map folderOf)).2 (by
      simp only [List.forall_mem_map]
      intro qdir dir queued
      obtain ⟨j, live, own⟩ := List.countP_pos_iff.1 (Nat.pos_of_ne_zero queued)
      exact plain.folders qdir dir j live (isCharged_of_inLane named own))
  rw [List.map_map] at sums
  exact sums

theorem Plain.once (plain : Plain disk queueDirs) (named : lane.account ≠ "") (now : Moment) :
    let u := accountUsage disk lane queueDirs now
    let today := rowsOnce disk queueDirs (·.isToday lane now)
    let thisMonth := rowsOnce disk queueDirs (·.isThisMonth lane now)
    u.today = today ∧ u.thisMonth = thisMonth ∧ u.queued = markersOnce disk lane queueDirs ∧
      wallCount disk queueDirs (dayAdds lane now) = some today ∧
      wallCount disk queueDirs (monthAdds lane now) = some thisMonth ∧
      wallQueued disk lane queueDirs = markersOnce disk lane queueDirs := by
  have shown := usage_counts plain.sound named now
  have days := plain.rows_once (·.isToday lane now) fun _ => counted_of_isToday named
  have months := plain.rows_once (·.isThisMonth lane now)
    fun _ => counted_of_isThisMonth named
  have markers := plain.markers_once named
  refine ⟨shown.1.trans days.2, shown.2.trans months.2, usage_queued.trans markers, ?_, ?_, markers⟩
  · rw [wallCount_eq (·.isToday lane now), days.1]
    exact fun qdir dir e mem => dayAdds_eq (plain.sound_entry dir mem) named
  · rw [wallCount_eq (·.isThisMonth lane now), months.1]
    exact fun qdir dir e mem => monthAdds_eq (plain.sound_entry dir mem) named

theorem effectiveCaps_dailyRuns (caps : Option RunCaps) :
    (effectiveCaps caps).dailyRuns = some (dailyCap caps) := by
  cases caps <;> rfl

/-- Where both count the same, admission's answer is read off the numbers shown. -/
theorem checkRunCaps_eq {caps : Option RunCaps} {inHandTagged : Bool} {today thisMonth : Nat}
    (named : lane.account ≠ "")
    (day : wallCount disk queueDirs (dayAdds lane now) = some today)
    (month : wallCount disk queueDirs (monthAdds lane now) = some thisMonth) :
    checkRunCaps disk lane caps queueDirs inHandTagged now true =
      some (queueRefusal (effectiveCaps caps) inHandTagged (wallQueued disk lane queueDirs) <|>
        dayRefusal (effectiveCaps caps) today <|> monthRefusal (effectiveCaps caps) thisMonth) := by
  unfold checkRunCaps
  rw [if_neg named]
  cases full : queueRefusal (effectiveCaps caps) inHandTagged (wallQueued disk lane queueDirs) with
  | some _ => simp [full]
  | none =>
    cases spent : dayRefusal (effectiveCaps caps) today with
    | some _ => simp [full, day, spent]
    | none =>
      cases own : (effectiveCaps caps).monthlyRuns with
      | none => simp [full, day, spent, monthRefusal, own]
      | some _ => simp [full, day, month, spent, own]

theorem dayRefusal_eq (caps : Option RunCaps) (today : Nat) :
    dayRefusal (effectiveCaps caps) today =
      if today < dailyCap caps then none else some (.day today (dailyCap caps)) := by
  rw [dayRefusal, effectiveCaps_dailyRuns, Option.bind_some]
  split <;> split <;> first | rfl | omega

theorem monthRefusal_eq {caps : RunCaps} {cap : Nat} (own : caps.monthlyRuns = some cap)
    (count : Nat) :
    monthRefusal caps count = if count < cap then none else some (.month count cap) := by
  rw [monthRefusal, own, Option.bind_some]
  split <;> split <;> first | rfl | omega

/-- A line that cannot be read adds nothing to the count of a reader that does not fail on it. -/
theorem foldlM_without {adds : Entry → Option Nat} {front back : List Line} {l : Line}
    (nothing : ∀ e, l.entry? = some e → adds e = some 0) (n : Nat) :
    ((front ++ l :: back).filterMap Line.entry?).foldlM (fun n e => (adds e).map (n + ·)) n =
      ((front ++ back).filterMap Line.entry?).foldlM (fun n e => (adds e).map (n + ·)) n := by
  rw [List.filterMap_append, List.filterMap_append, List.foldlM_append, List.foldlM_append]
  congr 1
  funext m
  cases carried : l.entry? with
  | none => rw [List.filterMap_cons_none carried]
  | some e =>
    rw [List.filterMap_cons_some carried, List.foldlM_cons, nothing e carried]
    rfl

theorem usageScan_without {front back : List Line} {l : Line}
    (nothing : usageAdds lane now l = some (0, 0)) (counts : Nat × Nat) :
    usageScan lane now (front ++ l :: back) counts = usageScan lane now (front ++ back) counts := by
  induction front generalizing counts with
  | nil => rw [List.nil_append, usageScan, nothing]; rfl
  | cons x front ih =>
    rw [List.cons_append, List.cons_append, usageScan, usageScan]
    cases usageAdds lane now x with
    | none => rfl
    | some adds => exact ih _

/-- A row whose time no date holds counts nowhere. -/
theorem not_dated_of_unreadable {l : Line} (unreadable : l.unreadable = true) {e : Entry}
    (own : l.entry? = some e) : e.ts.bind dateOf = none := by
  rcases entry?_eq_some own with rfl | rfl
  · simp only [Line.unreadable, Entry.dated, Bool.and_eq_true, Bool.not_eq_true',
      Option.isSome_eq_false_iff, Option.isNone_iff_eq_none] at unreadable
    exact unreadable.2
  · rfl

theorem Plain.agrees (plain : Plain disk queueDirs) : Agrees disk queueDirs where
  compared lane caps inHandTagged now named := by
    obtain ⟨today, thisMonth, queued, day, month, wall⟩ := plain.once named now
    intro u refused full _
    have answer : refused = some (full <|> dayRefusal (effectiveCaps caps) u.today <|>
        monthRefusal (effectiveCaps caps) u.thisMonth) := by
      simp only [refused, full, u]
      rw [checkRunCaps_eq named day month, queued, today, thisMonth, wall]
    refine ⟨fun refusal own => by rw [answer, own]; rfl, fun free => ?_⟩
    rw [answer, free, dayRefusal_eq]
    refine ⟨?_, fun below => ?_⟩
    · by_cases below : u.today < dailyCap caps
      · rw [if_pos below]
        refine iff_of_false ?_ (not_not.2 below)
        unfold monthRefusal
        cases (effectiveCaps caps).monthlyRuns with
        | none => simp
        | some cap =>
          rw [Option.bind_some]
          split <;> simp
      · simp [below]
    · rw [if_pos below]
      refine ⟨rfl, fun cap own => ?_⟩
      rw [monthRefusal_eq own]
      by_cases short : u.thisMonth < cap <;> simp [short]
  once _ now named := plain.once named now
  alone := by
    intro qdir dir folder front l back lines unreadable lane now named
    have mem : l ∈ disk.linesAt (matterLedgerPath qdir) := by simp [lines]
    have none' := @not_dated_of_unreadable l unreadable
    have own : ∀ e, l.entry? = some e → e.counted = true → e.dated = true := fun e carried =>
      plain.sound_entry dir (List.mem_filterMap.2 ⟨l, mem, carried⟩)
    refine ⟨usageScan_without ?_ _, ?_⟩
    · rw [plain.usageAdds_line dir folder mem named]
      cases carried : l.entry? with
      | none => rfl
      | some e => simp [Entry.isToday, Entry.isThisMonth, none' carried]
    · simp only [List.mem_cons, List.not_mem_nil, or_false, forall_eq_or_imp, forall_eq]
      refine ⟨foldlM_without (fun e carried => ?_) 0, foldlM_without (fun e carried => ?_) 0⟩
      · rw [dayAdds_eq (own e carried) named]
        simp [Entry.isToday, none' carried]
      · rw [monthAdds_eq (own e carried) named]
        simp [Entry.isThisMonth, none' carried]
  tolerated := by
    intro qdir dir folder l mem lane caps now named
    rw [plain.usageAdds_line dir folder mem named]
    refine iff_of_false (by simp) ?_
    unfold wallFails
    cases carried : l.entry? with
    | none => simp
    | some e =>
      have own : e.counted = true → e.dated = true :=
        plain.sound_entry dir (List.mem_filterMap.2 ⟨l, mem, carried⟩)
      rw [Option.any_some, dayAdds_eq own named, monthAdds_eq own named]
      simp

theorem Agrees.plain (agrees : Agrees disk queueDirs) : Plain disk queueDirs := by
  have parsed : ∀ qdir ∈ queueDirs, qdir ≠ "" → .null ∉ disk.linesAt (matterLedgerPath qdir) := by
    intro qdir dir folder null
    have same := agrees.tolerated qdir dir folder .null null ⟨"acme", none⟩ none ⟨0, by decide⟩
      (by decide)
    simp [usageAdds, wallFails, Line.entry?] at same
  -- the month of the lane a row is charged to reads its time
  have dated : ∀ qdir ∈ queueDirs, ∀ e, .row e ∈ disk.linesAt (matterLedgerPath qdir) →
      e.counted = true → e.dated = true := by
    intro qdir dir e row counted
    rw [Entry.counted, Bool.and_eq_true] at counted
    obtain ⟨lane, named, held⟩ := isCharged_iff.1 counted.1
    obtain ⟨ts, timed⟩ := Option.isSome_iff_exists.1 counted.2
    have wall := (agrees.once lane ⟨0, by decide⟩ named).2.2.2.2.1
    have read := isSome_of_wallCount wall qdir dir e (mem_readMatterLedger row)
    simp only [monthAdds, held, if_true, timed, Option.isSome_map] at read
    rw [Entry.dated, timed, Option.bind_some, read]
  have sound : ∀ qdir ∈ queueDirs, qdir ≠ "" → Sound disk qdir :=
    fun qdir dir folder => ⟨parsed qdir dir folder, dated qdir dir⟩
  refine ⟨parsed, dated, ?_, ?_⟩
  · -- the row counts in the month it was written in
    intro qdir dir e row counted
    have held := dated qdir dir e row counted
    rw [Entry.counted, Bool.and_eq_true] at counted
    obtain ⟨lane, named, charged⟩ := isCharged_iff.1 counted.1
    obtain ⟨now, stamp⟩ := Option.isSome_iff_exists.1 held
    have own : countAt disk (·.isThisMonth lane now) (matterLedgerPath qdir) ≠ 0 :=
      Nat.pos_iff_ne_zero.1 (List.countP_pos_iff.2 ⟨.row e, row, by
        simp [Line.entry?, Entry.isThisMonth, charged, stamp]⟩)
    obtain ⟨_, shown, _, _, wall, _⟩ := agrees.once lane now named
    rw [(usage_counts sound named now).2] at shown
    rw [wallCount_eq (·.isThisMonth lane now), Option.some.injEq] at wall
    · refine ⟨fun empty => own ?_, ?_⟩
      · exact sum_map_filter_eq_iff _ |>.1 (shown.trans wall.symm) qdir dir (by simp [empty])
      · exact sum_map_eq_sum_toFinset_iff.1 ((congrArg List.sum List.map_map).trans wall) _
          (List.mem_map_of_mem dir) own
    · intro d dir e mem
      exact monthAdds_eq (fun c => dated d dir e (row_of_mem mem c) c) named
  · intro qdir dir j live charged
    obtain ⟨lane, named, held⟩ := isCharged_iff.1 charged
    have wall := (agrees.once lane ⟨0, by decide⟩ named).2.2.2.2.2
    have own : queuedIn disk lane (folderOf qdir) ≠ 0 :=
      Nat.pos_iff_ne_zero.1 (List.countP_pos_iff.2 ⟨j, live, held⟩)
    have sums := sum_map_eq_sum_toFinset_iff (f := queuedIn disk lane) (l := queueDirs.map folderOf)
    rw [List.map_map] at sums
    exact sums.1 wall _ (List.mem_map_of_mem dir) own

end

/-- The allowance shown is the one enforced, with each row and each marker counted once, exactly
where every line can be read by both readers and is reached from one folder. -/
theorem agrees_iff_plain (disk : Disk) (queueDirs : List String) :
    Agrees disk queueDirs ↔ Plain disk queueDirs :=
  ⟨Agrees.plain, Plain.agrees⟩

/-- The ledger holds the line `null` before the row of a run. -/
def nulled : Disk where
  ledger p := if p = matterLedgerPath "/srv/studio/queue" then
      .lines [.null, .row { profileKey := .text "acme", ts := some (.finite 1763510400000) }]
    else .absent
  listing _ := none
  marker _ _ := none

/-- Admission takes the line for nothing; the screen's count of the ledger ends there. -/
theorem null_line_ends_the_count : ¬ Agrees nulled ["/srv/studio/queue"] := fun agrees =>
  agrees.plain.parsed "/srv/studio/queue" (by simp) (by decide) (by simp [nulled, Disk.linesAt])

end Clearotron.Allowance
