import Clearotron.Register.Text
import Mathlib.Algebra.Order.Ring.Nat

/-!
# The ledger of matters

Beside each queue stands a file with one line for each matter a run was started for. Admission
counts its rows against the caps of the account, looks for a run of the same matter, and writes a
row; a run that ends without success has its row marked failed, never removed.

A time is a count of milliseconds since the start of 1970, and days are counted in UTC. The month
of a day is found in the calendar's cycle of 400 years, whose years are begun in March so that the
day a leap year adds is the last one.
-/

namespace Clearotron

def dayOf (ms : Nat) : Nat := ms / 86400000

/-- The year and the month of a day. -/
def monthOfDay (day : Nat) : Nat × Nat :=
  let fromMarch := day + 719468
  let cycle := fromMarch / 146097
  let ofCycle := fromMarch % 146097
  let year := (ofCycle - ofCycle / 1460 + ofCycle / 36524 - ofCycle / 146096) / 365
  let ofYear := ofCycle - (365 * year + year / 4 - year / 100)
  let month := (5 * ofYear + 2) / 153
  if month < 10 then (400 * cycle + year, month + 3) else (400 * cycle + year + 1, month - 9)

def monthOf (ms : Nat) : Nat × Nat := monthOfDay (dayOf ms)

example : (monthOfDay 0, monthOfDay 19782, monthOfDay 19783, monthOfDay 20776) =
    ((1970, 1), (2024, 2), (2024, 3), (2026, 11)) := by decide

end Clearotron

namespace Clearotron.Matters

/-- A row of the ledger. -/
structure MatterRow where
  sig : String
  conversationId : String
  msgId : String
  ts : Option Nat
  profileKey : Option String
  organisation : Option String
  clientPrincipal : Bool
  failed : Bool
  deriving DecidableEq, Repr

/-- The lines of the file; none is one that does not parse. -/
abbrev Ledger := List (Option MatterRow)

/-- A file that is missing reads as one without lines. -/
def readMatterLedger (ledger : Ledger) : List MatterRow := ledger.filterMap id

/-- `recordMatter`: a message id has one row. -/
def recordMatter (ledger : Ledger) (entry : MatterRow) : Ledger :=
  if entry.msgId ≠ "" ∧ (readMatterLedger ledger).any (·.msgId = entry.msgId) then ledger
  else ledger ++ [some entry]

/-- The rows with those of a message id marked. -/
def markFailed (msgId : String) (rows : List MatterRow) : List MatterRow :=
  rows.map fun e => if e.msgId = msgId then { e with failed := true } else e

/-- `dropMatter` writes back the rows it has read. -/
def dropMatter (msgId : String) (rows : List MatterRow) : Ledger := (markFailed msgId rows).map some

@[simp] theorem readMatterLedger_map_some (rows : List MatterRow) :
    readMatterLedger (rows.map some) = rows := by
  simp [readMatterLedger, List.filterMap_map]

@[simp] theorem readMatterLedger_append (ledger : Ledger) (entry : MatterRow) :
    readMatterLedger (ledger ++ [some entry]) = readMatterLedger ledger ++ [entry] := by
  simp [readMatterLedger]

/-- A drop neither loses nor marks a row of another message id. -/
theorem mem_markFailed_of_ne {msgId : String} {rows : List MatterRow} {row : MatterRow}
    (other : row.msgId ≠ msgId) : row ∈ markFailed msgId rows ↔ row ∈ rows := by
  unfold markFailed
  rw [List.mem_map]
  constructor
  · rintro ⟨e, mem, rfl⟩
    split at other
    · rename_i own
      exact absurd own other
    · rename_i own
      rw [if_neg own]
      exact mem
  · exact fun mem => ⟨row, mem, if_neg other⟩

/-- `BASELINE_PRODUCT`: what a signature without a product carries. -/
def baselineProduct : String := "global-preliminary-search"

/-- The parts of a signature. -/
def sigParts (sig : String) : List String := (sig.toList.splitOn '|').map String.ofList

/-- The second part, the mark. -/
def sigMark (sig : String) : String := ((sigParts sig)[1]?).getD ""

/-- The product a signature carries. -/
def sigLevel (sig : String) : String :=
  match (sigParts sig).tail.getLast? with
  | none => baselineProduct
  | some part =>
    let level := String.ofList (part.toList.drop 6)
    if part.toList.take 6 = "level:".toList ∧ level ≠ "" then level else baselineProduct

/-- `DEDUP_WINDOW_MS`. -/
def dedupWindowMs : Nat := 24 * 3600000

/-- Is the row one of the same matter, by signature or by thread? -/
def isSameMatter (sig conversationId : String) (e : MatterRow) : Bool :=
  let curMark := sigMark sig
  let priorMark := sigMark e.sig
  let conv := Text.trim conversationId
  let marksAgree := curMark = "" || priorMark = "" || curMark = priorMark
  (curMark ≠ "" && e.sig = sig) ||
    (conv ≠ "" && e.conversationId = conv && marksAgree && sigLevel sig = sigLevel e.sig)

def findDuplicateMatter (ledger : Ledger) (sig conversationId msgId : String) (now : Nat) :
    Option MatterRow :=
  if sigMark sig = "" ∧ Text.trim conversationId = "" then none
  else (readMatterLedger ledger).find? fun e =>
    !(e.failed || e.msgId = msgId || e.ts.getD 0 + dedupWindowMs ≤ now) &&
      isSameMatter sig conversationId e

structure RunCaps where
  maxQueued : Option Nat := none
  dailyRuns : Option Nat := none
  monthlyRuns : Option Nat := none
  deriving DecidableEq, Repr

/-- `DEFAULT_CLIENT_DAILY_RUNS`. -/
def defaultClientDailyRuns : Nat := 20

/-- The caps with the daily allowance, which is never left open. -/
def effectiveCaps (caps : Option RunCaps) : RunCaps :=
  let own := caps.getD {}
  { own with dailyRuns := some (own.dailyRuns.getD defaultClientDailyRuns) }

/-- A live marker of a queue. -/
structure QueuedJob where
  profileKey : Option String
  tenant : Option String
  deriving DecidableEq, Repr

structure Queue where
  markers : List QueuedJob
  ledger : Ledger

/-- The lane of an account; the generic account has one for each organisation. -/
structure Lane where
  account : String
  organisation : Option String
  deriving DecidableEq, Repr

namespace Lane

variable (lane : Lane)

def holds (key organisation : Option String) : Bool :=
  key = some lane.account && (lane.account ≠ "generic" || organisation = lane.organisation)

def name : String :=
  if lane.account = "generic" then
    match lane.organisation with
    | some organisation => "Generic for " ++ organisation
    | none => "Generic"
  else lane.account

/-- Does the row count against a client's allowance of the day? -/
def countsToday (now : Nat) (e : MatterRow) : Bool :=
  !e.failed && lane.holds e.profileKey e.organisation && e.clientPrincipal &&
    e.ts.any (dayOf · = dayOf now)

/-- Does the row count against the account's month? A failed run has spent. -/
def countsThisMonth (now : Nat) (e : MatterRow) : Bool :=
  lane.holds e.profileKey e.organisation && e.ts.any (monthOf · = monthOf now)

def today (now : Nat) (rows : List MatterRow) : Nat := rows.countP (lane.countsToday now)

def thisMonth (now : Nat) (rows : List MatterRow) : Nat := rows.countP (lane.countsThisMonth now)

end Lane

section

variable (lane : Lane) (caps : RunCaps) (queues : List Queue) (now : Nat)

/-- The rows of every queue. -/
def ledgerRows : List MatterRow := queues.flatMap fun q => readMatterLedger q.ledger

def queuedRefusal (inHandTagged : Bool) : Option String :=
  caps.maxQueued.bind fun cap =>
    let queued := (queues.flatMap (·.markers)).countP fun j => lane.holds j.profileKey j.tenant
    let inFlight := queued + if inHandTagged then 0 else 1
    if cap < inFlight then
      some ("admission cap: " ++ lane.name ++ " already has " ++ toString (inFlight - 1) ++
        " run(s) queued/in-flight (runCaps.maxQueued=" ++ toString cap ++
        ") — wait for the backlog to drain or cancel one (stop_run), then re-send")
    else none

def dailyRefusal (brand : String) (clientRun : Bool) : Option String :=
  (caps.dailyRuns.filter fun _ => clientRun).bind fun cap =>
    let today := lane.today now (ledgerRows queues)
    if cap < today + 1 then
      some ("daily allowance: " ++ lane.name ++ " has started " ++ toString today ++
        " search(es) today (runCaps.dailyRuns=" ++ toString cap ++
        ") — the allowance resets at midnight UTC, or ask your " ++ brand ++
        " contact to run this one for you")
    else none

def monthlyRefusal : Option String :=
  caps.monthlyRuns.bind fun cap =>
    let month := lane.thisMonth now (ledgerRows queues)
    if cap < month + 1 then
      some ("admission cap: " ++ lane.name ++ " has started " ++ toString month ++
        " run(s) this month (runCaps.monthlyRuns=" ++ toString cap ++
        ") — the cap resets at month end; raise it in the customer profile if this is intended growth")
    else none

end

/-- Why the caps of an account refuse a run. -/
def checkRunCaps (brand : String) (account : Option String) (caps : Option RunCaps)
    (queues : List Queue) (inHandTagged : Bool) (now : Nat) (clientRun : Bool)
    (organisation : Option String) : Option String :=
  (account.filter (· ≠ "")).bind fun account =>
    let lane : Lane := ⟨account, organisation⟩
    let caps := effectiveCaps caps
    queuedRefusal lane caps queues inHandTagged <|>
      dailyRefusal lane caps queues now brand clientRun <|>
      monthlyRefusal lane caps queues now

section

variable {lane : Lane} {caps : RunCaps} {queues : List Queue} {now : Nat}

theorem dailyRefusal_isSome {brand : String} {clientRun : Bool} :
    (dailyRefusal lane caps queues now brand clientRun).isSome = true ↔
      clientRun = true ∧ ∃ cap, caps.dailyRuns = some cap ∧ cap < lane.today now (ledgerRows queues) + 1 := by
  unfold dailyRefusal
  cases caps.dailyRuns with
  | none => simp
  | some cap =>
    cases clientRun with
    | false => simp
    | true =>
      simp only [Option.filter_some, if_true, Option.bind_some, Option.some.injEq, exists_eq_left',
        true_and]
      split <;> simp_all

theorem monthlyRefusal_isSome : (monthlyRefusal lane caps queues now).isSome = true ↔
    ∃ cap, caps.monthlyRuns = some cap ∧ cap < lane.thisMonth now (ledgerRows queues) + 1 := by
  unfold monthlyRefusal
  cases caps.monthlyRuns with
  | none => simp
  | some cap =>
    simp only [Option.bind_some, Option.some.injEq, exists_eq_left']
    split <;> simp_all

theorem isSome_orElse (a b : Option String) : (a <|> b).isSome = (a.isSome || b.isSome) := by
  cases a with
  | none => rfl
  | some _ => rfl

/-- The caps of an account refuse a run where one of them is met. -/
theorem checkRunCaps_isSome {brand : String} {account : Option String} {own : Option RunCaps}
    {inHandTagged clientRun : Bool} {organisation : Option String} :
    (checkRunCaps brand account own queues inHandTagged now clientRun organisation).isSome = true ↔
      ∃ key, account.filter (· ≠ "") = some key ∧
        ((queuedRefusal ⟨key, organisation⟩ (effectiveCaps own) queues inHandTagged).isSome = true ∨
          (dailyRefusal ⟨key, organisation⟩ (effectiveCaps own) queues now brand clientRun).isSome = true ∨
          (monthlyRefusal ⟨key, organisation⟩ (effectiveCaps own) queues now).isSome = true) := by
  unfold checkRunCaps
  cases account.filter (· ≠ "") with
  | none => simp
  | some key =>
    simp only [Option.bind_some, isSome_orElse, Bool.or_eq_true, Option.some.injEq, exists_eq_left']

end

@[simp] theorem ledgerRows_singleton (markers : List QueuedJob) (ledger : Ledger) :
    ledgerRows [⟨markers, ledger⟩] = readMatterLedger ledger := by
  simp [ledgerRows]

/-- A job as admission reads it; its account is the one its profile resolves to. -/
structure Job where
  msgId : String
  named : msgId ≠ ""
  sig : String
  conversationId : String
  account : Option String
  tenant : Option String
  /-- does the manifest carry the account's key? -/
  tagged : Bool
  clientPrincipal : Bool
  dupOverride : Bool
  deriving DecidableEq

namespace Job

variable (job : Job)

def organisation : Option String := job.tenant.filter (· ≠ "")

/-- The account its row is charged to, and the organisation whose generic lane it is. -/
def key : Option String := job.account.filter (· ≠ "")

def chargedTo : Option String := if job.key = some "generic" then job.organisation else none

/-- The row admission writes. -/
def entry (ts : Nat) : MatterRow :=
  { sig := job.sig
    conversationId := Text.trim job.conversationId
    msgId := job.msgId
    ts := some ts
    profileKey := job.key
    organisation := job.chargedTo
    clientPrincipal := job.clientPrincipal
    failed := false }

@[simp] theorem entry_msgId (ts : Nat) : (job.entry ts).msgId = job.msgId := rfl

@[simp] theorem entry_ts (ts : Nat) : (job.entry ts).ts = some ts := rfl

@[simp] theorem entry_profileKey (ts : Nat) : (job.entry ts).profileKey = job.key := rfl

@[simp] theorem entry_organisation (ts : Nat) : (job.entry ts).organisation = job.chargedTo := rfl

@[simp] theorem entry_clientPrincipal (ts : Nat) :
    (job.entry ts).clientPrincipal = job.clientPrincipal := rfl

@[simp] theorem entry_failed (ts : Nat) : (job.entry ts).failed = false := rfl

-- the fields are rewritten one by one: compared as they stand, the two days would be divided out
theorem countsToday_entry (lane : Lane) (now ts : Nat) : lane.countsToday now (job.entry ts) =
    (lane.holds job.key job.chargedTo && job.clientPrincipal && decide (dayOf ts = dayOf now)) := by
  unfold Lane.countsToday
  rw [entry_ts, entry_profileKey, entry_organisation, entry_clientPrincipal, entry_failed,
    Option.any_some, Bool.not_false, Bool.true_and]

theorem countsThisMonth_entry (lane : Lane) (now ts : Nat) :
    lane.countsThisMonth now (job.entry ts) =
      (lane.holds job.key job.chargedTo && decide (monthOf ts = monthOf now)) := by
  unfold Lane.countsThisMonth
  rw [entry_ts, entry_profileKey, entry_organisation, Option.any_some]

end Job

/-- What admission makes of a job. -/
inductive Admission
  | refused (why : String)
  | duplicate (prior : MatterRow)
  | admitted (ledger : Ledger)
  deriving DecidableEq

/-- The end of `claimAndPrep`, on one queue: the clock is read for the caps and again for the row. -/
def admitJob (brand : String) (caps : Option RunCaps) (queue : Queue) (job : Job) (now dupNow : Nat) :
    Admission :=
  match checkRunCaps brand job.account caps [queue] job.tagged now job.clientPrincipal
    job.organisation with
  | some why => .refused why
  | none =>
    let duplicate := if job.dupOverride then none
      else findDuplicateMatter queue.ledger job.sig job.conversationId job.msgId dupNow
    match duplicate with
    | some prior => .duplicate prior
    | none => .admitted (recordMatter queue.ledger (job.entry dupNow))

end Clearotron.Matters
