import Clearotron.Runner.Matters
import Mathlib.Data.Rat.Defs

/-!
# The allowance shown and the allowance enforced

The screen shows an account what it has spent, and admission refuses a run that would spend more.
Both count the rows of the ledgers beside the queue folders and the live markers inside them. The
files are written by other processes, so a line may be torn, may parse to something else than a
row, and may carry any number as its time.
-/

namespace Clearotron.Allowance

open Matters (Lane RunCaps effectiveCaps)

/-- A number as a line gives it; one too large to hold is read as infinite. -/
inductive Number where
  | finite (q : Rat)
  | infinite
  deriving DecidableEq

/-- A time a date can hold, in milliseconds: 100 million days before and after 1970. -/
structure Moment where
  ms : Int
  inRange : ms.natAbs ≤ 8640000000000000
  deriving DecidableEq

/-- The date of a number, which drops its fraction; none is the invalid date. -/
def dateOf : Number → Option Moment
  | .finite q =>
    if h : (q.num.tdiv q.den).natAbs ≤ 8640000000000000 ∧
        q.num.natAbs ≤ 8640000000000000 * q.den then
      some ⟨q.num.tdiv q.den, h.1⟩
    else none
  | .infinite => none

/-- The year, the month and the day of the month, of a day counted from the start of 1970. -/
def civil (day : Int) : Int × Nat × Nat :=
  let fromMarch := day + 719468
  let cycle := fromMarch / 146097
  let ofCycle := (fromMarch % 146097).toNat
  let year := (ofCycle - ofCycle / 1460 + ofCycle / 36524 - ofCycle / 146096) / 365
  let ofYear := ofCycle - (365 * year + year / 4 - year / 100)
  let month := (5 * ofYear + 2) / 153
  let ofMonth := ofYear - (153 * month + 2) / 5 + 1
  if month < 10 then (400 * cycle + year, month + 3, ofMonth)
  else (400 * cycle + year + 1, month - 9, ofMonth)

/-- A number written with so many digits. -/
def digits (width n : Nat) : List Char :=
  (List.range width).reverse.map fun place => Nat.digitChar (n / 10 ^ place % 10)

/-- A year outside the four digits is written with a sign and six. -/
def yearText (year : Int) : List Char :=
  if 0 ≤ year ∧ year ≤ 9999 then digits 4 year.toNat
  else (if year < 0 then '-' else '+') :: digits 6 year.natAbs

def toISOString (m : Moment) : List Char :=
  let day := civil (m.ms / 86400000)
  let ms := (m.ms % 86400000).toNat
  yearText day.1 ++ '-' :: digits 2 day.2.1 ++ '-' :: digits 2 day.2.2 ++ 'T' ::
    digits 2 (ms / 3600000) ++ ':' :: digits 2 (ms / 60000 % 60) ++ ':' ::
    digits 2 (ms / 1000 % 60) ++ '.' :: digits 3 (ms % 1000) ++ ['Z']

def dayKey (m : Moment) : List Char := (toISOString m).take 10

def monthKey (m : Moment) : List Char := (toISOString m).take 7

example : toISOString ⟨1795044301007, by decide⟩ = "2026-11-18T23:25:01.007Z".toList ∧
    monthKey ⟨-62198755200000, by decide⟩ = "-000001".toList := by
  decide +kernel

/-- A field of a parsed line, as far as the readers compare it. -/
inductive Field where
  /-- missing, or null -/
  | nothing
  | text (s : String)
  | other
  deriving DecidableEq

/-- `(field ?? null) === value` -/
def Field.is : Field → Option String → Bool
  | nothing, none => true
  | text s, some value => s = value
  | _, _ => false

/-- An object of the ledger. -/
structure Entry where
  profileKey : Field := .nothing
  organisation : Field := .nothing
  /-- the time, where it is a number -/
  ts : Option Number := none
  clientPrincipal : Bool := false
  failed : Bool := false
  deriving DecidableEq

/-- A line of the ledger. -/
inductive Line where
  /-- a line that is empty or does not parse -/
  | torn
  | null
  /-- a value that has no fields, and whether it is a truthy one -/
  | other (truthy : Bool)
  | row (e : Entry)
  deriving DecidableEq

/-- The value `readMatterLedger` keeps of a line. -/
def Line.entry? : Line → Option Entry
  | torn => none
  | null => none
  | other truthy => if truthy then some {} else none
  | row e => some e

/-- A live marker that could be read. -/
structure Marker where
  profileKey : Field
  tenant : Field

/-- Where a path leads: its segments, the last one first. -/
structure Place where
  absolute : Bool
  segments : List (List Char)
  deriving DecidableEq

/-- One segment of a path; two dots climb, as far as there is something to climb from. -/
def Place.enter (place : Place) (segment : List Char) : Place :=
  if segment = [] ∨ segment = ['.'] then place
  else if segment = ['.', '.'] then
    match place.segments with
    | [] => if place.absolute then place else { place with segments := [segment] }
    | last :: rest =>
      if last = ['.', '.'] then { place with segments := segment :: place.segments }
      else { place with segments := rest }
  else { place with segments := segment :: place.segments }

def placeOf (path : List Char) : Place :=
  (path.splitOn '/').foldl Place.enter ⟨path.head? = some '/', []⟩

def dirname (path : List Char) : List Char :=
  match (path.reverse.dropWhile (· = '/')).dropWhile (· ≠ '/') with
  | [] => if path.head? = some '/' then ['/'] else ['.']
  | [_] => ['/']
  | [_, '/'] => ['/', '/']
  | _ :: up => up.reverse

def matterLedgerPath (qdir : String) : Place :=
  (placeOf (dirname qdir.toList)).enter ".matter-ledger.jsonl".toList

/-- The folder a name leads to; the empty name leads to none. -/
def folderOf (qdir : String) : Option Place :=
  if qdir = "" then none else some (placeOf qdir.toList)

/-- What reading a ledger brings. -/
inductive LedgerRead where
  | absent
  | unreadable
  | lines (ls : List Line)

/-- The files as the readers find them. -/
structure Disk where
  ledger : Place → LedgerRead
  /-- the names in a folder; none where it cannot be listed -/
  listing : Place → Option (List String)
  /-- a marker; none where it is gone, does not parse or has no fields to read -/
  marker : Place → String → Option Marker

/-- `isLiveQueueMarker`. -/
def isLiveQueueMarker (name : String) : Bool :=
  name.toList.tails.any fun tail =>
    tail = ".json".toList || tail = ".processing".toList || tail = ".postponed".toList ||
      (".processing.claimed-".toList.isPrefixOf tail &&
        let token := tail.drop ".processing.claimed-".length
        token ≠ [] && token.all (!Text.isSpace ·))

example : isLiveQueueMarker "a.json" = true ∧ isLiveQueueMarker "a.processing.claimed-7f" = true ∧
    isLiveQueueMarker "a.json.done" = false := by
  decide +kernel

def inLane (lane : Lane) (key org : Field) : Bool :=
  key.is (some lane.account) && (lane.account ≠ "generic" || org.is lane.organisation)

def Disk.linesAt (disk : Disk) (p : Place) : List Line :=
  match disk.ledger p with
  | .lines ls => ls
  | _ => []

/-- The live markers of a folder that could be read. -/
def Disk.live (disk : Disk) : Option Place → List Marker
  | none => []
  | some folder =>
    (((disk.listing folder).getD []).filter isLiveQueueMarker).filterMap (disk.marker folder)

/-- The live markers of the lane in a folder. -/
def queuedIn (disk : Disk) (lane : Lane) (folder : Option Place) : Nat :=
  (disk.live folder).countP fun j => inLane lane j.profileKey j.tenant

/-- What a line adds to the day and to the month; none where reading it throws. -/
def usageAdds (lane : Lane) (now : Moment) : Line → Option (Nat × Nat)
  | .torn => some (0, 0)
  | .null => none
  | .other _ => some (0, 0)
  | .row e =>
    if inLane lane e.profileKey e.organisation then
      match e.ts with
      | none => some (0, 0)
      | some ts =>
        (dateOf ts).map fun stamp =>
          (if dayKey stamp = dayKey now ∧ e.clientPrincipal = true ∧ e.failed = false then 1 else 0,
            if monthKey stamp = monthKey now then 1 else 0)
    else some (0, 0)

/-- The counts after a ledger, and whether it was read to its end: a line that throws ends it. -/
def usageScan (lane : Lane) (now : Moment) : List Line → Nat × Nat → (Nat × Nat) × Bool
  | [], counts => (counts, true)
  | l :: rest, counts =>
    match usageAdds lane now l with
    | none => (counts, false)
    | some adds => usageScan lane now rest (counts.1 + adds.1, counts.2 + adds.2)

structure Tally where
  today : Nat := 0
  thisMonth : Nat := 0
  queued : Nat := 0
  read : Bool := false
  unreadable : Bool := false

/-- What a queue folder adds. -/
def usageFolder (disk : Disk) (lane : Lane) (now : Moment) (t : Tally) (qdir : String) : Tally :=
  let ledger :=
    match disk.ledger (matterLedgerPath qdir) with
    | .absent => t
    | .unreadable => { t with unreadable := true }
    | .lines ls =>
      let counted := usageScan lane now ls (t.today, t.thisMonth)
      { t with
        read := true
        today := counted.1.1
        thisMonth := counted.1.2
        unreadable := t.unreadable || !counted.2 }
  { ledger with queued := ledger.queued + queuedIn disk lane (folderOf qdir) }

inductive Basis where
  | counted
  | noLedger
  | unreadable
  | noQueues
  deriving DecidableEq

structure Usage where
  today : Nat
  thisMonth : Nat
  queued : Nat
  basis : Basis

def Usage.complete (u : Usage) : Prop := u.basis = .counted

def accountUsage (disk : Disk) (lane : Lane) (queueDirs : List String) (now : Moment) : Usage :=
  let dirs := queueDirs.filter (· ≠ "")
  let t := dirs.foldl (usageFolder disk lane now) {}
  { today := t.today
    thisMonth := t.thisMonth
    queued := t.queued
    basis :=
      if t.unreadable then .unreadable
      else if t.read then .counted
      else if dirs ≠ [] then .noLedger
      else .noQueues }

def readMatterLedger (disk : Disk) (qdir : String) : List Entry :=
  (disk.linesAt (matterLedgerPath qdir)).filterMap Line.entry?

/-- What a row adds to the day; none where reading its time throws. -/
def dayAdds (lane : Lane) (now : Moment) (e : Entry) : Option Nat :=
  if e.failed = true then some 0
  else if inLane lane e.profileKey e.organisation = true ∧ e.clientPrincipal = true then
    match e.ts with
    | none => some 0
    | some ts => (dateOf ts).map fun stamp => if dayKey stamp = dayKey now then 1 else 0
  else some 0

/-- What a row adds to the month; none where reading its time throws. -/
def monthAdds (lane : Lane) (now : Moment) (e : Entry) : Option Nat :=
  if inLane lane e.profileKey e.organisation = true then
    match e.ts with
    | none => some 0
    | some ts => (dateOf ts).map fun stamp => if monthKey stamp = monthKey now then 1 else 0
  else some 0

/-- The rows of every ledger counted, unless one throws. -/
def wallCount (disk : Disk) (queueDirs : List String) (adds : Entry → Option Nat) : Option Nat :=
  (queueDirs.flatMap (readMatterLedger disk)).foldlM (fun n e => (adds e).map (n + ·)) 0

def wallQueued (disk : Disk) (lane : Lane) (queueDirs : List String) : Nat :=
  (queueDirs.map fun qdir => queuedIn disk lane (folderOf qdir)).sum

/-- Why admission refuses a run, with the number it compared and the cap. -/
inductive Refusal where
  | queue (inFlight cap : Nat)
  | day (today cap : Nat)
  | month (count cap : Nat)
  deriving DecidableEq

/-- The lane in a refusal's words. -/
def laneName (lane : Lane) : String :=
  if lane.account = "generic" then
    match lane.organisation.filter (· ≠ "") with
    | some organisation => "Generic for " ++ organisation
    | none => "Generic"
  else lane.account

def Refusal.text (brand : String) (lane : Lane) : Refusal → String
  | queue inFlight cap =>
    "admission cap: " ++ laneName lane ++ " already has " ++ toString (inFlight - 1) ++
      " run(s) queued/in-flight (runCaps.maxQueued=" ++ toString cap ++
      ") — wait for the backlog to drain or cancel one (stop_run), then re-send"
  | day today cap =>
    "daily allowance: " ++ laneName lane ++ " has started " ++ toString today ++
      " search(es) today (runCaps.dailyRuns=" ++ toString cap ++
      ") — the allowance resets at midnight UTC, or ask your " ++ brand ++
      " contact to run this one for you"
  | month count cap =>
    "admission cap: " ++ laneName lane ++ " has started " ++ toString count ++
      " run(s) this month (runCaps.monthlyRuns=" ++ toString cap ++
      ") — the cap resets at month end; raise it in the customer profile if this is intended growth"

def queueRefusal (caps : RunCaps) (inHandTagged : Bool) (queued : Nat) : Option Refusal :=
  caps.maxQueued.bind fun cap =>
    let inFlight := queued + if inHandTagged then 0 else 1
    if cap < inFlight then some (.queue inFlight cap) else none

def dayRefusal (caps : RunCaps) (today : Nat) : Option Refusal :=
  caps.dailyRuns.bind fun cap => if cap < today + 1 then some (.day today cap) else none

def monthRefusal (caps : RunCaps) (month : Nat) : Option Refusal :=
  caps.monthlyRuns.bind fun cap => if cap < month + 1 then some (.month month cap) else none

/-- Why admission refuses a run; none outside where the check throws. A cap that is not set, and
the day of a run that no client started, reads no ledger. -/
def checkRunCaps (disk : Disk) (lane : Lane) (caps : Option RunCaps) (queueDirs : List String)
    (inHandTagged : Bool) (now : Moment) (clientRun : Bool) : Option (Option Refusal) :=
  if lane.account = "" then some none
  else
    let caps := effectiveCaps caps
    match queueRefusal caps inHandTagged (wallQueued disk lane queueDirs) with
    | some refusal => some (some refusal)
    | none => do
      let today ← if clientRun then wallCount disk queueDirs (dayAdds lane now) else some 0
      match if clientRun then dayRefusal caps today else none with
      | some refusal => some (some refusal)
      | none =>
        if caps.monthlyRuns.isSome then
          let month ← wallCount disk queueDirs (monthAdds lane now)
          some (monthRefusal caps month)
        else some none

end Clearotron.Allowance
