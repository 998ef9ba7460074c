import Clearotron.Library.Keyed
import Clearotron.Library.Session
import Clearotron.Register.Text

/-!
# What is asked of a register, what it replies, and what an enumeration answers

A provider's tool result is an error, a text that is not JSON, or a parsed body.
An enumeration answers in exactly one of two states. The figures a body may leave
out are optional here: an absent total is `none`, never a zero.
-/

namespace Clearotron

/-- The query parameters the kernel reads, narrows or passes on. -/
structure Params where
  names : Option (List String) := none
  name : Option String := none
  owner : Option String := none
  owners : List String := []
  romanizedNames : List String := []
  goodsText : List String := []
  goodsTextGaps : List (List Nat) := []
  matchMode : Option String := none
  niceClasses : List Nat := []
  regions : Option (List String) := none
  inScopeClasses : List Nat := []
  deriving DecidableEq

namespace Params

/-- `params[namesKey].filter(Boolean)`, where the parameter is a list. -/
def allNames (q : Params) : Option (List String) :=
  q.names.map (List.filter (· ≠ ""))

/-- The names a question lists, none where it lists no names. -/
def listed (q : Params) : List String := q.allNames.getD []

/-- Is the question scoped to an owner? -/
def isOwnerScoped (q : Params) : Bool :=
  q.owner.any (Text.trim · ≠ "") || q.owners.any (· ≠ "")

/-- The distinct classes of an owner-scoped question, in the order first stated. -/
def splitClasses (q : Params) : List Nat :=
  if q.isOwnerScoped then q.niceClasses.reverse.dedup.reverse else []

/-- Can the question be asked again in region halves? A half asked as it stands
(`split = false`) reports its timeout instead. -/
def splittable (q : Params) (split : Bool) : Bool :=
  split && q.regions.any (1 < ·.length)

end Params

/-- The content fields a screen row may fill on a search row. -/
structure Content where
  markText : Option String := none
  classes : Option String := none
  status : Option String := none
  owner : Option String := none
  ownerCountry : Option String := none
  applicationDate : Option String := none
  registrationDate : Option String := none
  expiryDate : Option String := none
  markFeature : Option String := none
  deriving DecidableEq

/-- A row of the record-content call. -/
structure ScreenRow where
  uri : Option String := none
  content : Content := {}
  deriving DecidableEq

/-- A record as a search row carries it, with the screening attached to it. -/
structure Record where
  recordId : Option String := none
  uri : Option String := none
  content : Content := {}
  screen : Option ScreenRow := none
  deriving DecidableEq

/-- Fill only what the search row left out: the screen row never overwrites it. -/
def liftScreenFields (x : Record) (row : Option ScreenRow) : Record :=
  match row with
  | none => x
  | some r =>
      { x with content :=
        { markText := x.content.markText <|> r.content.markText
          classes := x.content.classes <|> r.content.classes
          status := x.content.status <|> r.content.status
          owner := x.content.owner <|> r.content.owner
          ownerCountry := x.content.ownerCountry <|> r.content.ownerCountry
          applicationDate := x.content.applicationDate <|> r.content.applicationDate
          registrationDate := x.content.registrationDate <|> r.content.registrationDate
          expiryDate := x.content.expiryDate <|> r.content.expiryDate
          markFeature := x.content.markFeature <|> r.content.markFeature } }

/-- A parsed search response. -/
structure Page where
  totalHits : Option Nat := none
  totalApproximate : Bool := false
  totalFloor : Option Nat := none
  totalCounts : Option String := none
  results : List Record := []
  hasMore : Bool := false
  capWarning : Option String := none
  deriving DecidableEq

/-- The register's floor ("at least N") on an answer that gave one instead of a
count: the flag and the number, or nothing. -/
def Page.floorOf (p : Page) : Option Nat :=
  if p.totalApproximate then p.totalFloor else none

/-- A parsed record-content response. -/
structure ScreenAnswer where
  rows : Option (List ScreenRow) := none
  errors : List String := []

/-- A tool result, as `isToolError` and `parseToolText` read it. -/
inductive Reply (α : Type) where
  | error (text : String)
  | unparsed (text : String)
  | answered (body : α)
  deriving DecidableEq

/-- What the count call replies. -/
inductive CountReply where
  | failed (reason : Option String)
  | counted (total : Option Nat) (totalCounts : Option String)
  deriving DecidableEq

/-- A rejection of a dependency's call: the code, the message and the cause's message. -/
structure Fault where
  code : Option String := none
  message : String
  cause : Option String := none

/-- One diagnostic line for a fault, the code first. -/
def faultText (fault : Fault) (place : String) : String :=
  let front := match fault.code with
    | some code => code ++ " — "
    | none => ""
  let detail := match fault.cause with
    | some cause => if cause ≠ "" ∧ cause ≠ fault.message
        then fault.message ++ " (" ++ cause ++ ")" else fault.message
    | none => fault.message
  front ++ "transport failure on the " ++ place ++
    " call (no response from the provider): " ++ detail

/-- A rejection re-enters the path a 503 takes: it is a tool error. -/
def guardToolCall {α : Type} (place : String) : Except Fault (Reply α) → Reply α
  | .ok reply => reply
  | .error fault => .error ("ERROR: " ++ faultText fault place)

/-- A rejected count is a failed count, never a number. -/
def guardCountCall (place : String) : Except Fault CountReply → CountReply
  | .ok reply => reply
  | .error fault => .failed (some (faultText fault place))

/-- A call to the provider, with what came back. -/
inductive Event where
  /-- one page of a question, asked with the previous page's response -/
  | page (q : Params) (index : Nat) (prev : Option Page) (reply : Reply Page)
  /-- the smallest search, sent for its total alone -/
  | probe (q : Params) (reply : Reply Page)
  | count (q : Params) (reply : CountReply)
  | screen (uris : List String) (classes : List Nat) (reply : Reply ScreenAnswer)

/-- The provider, and the clock. Every reply may depend on the whole history of
calls, so one provider is one way all the replies can come out. -/
structure Provider where
  search : List Event → Params → Nat → Option Page → Except Fault (Reply Page)
  cheapSearch : List Event → Params → Except Fault (Reply Page)
  count : List Event → Params → Except Fault CountReply
  screen : List Event → List String → List Nat → Except Fault (Reply ScreenAnswer)
  pastSendUntil : List Event → Bool := fun _ => false

namespace Provider

variable (P : Provider)

/-- Ask one page of a question. -/
def askPage (q : Params) (index : Nat) (prev : Option Page) :
    Session Event (Reply Page) :=
  Session.call (fun h => guardToolCall "search" (P.search h q index prev))
    (.page q index prev)

/-- Ask a question for its total alone. -/
def askProbe (q : Params) : Session Event (Reply Page) :=
  Session.call (fun h => guardToolCall "search" (P.cheapSearch h q)) (.probe q)

/-- Ask the count endpoint. -/
def askCount (q : Params) : Session Event CountReply :=
  Session.call (fun h => guardCountCall "count" (P.count h q)) (.count q)

/-- Ask for the content of records. -/
def askScreen (uris : List String) (classes : List Nat) :
    Session Event (Reply ScreenAnswer) :=
  Session.call (fun h => guardToolCall "record-screen" (P.screen h uris classes))
    (.screen uris classes)

/-- Is the call past its time to stop sending? -/
def isLate : Session Event Bool := Session.observe P.pastSendUntil

end Provider

/-- What was settled about one spelling or one class of a crowded question. -/
inductive Disposition where
  | verifiedZero
  | enumerated
  | crowd
  | unenumerated
  | error
  deriving DecidableEq

structure PartCount where
  totalHits : Option Nat
  totalFloor : Option Nat := none
  disposition : Disposition
  totalCounts : Option String := none
  deriving DecidableEq

/-- Is there anything left for the reading step to decide about this leg? -/
def PartCount.isUnresolvedCount (v : PartCount) : Bool :=
  v.disposition = .crowd || v.disposition = .unenumerated || v.disposition = .error

/-- An object keyed by term or class, in insertion order. -/
abbrev Counts (κ : Type) := Keyed κ PartCount

namespace Counts

variable {κ : Type}

/-- How many legs carry a disposition. -/
def tally (counts : Counts κ) (d : Disposition) : Nat :=
  (counts.entries.filter (·.2.disposition = d)).length

/-- How many legs are left to the reading step. -/
def unresolved (counts : Counts κ) : Nat :=
  (counts.entries.filter (·.2.isUnresolvedCount)).length

/-- Nothing is left exactly when no leg is unresolved. -/
theorem unresolved_eq_zero {counts : Counts κ} :
    counts.unresolved = 0 ↔ ∀ kv ∈ counts.entries, kv.2.isUnresolvedCount = false := by
  simp [unresolved, List.filter_eq_nil_iff]

end Counts

/-- What the lift of screened content onto the records did. -/
structure ScreenLift where
  applied : Bool
  matched : Nat
  rows : Nat
  reason : Option String
  deriving DecidableEq

/-- The timeout that started a region split, and the size of every part that answered. -/
structure RegionSplit where
  cause : String
  parts : List Nat
  deriving DecidableEq

/-- Why a crowd carries no exact total. -/
inductive CrowdBasis where
  | providerRefusedCount
  | registerFloor
  deriving DecidableEq

/-- A question answered in full. Its `count` is the number of records it carries. -/
structure Enumerated where
  totalHits : Option Nat
  records : List Record
  termCounts : Option (Counts String) := none
  classCounts : Option (Counts Nat) := none
  screenLift : Option ScreenLift := none
  regionSplit : Option RegionSplit := none
  totalCounts : Option String := none
  deriving DecidableEq

def Enumerated.count (e : Enumerated) : Nat := e.records.length

/-- A question that could not be exhausted. -/
structure Incomplete where
  totalHits : Option Nat
  fetched : Nat
  sample : List Record
  reason : String
  termCounts : Option (Counts String) := none
  classCounts : Option (Counts Nat) := none
  records : Option (List Record) := none
  regionSplit : Option RegionSplit := none
  gatewayTimeout : Bool := false
  crowdBasis : Option CrowdBasis := none
  countUnavailable : Bool := false
  totalFloor : Option Nat := none
  totalCounts : Option String := none
  deriving DecidableEq

/-- The descriptor keeps at most twenty rows as its sample. -/
def incomplete (total : Option Nat) (fetched : Nat) (sample : List Record)
    (reason : String) : Incomplete :=
  { totalHits := total, fetched := fetched, sample := sample.take 20, reason := reason }

/-- The stamps a crowd carries when the register answered with a floor. -/
def Incomplete.floorStamp (i : Incomplete) : Option Nat → Incomplete
  | none => i
  | some floor => { i with crowdBasis := some .registerFloor, totalFloor := some floor }

@[simp] theorem floorStamp_totalHits (i : Incomplete) (floor : Option Nat) :
    (i.floorStamp floor).totalHits = i.totalHits := by
  cases floor <;> rfl

@[simp] theorem floorStamp_termCounts (i : Incomplete) (floor : Option Nat) :
    (i.floorStamp floor).termCounts = i.termCounts := by
  cases floor <;> rfl

@[simp] theorem floorStamp_classCounts (i : Incomplete) (floor : Option Nat) :
    (i.floorStamp floor).classCounts = i.classCounts := by
  cases floor <;> rfl

@[simp] theorem floorStamp_reason (i : Incomplete) (floor : Option Nat) :
    (i.floorStamp floor).reason = i.reason := by
  cases floor <;> rfl

/-- What `enumerate` hands back: one of the two states, or the error for a
question with no search element in it. -/
inductive Answer where
  | missingElement (text : String)
  | enumerated (e : Enumerated)
  | incomplete (i : Incomplete)
  deriving DecidableEq

namespace Answer

/-- `parsed.total_hits`, absent on an answer that does not parse. -/
def totalHits : Answer → Option Nat
  | missingElement _ => none
  | enumerated e => e.totalHits
  | incomplete i => i.totalHits

def totalFloor : Answer → Option Nat
  | incomplete i => i.totalFloor
  | _ => none

def totalCounts : Answer → Option String
  | missingElement _ => none
  | enumerated e => e.totalCounts
  | incomplete i => i.totalCounts

def termCounts : Answer → Option (Counts String)
  | missingElement _ => none
  | enumerated e => e.termCounts
  | incomplete i => i.termCounts

def classCounts : Answer → Option (Counts Nat)
  | missingElement _ => none
  | enumerated e => e.classCounts
  | incomplete i => i.classCounts

/-- The answer with what its total counts stated on it. -/
def stampTotalCounts : Answer → Option String → Answer
  | a, none => a
  | missingElement t, some _ => missingElement t
  | enumerated e, some s => enumerated { e with totalCounts := some s }
  | incomplete i, some s => incomplete { i with totalCounts := some s }

end Answer

end Clearotron
