import Clearotron.Plan.TermShape
import Clearotron.Register.Kernel

/-!
# One entry, dispatched

The executor asks one plan entry of the register and writes the block that answers it.
A slice that cannot be asked as it stands is refused without a call; a provider error is
asked once more and then stamped, so that it is not read as a crowd.
-/

namespace Clearotron

namespace Text

/-- One character inside a JSON string. -/
def jsonChar (c : Char) : List Char :=
  if c = '"' then ['\\', '"']
  else if c = '\\' then ['\\', '\\']
  else if c = '\n' then ['\\', 'n']
  else if c = '\r' then ['\\', 'r']
  else if c = '\t' then ['\\', 't']
  else [c]

/-- `JSON.stringify` of a text without other control characters. -/
def quoted (s : String) : String :=
  "\"" ++ String.ofList (s.toList.flatMap jsonChar) ++ "\""

/-- The text after the first `needle`, where there is one. -/
def after (needle : List Char) : List Char → Option (List Char)
  | [] => if needle = [] then some [] else none
  | c :: rest =>
      if needle.isPrefixOf (c :: rest) then some ((c :: rest).drop needle.length)
      else after needle rest

end Text

/-- What the active register provider declares it can do. -/
structure Capabilities where
  id : Option String := none
  ownerTermIntersection : Bool := false
  nativeScriptIndex : Option Bool := none
  deriving DecidableEq

def Capabilities.name (caps : Option Capabilities) : String :=
  (caps.bind Capabilities.id).getD "unknown"

/-- How a provider resolved an owner's name to the register's own styling. -/
structure OwnerResolution where
  rawTerms : List String
  resolved : List String
  swept : List String
  degraded : Bool
  deriving DecidableEq

/-- A block of a band file. -/
structure Block where
  qid : Option String
  query : String := ""
  state : String
  totalHits : Option Nat := none
  totalFloor : Option Nat := none
  fetched : Option Nat := none
  sample : List Record := []
  records : Option (List Record) := none
  termCounts : Option (Counts String) := none
  classCounts : Option (Counts Nat) := none
  regionSplit : Option RegionSplit := none
  screenLift : Option ScreenLift := none
  totalCounts : Option String := none
  crowdBasis : Option CrowdBasis := none
  countUnavailable : Bool := false
  coveredBy : Option (List String) := none
  ownerResolution : Option OwnerResolution := none
  reason : Option String := none
  error : Bool := false
  deferred : Bool := false
  gatewayTimeout : Bool := false
  reusedFrom : Option String := none
  deriving DecidableEq

/-- What the call remembers of a block: its state, or that it is an error. -/
def Block.stateRead (b : Block) : String := if b.error then "error" else b.state

/-- An answer written down as a block: `{ ...parsed, ...base, state: parsed.state }`. -/
def Block.ofAnswer (qid : Option String) (query : String) : Answer → Block
  | .missingElement _ => { qid := qid, query := query, state := "" }
  | .enumerated e =>
      { qid := qid, query := query, state := "enumerated", totalHits := e.totalHits
        records := some e.records, termCounts := e.termCounts, classCounts := e.classCounts
        regionSplit := e.regionSplit, screenLift := e.screenLift
        totalCounts := e.totalCounts }
  | .incomplete i =>
      { qid := qid, query := query, state := "incomplete", totalHits := i.totalHits
        totalFloor := i.totalFloor, fetched := some i.fetched, sample := i.sample
        records := i.records, termCounts := i.termCounts, classCounts := i.classCounts
        regionSplit := i.regionSplit, totalCounts := i.totalCounts
        crowdBasis := i.crowdBasis, countUnavailable := i.countUnavailable
        reason := some i.reason, gatewayTimeout := i.gatewayTimeout }

def capabilityGapMarker : String := "capability-gap:"

def isCapabilityGap (reason : String) : Bool := Text.includes reason capabilityGapMarker

def refusedBeforeSending : String := "refused before sending:"

/-- The reason of a refusal made before sending, where the text carries one. -/
def refusedBeforeSendingReason (text : String) : Option String :=
  match Text.after refusedBeforeSending.toList text.toList with
  | some words =>
      if isCapabilityGap text then
        some (refusedBeforeSending ++ " " ++ capabilityGapMarker ++ " " ++
          Text.clipProviderText (Text.trim (String.ofList words)) 240)
      else none
  | none => none

def planDefectReason (issue : String) : String :=
  Text.slice 400 ("plan-defect: " ++ issue ++
    " — slice NOT dispatched (a literal search here would be a false clean)")

def ownerTermReason (caps : Option Capabilities) : String :=
  "owner×term intersection is not supported by the active register provider (" ++
    Capabilities.name caps ++ ") — the owner scope field cannot be combined with mark text " ++
    "there, so this search was never carried out. It is a deferred gap for judgment, never " ++
    "a clean negative."

/-- The mark text a query carries: its own names, else the entry's. -/
def queryMarkTerms (e : Entry) (query : Params) : List String :=
  if e.predicate = .owner then []
  else match query.names, query.name with
    | some names, _ => names
    | none, some name => [name]
    | none, none => e.names

/-- A term the provider's index cannot hold as written. An undeclared index takes the
loud reading. -/
def nativeScriptIndexGap (U : Unicode) (caps : Option Capabilities) (terms : List String) :
    Option String :=
  match caps.bind Capabilities.nativeScriptIndex,
      terms.filter (fun t => Text.trim t ≠ "" && isNonLatinTerm U t) with
  | some true, _ => none
  | _, [] => none
  | some false, t :: _ =>
      some ("term " ++ Text.quoted (Text.slice 40 t) ++ " is not in Latin script, and the " ++
        "active register provider (" ++ Capabilities.name caps ++ ") indexes non-Latin " ++
        "filings by their TRANSLITERATION, not their characters — searching the characters " ++
        "would return 0 with no error, which reads as CLEAN. So the slice is DEFERRED, never " ++
        "searched. Send the romanisation instead (e.g. 华威豹 → \"HUA WEI BAO\"), carried on " ++
        "the plan entry's romanizedTerms, which also catches the homophone variants the " ++
        "characters miss.")
  | none, t :: _ =>
      some ("term " ++ Text.quoted (Text.slice 40 t) ++ " is not in Latin script, and the " ++
        "active register provider (" ++ Capabilities.name caps ++ ") has NOT DECLARED which " ++
        "form its index holds (capabilities.nativeScriptIndex is undeclared) — nobody has " ++
        "probed whether it answers the characters or only their romanisation. An undeclared " ++
        "index that answers 0 is indistinguishable from a clean, so the slice is DEFERRED " ++
        "rather than sent. Close it by probing the provider (fetch one record from an office " ++
        "that files in this script, read its name verbatim, search that exact string back) " ++
        "and declaring nativeScriptIndex true or false — or by supplying the romanisation on " ++
        "the entry's romanizedTerms.")

/-- Did the provider's own owner vocabulary stand behind this sweep? -/
def ownerNameResolved (lower : String → String) (res : OwnerResolution) : Bool :=
  let lc := fun s => lower (Text.trim s)
  let raw := res.rawTerms.map lc
  !res.degraded && res.resolved ≠ [] &&
    (res.swept.any (fun t => lc t ∉ raw) || res.resolved.any (fun c => lc c ∈ raw))

/-- ` (coverage is … +n more)`, where there is one. -/
def coverageIs : List String → String
  | [] => ""
  | [q] => " (coverage is " ++ q ++ ")"
  | q :: rest => " (coverage is " ++ q ++ " +" ++ toString rest.length ++ " more)"

def unresolvedOwnerEnumerateReason (term : String) (coveredBy : List String) : String :=
  "owner sweep returned NO RECORDS — UNVERIFIED, never a clean negative about this owner" ++
    coverageIs coveredBy ++ ": this provider's owner vocabulary never produced a register " ++
    "applicant styling for " ++ Text.quoted (Text.slice 80 term) ++ ", and APPLICANT_NAME " ++
    "EQUALS is an implicit token-AND — one token the register does not hold and the whole " ++
    "conjunction is empty. An empty conjunction is not an empty portfolio. Disclosed as a " ++
    "coverage gap."

def unresolvedOwnerCountReason (term : String) (coveredBy : List String) : String :=
  "bare-owner portfolio count — UNVERIFIED, never the number zero" ++ coverageIs coveredBy ++
    ": this provider's owner vocabulary returned no applicant styling for " ++
    Text.quoted (Text.slice 40 term) ++ ", so only the name as written was swept and it " ++
    "answered 0. That is indistinguishable from an owner filing under a styling this query " ++
    "never named — not a portfolio size, not a clean negative."

def ownerPortfolioDescriptorReason (coveredBy : List String) : String :=
  if coveredBy = [] then "count-only crowd descriptor (plan-dictated)"
  else "count-only owner-portfolio descriptor (plan-dictated) — CROWD CONTEXT, never " ++
    "coverage. This owner's records are SOUGHT record-by-record by the owner×term slice(s) " ++
    String.intercalate ", " coveredBy ++ "; whether those slices landed is THEIR state to " ++
    "read, not this descriptor's to assert — a dictated slice can itself come back a crowd, " ++
    "deferred or errored. Size the crowd here; read the records, and their state, there. " ++
    "\"Portfolio too large, noted\" is not a finding."

/-- A provider's connector: the kernel it enumerates with, and what it adds around it. -/
structure Connector where
  provider : Provider
  deps : Deps
  unicode : Unicode
  /-- `toLowerCase` -/
  lower : String → String
  capabilities : Option Capabilities
  describeEntry : Entry → Except Fault String
  /-- the entry's query against the plan's regions: `predicateParams`, `buildEntryQuery`
  and `withPlanRegions` -/
  buildQuery : Entry → Except Fault Params
  /-- the search of a count descriptor, guarded -/
  countSearch : List Event → Params → Reply Page
  /-- what the connector's own enumerate ends in before the kernel runs -/
  refuses : List Event → Params → Option String
  /-- the owner resolution the connector notes on its answer -/
  ownerResolution : List Event → Params → Option OwnerResolution

/-- A block, the account of the enumeration it was written from, and whether it was taken
from an answer the run already held. -/
structure Dispatch where
  block : Block
  ran : Option Account := none
  held : Bool := false

section Dispatch

variable (X : Connector)

/-- The base every refused or failed slice is written on. -/
def refusedBlock (e : Entry) (query reason : String) : Block :=
  { qid := some e.qid, query := query, state := "incomplete", totalHits := some 0
    fetched := some 0, error := true, reason := some reason }

/-- A slice an unhandled fault ended, degraded so that the rest of the plan can run. -/
def faultBlock (e : Entry) (fault : Fault) : Block :=
  refusedBlock e (match X.describeEntry e with | .ok query => query | .error _ => e.qid)
    (Text.slice 400 ("provider error — unhandled executor fault on this entry, which was " ++
      "degraded so the rest of the plan could run: " ++ faultText fault "plan entry"))

/-- A slice refused without a call: a capability the provider lacks, a defect of the plan,
or an owner narrowing it cannot make. -/
def refusal (e : Entry) (query : String) : Option Block :=
  if e.unsupported then
    some { refusedBlock e query (Text.slice 400 (e.unsupportedReason.getD
      ("the active register provider does not support this slice — provider capability " ++
        "absent"))) with deferred := true }
  else match entryTermIssues X.unicode e with
    | issue :: _ => some (refusedBlock e query (planDefectReason issue.issue))
    | [] =>
        if X.capabilities.any (fun caps => !caps.ownerTermIntersection) &&
            e.ownerScope.isSome && e.predicate ≠ .owner then
          some { refusedBlock e query (ownerTermReason X.capabilities) with deferred := true }
        else none

/-- Ask for a total alone. -/
def askCountSearch (q : Params) : Session Event (Reply Page) :=
  Session.call (fun h => X.countSearch h q) (.probe q)

def Reply.body {α : Type} : Reply α → Option α
  | .answered a => some a
  | _ => none

def Reply.text {α : Type} : Reply α → String
  | .error text => text
  | .unparsed text => text
  | .answered _ => ""

/-- The block of a count-only descriptor. -/
def countBlock (e : Entry) (query : String) (r : Reply Page)
    (note : Option OwnerResolution) : Block :=
  let parsed := r.body
  let coveredBy := e.coveredBy.getD []
  let gap := parsed.isNone && isCapabilityGap r.text
  let timedOut := parsed.isNone && Text.isGatewayTimeout r.text
  let unverified := parsed.any (fun p => e.predicate = .owner && p.totalHits = some 0 &&
    note.any (fun res => !ownerNameResolved X.lower res))
  let counted := parsed.isSome && !unverified
  let floor := parsed.bind Page.floorOf
  let total := parsed.bind Page.totalHits
  { qid := some e.qid, query := query, state := "incomplete"
    totalHits := if unverified || floor.isSome || (counted && total.isNone) then none
      else some (total.getD 0)
    totalFloor := floor
    crowdBasis := floor.map fun _ => .registerFloor
    fetched := some ((parsed.map Page.results).getD []).length
    sample := ((parsed.map Page.results).getD []).take 5
    error := !counted
    deferred := gap || unverified || timedOut
    gatewayTimeout := timedOut
    coveredBy := if coveredBy = [] then none else some coveredBy
    ownerResolution := if parsed.isSome then note else none
    totalCounts := if counted then parsed.bind Page.totalCounts else none
    reason := some (
      if unverified then unresolvedOwnerCountReason (e.firstTerm.getD "") coveredBy
      else if parsed.isSome then ownerPortfolioDescriptorReason coveredBy
      else (refusedBeforeSendingReason r.text).getD
        ("provider error on the count probe (after one in-tool retry): " ++
          Text.clipProviderText r.text 100)) }

/-- The one in-tool retry. -/
def askAgainIf {α : Type} (again : α → Bool) (ask : Session Event α) : Session Event α := do
  let first ← ask
  if again first then ask else pure first

/-- A count descriptor: one search for its total, asked once more where it failed. -/
def dispatchCount (e : Entry) (query : String) (q : Params) : Session Event Dispatch := do
  let r ← askAgainIf (fun r => r.body.isNone) (askCountSearch X q)
  let note ← Session.observe (X.ownerResolution · q)
  pure { block := countBlock X e query r note }

/-- The provider's enumerate, as the executor reads its result. -/
structure Tried where
  answer : Answer
  ran : Option Account

def runEnumerate (q : Params) : Session Event Tried := do
  match ← Session.observe (X.refuses · q) with
  | some text => pure ⟨.missingElement text, none⟩
  | none =>
      let acct ← enumerate X.provider X.deps { q with inScopeClasses := q.niceClasses } true
      pure ⟨acct.answer, some acct⟩

/-- A result with no state in it, or an incomplete one that says it met a provider error. -/
def Answer.providerErrored : Answer → Bool
  | .missingElement _ => true
  | .enumerated _ => false
  | .incomplete i => Text.isProviderError i.reason

/-- Did the question time out on the pieces it came down to? -/
def Answer.stalled : Answer → Bool
  | .incomplete i => isGatewayStall i.reason
  | _ => false

/-- The block of an enumeration that met a provider error. -/
def erroredBlock (e : Entry) (query : String) (a : Answer) : Block :=
  let detail := match a with
    | .missingElement text => Text.clipProviderText text 120
    | .incomplete i => i.reason
    | .enumerated _ => ""
  let gap := isCapabilityGap detail || a.stalled
  let timedOut := a.stalled || (match a with | .incomplete i => i.gatewayTimeout | _ => false) ||
    Text.isGatewayTimeout detail
  { refusedBlock e query ((refusedBeforeSendingReason detail).getD
      ((if a.stalled then "provider error (not asked again)"
        else "provider error (after one in-tool retry)") ++ ": " ++
        Text.clipProviderText detail 240)) with
    totalHits := some (a.totalHits.getD 0)
    fetched := some a.fetched
    sample := a.sample.take 5
    deferred := gap || timedOut
    gatewayTimeout := timedOut }

/-- Is the entry about an owner at all? -/
def Entry.isOwnerEntry (e : Entry) : Bool := e.predicate = .owner || e.owner.any (· ≠ "")

/-- An enumeration's answer, with the owner resolution the connector noted on it. -/
def writtenBlock (e : Entry) (query : String) (a : Answer) (note : Option OwnerResolution) :
    Block := { Block.ofAnswer (some e.qid) query a with ownerResolution := note }

/-- An enumerated answer of no records over an owner the provider never resolved. -/
def isUnresolvedOwner (e : Entry) (b : Block) : Bool :=
  e.isOwnerEntry && b.state = "enumerated" && b.records = some [] &&
    b.ownerResolution.any (fun res => !ownerNameResolved X.lower res)

/-- The same answer as a gap: a name nobody resolved yields no clean negative. -/
def unresolvedOwnerBlock (e : Entry) (b : Block) : Block :=
  let coveredBy := e.coveredBy.getD []
  { b with
    state := "incomplete", totalHits := none, deferred := true
    coveredBy := if coveredBy = [] then none else some coveredBy
    reason := some (unresolvedOwnerEnumerateReason
      ((e.firstTerm <|> e.owner).getD "") coveredBy) }

/-- The block of an enumeration that answered. -/
def answeredBlock (e : Entry) (query : String) (a : Answer)
    (note : Option OwnerResolution) : Block :=
  if isUnresolvedOwner X e (writtenBlock e query a note) then
    unresolvedOwnerBlock e (writtenBlock e query a note)
  else writtenBlock e query a note

def dispatchEnumerate (e : Entry) (query : String) (q : Params) : Session Event Dispatch := do
  let last ← askAgainIf (fun t => t.answer.providerErrored && !t.answer.stalled)
    (runEnumerate X q)
  if last.answer.providerErrored then
    pure { block := erroredBlock e query last.answer, ran := last.ran }
  else do
    let note ← Session.observe (X.ownerResolution · q)
    pure { block := answeredBlock X e query last.answer note, ran := last.ran }

/-- Dispatch one entry. `timedOut` is the entry's latest answer on record, where that is a
gateway timeout this call may not ask again: it stands. -/
def dispatchEntry (timedOut : Option Block) (e : Entry) : Session Event Dispatch :=
  match X.describeEntry e with
  | .error fault => pure { block := faultBlock X e fault }
  | .ok query =>
      match timedOut, refusal X e query with
      | some b, _ => pure { block := b }
      | none, some b => pure { block := b }
      | none, none =>
          match X.buildQuery e with
          | .error fault => pure { block := faultBlock X e fault }
          | .ok q =>
              match nativeScriptIndexGap X.unicode X.capabilities (queryMarkTerms e q) with
              | some gap => pure { block :=
                  { refusedBlock e query (capabilityGapMarker ++ " " ++ gap) with
                    deferred := true } }
              | none =>
                  if e.expectedKind = .count then dispatchCount X e query q
                  else dispatchEnumerate X e query q

end Dispatch

end Clearotron
