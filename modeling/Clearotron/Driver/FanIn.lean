import Mathlib.Data.List.Sort
import Clearotron.Executor.Dispatch

/-!
# The fan-in of a register plan

At a fan-in every entry of the plan is joined to the block that answered it, and the outcome
is written down as a receipt. A search the provider took and then failed is missing, so that
it is asked again; one that was missing before, or that asking again cannot help, is moved to
the deferrals, with a reason by which the next fan-in knows it. What was retrieved under each
crowd stands on the receipt too, and is not read here.
-/

namespace Clearotron

/-- A plan as it is read: `parseRegisterPlan` refuses an entry without a qid, and a qid that
stands twice. -/
structure ParsedPlan where
  plan : Plan
  qids : (plan.entries.map Entry.qid).Nodup
  named : ∀ e ∈ plan.entries, e.qid ≠ ""

/-- What makes two entries one question. -/
structure QuestionKey where
  axis : String
  predicate : String
  terms : List String
  owner : String
  goods : List String
  niceClasses : List String
  regions : List String
  termLiteral : Bool
  deriving DecidableEq, Repr

namespace PlanJoin

structure ExecutedRow where
  qid : String
  state : String
  records : Option ℕ
  totalHits : Option ℕ
  deferred : Bool := false
  totalCounts : Option String := none
  totalFloor : Option ℕ := none
  reusedFrom : Option String := none
  deriving DecidableEq, Repr

structure SkippedRow where
  qid : String
  guard : Option String
  parentState : Option String
  parentError : Bool
  deriving DecidableEq, Repr

structure DeferredRow where
  qid : String
  reason : String
  deriving DecidableEq, Repr

structure WaitingRow where
  qid : String
  axis : Axis
  deriving DecidableEq

structure AskedRow where
  qid : String
  axis : Axis
  askedBy : String
  deriving DecidableEq

structure UnplannedRow where
  qid : String
  query : String
  deriving DecidableEq, Repr

/-- The bucket an entry joins. -/
inductive Bucket
  | executed (row : ExecutedRow)
  | missing
  | skipped (row : SkippedRow)
  | deferred (reason : String)
  | awaiting
  | asked (by' : String)
  | notAsked
  deriving DecidableEq

end PlanJoin

/-- What `joinPlanToBands` gives, and the receipt carries. -/
structure PlanJoin where
  executed : List PlanJoin.ExecutedRow := []
  missing : List String := []
  skipped : List PlanJoin.SkippedRow := []
  deferred : List PlanJoin.DeferredRow := []
  awaiting : List PlanJoin.WaitingRow := []
  asked : List PlanJoin.AskedRow := []
  unplanned : List PlanJoin.UnplannedRow := []
  outstanding : List PlanJoin.WaitingRow := []
  deriving DecidableEq

/-- What one fan-in reads. -/
structure FanIn where
  plan : ParsedPlan
  /-- the blocks of each band -/
  bands : List (Axis × List Block)
  /-- the waiting families that the reading turn released -/
  released : List String := []
  /-- the follow-ups that the run's safety net did not send -/
  unsent : List String := []

namespace FanIn

/-- The code's own functions of strings that are taken as they are: a text in lower case, the
fingerprint of a question, and whether asking again cannot help an error. -/
structure Texts where
  lower : String → String
  fingerprint : QuestionKey → String
  retryCannotHelp : String → Bool

variable (T : Texts) (x : FanIn)

def sorted (texts : List String) : List String := texts.insertionSort (· ≤ ·)

/-- `entryQuestionKey`, none where the entry states no term. -/
def entryQuestionKey (e : Entry) (p : Plan) : Option String :=
  let stated := if e.terms.any (· ≠ []) then e.terms.getD [] else [e.term.getD ""]
  let terms := (stated.map Text.trim).filter (· ≠ "")
  if terms = [] then none
  else
    some <| T.fingerprint
      { axis := e.axis.text, predicate := e.predicate.text, terms := sorted terms
        owner := e.owner.getD "", goods := sorted e.goodsTermsList
        niceClasses := sorted e.niceClasses
        regions := sorted (if e.regions = [] then p.regions else e.regions)
        termLiteral := e.termLiteral }

def blocks : List Block := x.bands.flatMap Prod.snd

/-- The block of a qid: the last that carries it. -/
def byQid (qid : String) : Option Block :=
  if qid = "" then none else x.blocks.reverse.find? fun b => b.qid = some qid

def refusedFollowUp (e : Entry) : Bool := x.unsent.contains e.qid && e.supplemental

/-- The keys an entry asks: its own, and that of each spelling of its list. -/
def askedKeys (e : Entry) : List (Option String) :=
  entryQuestionKey T e x.plan.plan ::
    match e.terms with
    | some (t :: u :: rest) =>
      (t :: u :: rest).map fun t =>
        entryQuestionKey T { e with terms := none, term := some t } x.plan.plan
    | _ => []

/-- The first entry that asks a question and does not wait. -/
def askedBy (key : Option String) : Option String :=
  match key with
  | none => none
  | some key =>
    (x.plan.plan.entries.find? fun e =>
      !e.unsupported && !e.awaits && (askedKeys T x e).contains (some key)).map Entry.qid

open PlanJoin in
/-- An entry that nothing holds back joins its block. -/
def joinBlock (e : Entry) : Bucket :=
  match x.byQid e.qid with
  | none => if x.refusedFollowUp e then .notAsked else .missing
  | some b =>
    if b.error && b.deferred then .deferred (Text.slice 300 (b.reason.getD ""))
    else if b.error then if x.refusedFollowUp e then .notAsked else .missing
    else
      .executed
        { qid := e.qid, state := T.lower b.state, records := b.records.map List.length
          totalHits := b.totalHits, deferred := b.deferred, totalCounts := b.totalCounts
          totalFloor := b.totalFloor, reusedFrom := b.reusedFrom }

/-- The state of the question an entry hangs on. -/
def parentState (parent : Option String) : String :=
  T.lower (((parent.bind x.byQid).map Block.state).getD "")

open PlanJoin in
def bucketOf (e : Entry) : Bucket :=
  match e.guard with
  | some .awaitsReadingTurn =>
    if x.released.contains e.qid then x.joinBlock T e
    else
      match askedBy T x (entryQuestionKey T e x.plan.plan) with
      | some by' => .asked by'
      | none => .awaiting
  | some (.runsIfEnumerated parent) =>
    if x.parentState T parent ≠ "enumerated" then
      .skipped
        { qid := e.qid, guard := parent
          parentState := some (x.parentState T parent) |>.filter (· ≠ "")
          parentError := (parent.bind x.byQid).any Block.error }
    else x.joinBlock T e
  | none => x.joinBlock T e

end FanIn

namespace PlanJoin

/-- An entry put into its bucket. -/
def add (j : PlanJoin) (e : Entry) : Bucket → PlanJoin
  | .executed row => { j with executed := j.executed ++ [row] }
  | .missing => { j with missing := j.missing ++ [e.qid] }
  | .skipped row => { j with skipped := j.skipped ++ [row] }
  | .deferred reason => { j with deferred := j.deferred ++ [{ qid := e.qid, reason }] }
  | .awaiting => { j with awaiting := j.awaiting ++ [{ qid := e.qid, axis := e.axis }] }
  | .asked askedBy => { j with asked := j.asked ++ [{ qid := e.qid, axis := e.axis, askedBy }] }
  | .notAsked => { j with outstanding := j.outstanding ++ [{ qid := e.qid, axis := e.axis }] }

/-- Every qid of the outcome lists. -/
def outcomes (j : PlanJoin) : List String :=
  j.executed.map ExecutedRow.qid ++ j.missing ++ j.skipped.map SkippedRow.qid ++
    j.deferred.map DeferredRow.qid ++ j.awaiting.map WaitingRow.qid ++
    j.asked.map AskedRow.qid ++ j.outstanding.map WaitingRow.qid

end PlanJoin

namespace FanIn

variable (T : Texts) (x : FanIn)

/-- The blocks of questions that are not in the plan. -/
def unplanned : List PlanJoin.UnplannedRow :=
  x.blocks.filterMap fun b =>
    match b.qid with
    | none => none
    | some qid =>
      if qid = "" ∨ qid ∈ x.plan.plan.entries.map Entry.qid then none
      else some { qid, query := Text.slice 80 b.query }

def joinPlanToBands : PlanJoin :=
  x.plan.plan.entries.foldl (fun j e => j.add e (x.bucketOf T e)) { unplanned := x.unplanned }

def providerHardErrorPrefix : String :=
  "provider hard error after the full recovery ladder — the slice was accepted and then failed, so it was never searched and cannot be read as clean: "

def providerPermanentErrorPrefix : String :=
  "provider hard error the recovery ladder cannot help — the slice was accepted and then failed with an error this run cannot classify as transient, so it was never searched and cannot be read as clean: "

def isProviderHardErrorReason (reason : String) : Bool :=
  providerHardErrorPrefix.toList.isPrefixOf reason.toList ||
    providerPermanentErrorPrefix.toList.isPrefixOf reason.toList

/-- The qids that were missing or deferred so on the receipt. -/
def ladderExhaustedQids (receipt : Option PlanJoin) : List String :=
  match receipt with
  | none => []
  | some j =>
    j.missing.filter (· ≠ "") ++
      (j.deferred.filter fun d => d.qid ≠ "" && isProviderHardErrorReason d.reason).map
        PlanJoin.DeferredRow.qid

/-- The words of the provider on a qid: the reason of the last error that has one. -/
def errByQid (qid : String) : Option String :=
  if qid = "" then none
  else
    (x.blocks.reverse.find? fun b => b.qid = some qid && b.error && b.reason.any (· ≠ "")).bind
      Block.reason

inductive Path
  | permanent
  | ladderSpent
  deriving DecidableEq, Repr

structure Converted where
  qid : String
  reason : String
  cause : String
  path : Path
  deriving DecidableEq, Repr

/-- What becomes of a missing qid: none where it stays missing. -/
def convert (spent : List String) (qid : String) : Option Converted :=
  match x.errByQid qid with
  | none => none
  | some cause =>
    let permanent := !spent.contains qid && T.retryCannotHelp cause
    if !spent.contains qid && !permanent then none
    else
      some
        { qid, cause
          reason :=
            (if permanent then providerPermanentErrorPrefix else providerHardErrorPrefix) ++
              Text.slice 240 cause
          path := if permanent then .permanent else .ladderSpent }

def deferExhaustedProviderErrors (j : PlanJoin) (spent : List String) :
    PlanJoin × List Converted :=
  let converted := j.missing.filterMap (x.convert T spent)
  if converted = [] then (j, [])
  else
    ({ j with
        missing := j.missing.filter fun qid => (x.convert T spent qid).isNone
        deferred := j.deferred ++ converted.map fun c => { qid := c.qid, reason := c.reason } },
      converted)

/-- One fan-in over the receipt of the last. -/
def settle (receipt : Option PlanJoin) : PlanJoin × List Converted :=
  x.deferExhaustedProviderErrors T (x.joinPlanToBands T) (ladderExhaustedQids receipt)

/-- The receipt after some fan-ins. -/
def receiptAfter (xs : List FanIn) : Option PlanJoin :=
  xs.foldl (fun receipt x => some (x.settle T receipt).1) none

end FanIn

end Clearotron
