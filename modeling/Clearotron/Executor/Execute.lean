import Clearotron.Library.Groups
import Clearotron.Executor.Dispatch

/-!
# The register executor

`executePlan` asks the entries of one axis and writes the axis's band. Entries with no
guard go first; an entry that waits on a parent's result goes only if that parent came
back enumerated. The band is merged, never replaced: what this call did not own stays.

What the call meets is arbitrary: the clock, the follow-up net, the answers the run
already holds, and the moments at which the band is written early are functions of
everything that has happened so far.
-/

namespace Clearotron

/-- An entry that was not asked, and what was known of its parent at its turn. -/
structure Skip where
  entry : Entry
  parentState : Option String
  deriving DecidableEq

/-- What one call carries from entry to entry. -/
structure CallState where
  blocks : List Block := []
  /-- the state each question came back in, and those read from the band before -/
  stateByQid : Keyed String String := .empty
  /-- follow-ups the net held back -/
  refused : List String := []
  notReached : List String := []
  skipped : List Skip := []
  /-- the band file as it stands -/
  band : Option (List Block)
  /-- each entry answered, in order, with how -/
  answered : List (Entry × Dispatch) := []

/-- One call: what it was asked, what it finds, and what it meets. -/
structure Call where
  plan : Plan
  axis : Axis
  /-- the questions to ask again, all of the axis's where none is named -/
  qids : Option (List String) := none
  /-- the band file before the call, none where it cannot be read -/
  prior : Option (List Block) := none
  /-- the blocks of the bands a parked pass left, oldest first -/
  parked : List Block := []
  /-- the waiting families the reading turn released -/
  released : List String := []
  reaskTimedOut : Bool := false
  /-- a band read as answers: a slice taken out of it is read as open -/
  asAnswers : List Block → List Block := id
  /-- the answer the run already holds to a question asked in another form -/
  held : List Event → CallState → Entry → Option Block := fun _ _ _ => none
  /-- is the call past its time to stop sending? -/
  late : List Event → CallState → Bool := fun _ _ => false
  /-- does the follow-up net hold this question back? -/
  netHolds : List Event → CallState → Entry → Bool := fun _ _ _ => false
  /-- has the band been written early by now? -/
  keepsNow : List Event → CallState → Bool := fun _ _ => false

namespace Call

variable (C : Call)

/-- The plan's entries on this axis. -/
def entries : List Entry := C.plan.entries.filter (·.axis = C.axis)

/-- The entries this call is for. -/
def targeted : List Entry :=
  match C.qids with
  | some qids => C.entries.filter (·.qid ∈ qids)
  | none => C.entries

/-- The entry's latest answer on record, where that is a gateway timeout. -/
def timedOutBefore (e : Entry) : Option Block :=
  if C.reaskTimedOut then none
  else ((C.parked ++ C.prior.getD []).reverse.find? (·.qid = some e.qid)).filter
    fun b => b.error && b.gatewayTimeout

/-- The states of the questions a filtered call does not ask, from the band before. -/
def seeded : Keyed String String :=
  match C.qids, C.prior with
  | some qids, some prior =>
      (C.asAnswers prior).foldl (fun states b =>
        match b.qid with
        | some q => if q ≠ "" ∧ q ∉ qids then states.set q b.stateRead else states
        | none => states) .empty
  | _, _ => .empty

/-- The questions with no guard, the ones asked in another form last. -/
def unguarded : List Entry :=
  (C.targeted.filter fun e => e.guard.isNone && !e.exactSubstituted) ++
    C.targeted.filter fun e => e.guard.isNone && e.exactSubstituted

def guarded : List Entry := C.targeted.filter (·.guard.isSome)

end Call

namespace CallState

/-- Merge fresh blocks over the band file: what is not owned stays. -/
def mergeOver (fresh : List Block) (owned : List String) (band : Option (List Block)) :
    List Block :=
  overlay Block.qid fresh owned (band.getD [])

/-- Write the band early with every answer held so far. -/
def keepAnswers (st : CallState) : CallState :=
  if st.blocks = [] then st
  else { st with band := some (mergeOver st.blocks
    ((st.blocks.filterMap Block.qid).filter (· ≠ "")) st.band) }

/-- An entry answered. -/
def answer (st : CallState) (e : Entry) (d : Dispatch) : CallState :=
  { st with
    blocks := st.blocks ++ [d.block]
    stateByQid := st.stateByQid.set e.qid d.block.stateRead
    answered := st.answered ++ [(e, d)] }

def reachNot (st : CallState) (e : Entry) : CallState :=
  { st with notReached := st.notReached ++ [e.qid] }

def refuse (st : CallState) (e : Entry) : CallState :=
  { st with refused := st.refused ++ [e.qid] }

def skip (st : CallState) (e : Entry) (parentState : Option String) : CallState :=
  { st with skipped := st.skipped ++ [⟨e, parentState⟩] }

/-- The band as it stands at an entry's turn. -/
def settle (C : Call) (history : List Event) (st : CallState) : CallState :=
  if C.keepsNow history st then st.keepAnswers else st

end CallState

/-- How a call ends: refused, ended by a fault nothing catches, or with its band written. -/
inductive CallEnd where
  | refused (text : String)
  | crashed (fault : Fault) (st : CallState)
  | written (st : CallState) (band : List Block)

/-- What holds of the state and the band, where the call wrote one. -/
def CallEnd.Writes (post : CallState → List Block → Prop) : CallEnd → Prop
  | written st band => post st band
  | _ => True

section Execute

variable (X : Connector) (C : Call)

/-- Run one entry: from the answers the run holds, or by asking, unless the clock or the
net says not to. An entry asked in another form that cannot be described ends the call. -/
def runEntry (e : Entry) (before : CallState) :
    Session Event (Except (Fault × CallState) CallState) := do
  let st ← Session.observe (CallState.settle C · before)
  match ← Session.observe (fun h => if e.exactSubstituted then C.held h st e else none) with
  | some held =>
      match X.describeEntry e with
      | .error fault => pure (.error (fault, st))
      | .ok query => pure (.ok (st.answer e
          { block := { held with qid := some e.qid, query := query }, held := true }))
  | none =>
      if ← Session.observe (C.late · st) then pure (.ok (st.reachNot e))
      else if ← Session.observe (C.netHolds · st e) then pure (.ok (st.refuse e))
      else do
        let d ← dispatchEntry X (C.timedOutBefore e) e
        pure (.ok (st.answer e d))

/-- What was known, at its turn, of the question an entry waits on. -/
def CallState.parentState (st : CallState) (e : Entry) : Option String :=
  (e.guard.bind Guard.guardParentQid).bind st.stateByQid.get

/-- May this entry run? A waiting family only where the reading turn released it, a child
only where its parent came back enumerated. -/
def Call.runs (st : CallState) (e : Entry) : Bool :=
  match e.guard with
  | none => true
  | some .awaitsReadingTurn => e.qid ∈ C.released
  | some (.runsIfEnumerated _) => st.parentState e = some "enumerated"

/-- An entry's turn. -/
def takeTurn (e : Entry) (st : CallState) :
    Session Event (Except (Fault × CallState) CallState) :=
  if C.runs st e then runEntry X C e st else pure (.ok (st.skip e (st.parentState e)))

def takeTurns : List Entry → CallState →
    Session Event (Except (Fault × CallState) CallState)
  | [], st => pure (.ok st)
  | e :: rest, st => do
      match ← takeTurn X C e st with
      | .error ended => pure (.error ended)
      | .ok st => takeTurns rest st

/-- The questions this call owns: those it targets, less those it did not send. -/
def Call.owned (st : CallState) : List String :=
  (C.targeted.map Entry.qid).filter fun q => q ∉ st.refused && q ∉ st.notReached

def executePlan : Session Event CallEnd :=
  if C.entries = [] then
    pure (.refused ("ERROR: the plan carries no entries for axis \"" ++ C.axis.text ++ "\"."))
  else if C.targeted = [] then
    pure (.refused ("ERROR: no dictated entries on axis \"" ++ C.axis.text ++
      "\" match qids [" ++ String.intercalate ", " (C.qids.getD []) ++ "]."))
  else do
    let start : CallState := { stateByQid := C.seeded, band := C.prior }
    match ← takeTurns X C (C.unguarded ++ C.guarded) start with
    | .error (fault, st) => pure (.crashed fault st)
    | .ok st => do
        let st ← Session.observe (CallState.settle C · st)
        pure (.written st (CallState.mergeOver st.blocks (C.owned st) st.band))

end Execute

end Clearotron
