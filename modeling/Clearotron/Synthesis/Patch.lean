import Clearotron.Library.Json
import Clearotron.Recall.Join
import Clearotron.Synthesis.Record

/-!
# A patch, merged onto the accepted call

A repair sends what it changes: rows that replace findings by ordinal, sections of the
narrative, and registers of the record, inside a findings object that carries no list or
beside it. A correction may add a finding for a position its flags name. A findings object
of any other kind replaces the record.
-/

namespace Clearotron

namespace Synthesis

/-- What the code takes from the runtime of JSON texts and numbers. -/
structure JsonRuntime where
  /-- `JSON.parse`, none where it throws -/
  parse : String → Option Json
  numberText : Rat → String

/-- An accepted call, the base a patch is merged onto. -/
structure StoredCall where
  narrative : Keyed String Json
  findings : Keyed String Json

/-- The list of a record, empty where it holds none. -/
def listOf (findings : Keyed String Json) : List Json :=
  match findings.get "findings" with
  | some (.arr list) => list
  | _ => []

/-- The ordinal of a finding row, a positive whole number. -/
def rowOrdinal (r : Json) : Option Nat :=
  match r.field "ordinal" with
  | some (.num n) => if n.den = 1 ∧ 0 < n.num then some n.num.toNat else none
  | _ => none

def isRow (r : Json) : Bool := (rowOrdinal r).isSome

/-- `TOP_KEYS` and what each later version adds to it. -/
def topKeysForVersion (schemaVersion : Option Json) : List String :=
  let v := (schemaVersion.bind Json.number?).getD 1
  ["schema_version", "findings", "coverage", "context_notes", "coverage_judgment", "corrections",
      "mark_assessment", "actions"] ++
    (if v ≥ 4 then ["rated_under_framework"] else []) ++
    (if v ≥ 5 then ["ask_answers", "four_answers"] else [])

def envelopeKeys : List String := ["schema_version", "rated_under_framework"]

section

variable (X : JsonRuntime)

/-- The object a marker encodes, none where it encodes something else. -/
def decodedMarker (s : String) : Option Json := (X.parse s).filter Json.isPlainObject

def isMarker : Option Json → Bool
  | none | some .null | some (.obj _) => true
  | some (.str s) => (decodedMarker X s).isSome
  | _ => false

/-- A register as the transport reads it. -/
def asRead (k : String) (v : Json) : Json :=
  match v with
  | .str s => if k = "corrections" then (decodedMarker X s).getD v else v
  | _ => v

end

def isStr : Option Json → Bool
  | some (.str s) => Text.trim s != ""
  | _ => false

/-- A narrative section as the tool describes it. -/
def isSection (k : String) (v : Json) : Bool :=
  if k = "coverage" then
    v.isPlainObject && v.parts.keys.all (· = "read") && isStr (v.field "read")
  else if k = "calibration" then
    match v with
    | .arr items => items.all fun c =>
        c.isPlainObject && isStr (c.field "challenge") && isStr (c.field "answer")
    | _ => false
  else k != "ask_answers" && isStr (some v)

/-- Two different rows for one ordinal. -/
def twoRowsForOneOrdinal (rows : List Json) : Bool :=
  rows.any fun r => (rows.find? (rowOrdinal · = rowOrdinal r)).any fun one => !one.sameValue r

/-- The row an ordinal has been sent last. -/
def lastRow (rows : List Json) (n : Option Nat) : Option Json :=
  rows.reverse.find? (rowOrdinal · = n)

/-- One nested row: one already sent is passed over, and a different one is ambiguous. -/
def liftRow (top added : List Json) (r : Json) : Option (List Json) :=
  match lastRow (top ++ added) (rowOrdinal r) with
  | some sent => if sent.sameValue r then some added else none
  | none => some (added ++ [r])

/-- Rows sent inside a list-less findings object, after the call's own, and how many they are. -/
def liftNestedRows (top : Option (List Json)) (nested : Option Json) :
    Option (Option (List Json) × Nat) :=
  match nested with
  | none => some (top, 0)
  | some (.arr nested) =>
    if nested.all isRow then
      (nested.foldlM (liftRow (top.getD [])) []).map fun added =>
        (if added = [] then top else some (top.getD [] ++ added), added.length)
    else none
  | some _ => none

section

variable (X : JsonRuntime)

def isLive (f : Json) : Bool :=
  match f.field "disposition" with
  | some (.str s) => s != "withdrawn"
  | _ => true

/-- The uri a registration is read by. -/
def registrationUri (r : Json) : Option String :=
  let src := match r.field "uri" with
    | none | some .null => r
    | some uri => uri
  match src with
  | .null => none
  | _ => normalizeRecordUri (src.text X.numberText)

/-- The records a finding names. -/
def findingUris (f : Json) : List String :=
  match (f.field "owner").bind (·.field "registrations") with
  | some (.arr registrations) => registrations.filterMap (registrationUri X)
  | _ => []

def holdsOrdinal (list : List Json) (n : Nat) : Bool := list.any (rowOrdinal · = some n)

/-- The stored findings, each as the call's own rows replace it. -/
def replacedBy (list rows : List Json) : List Json :=
  list.map fun f => if isRow f then (lastRow rows (rowOrdinal f)).getD f else f

/-- The rows that add a finding so far, by their places, and the records delivered. -/
structure Additions where
  rows : List Nat := []
  delivered : List String

def Additions.row (list : List Json) (positions : List (List String)) (a : Additions)
    (ri : Json × Nat) : Additions :=
  match rowOrdinal ri.1 with
  | none => a
  | some n =>
    if holdsOrdinal list n || !isLive ri.1 then a
    else
      match positions.find? fun position => position.any (· ∈ findingUris X ri.1) with
      | none => a
      | some position =>
        if position.any (· ∈ a.delivered) then a
        else ⟨a.rows ++ [ri.2], a.delivered ++ position⟩

/-- The places of the rows that add a finding. -/
def additionsOf (list rows : List Json) (positions : Option (List (List String))) : List Nat :=
  let delivered := ((replacedBy list rows).filter isLive).flatMap (findingUris X)
  (rows.zipIdx.foldl (Additions.row X list (positions.getD [])) { delivered }).rows

structure RegisterPatch where
  registers : Keyed String Json
  rows : Option (List Json)
  lifted : Nat

/-- A register of the stored record's own ladder, or its rows. -/
def registerKey (stored : StoredCall) (k : String) : Bool :=
  k = "findings_patch" ||
    k ≠ "findings" && (topKeysForVersion (stored.findings.get "schema_version")).contains k

/-- What a call carries is allowed in a patch on registers. -/
def registerShape (stored : StoredCall) (doc call : Keyed String Json) : Bool :=
  (doc.get "findings").isNone &&
    (call.get "narrative").all (fun v =>
      v.isPlainObject && v.parts.entries.all fun kv => isSection kv.1 kv.2) &&
    doc.keys.all (registerKey stored) &&
    call.keys.all (fun k => k = "narrative" || k = "findings" || registerKey stored k) &&
    envelopeKeys.all (fun k => [doc, call].all fun o => (o.get k).all fun v =>
      (stored.findings.get k).any v.sameValue) &&
    [doc, call].all (fun o => isMarker X (o.get "corrections")) &&
    doc.entries.all (fun kv => kv.1 = "findings_patch" ||
      (call.get kv.1).all fun w => (asRead X kv.1 kv.2).sameValue (asRead X kv.1 w))

/-- The rows of the call itself: none where they are no list of rows, or two differ. -/
def topRows (call : Keyed String Json) : Option (Option (List Json)) :=
  match call.get "findings_patch" with
  | none => some none
  | some (.arr rows) => if rows.all isRow && !twoRowsForOneOrdinal rows then some (some rows) else none
  | some _ => none

/-- Each row replaces a finding the record holds, or adds one. -/
def rowsAim (list rows : List Json) (adds : List Nat) : Bool :=
  rows.zipIdx.all fun ri => (rowOrdinal ri.1).any (holdsOrdinal list) || ri.2 ∈ adds

def registerPatchOf (stored : StoredCall) (call : Keyed String Json)
    (positions : Option (List (List String))) : Option RegisterPatch :=
  match (call.get "findings").bind Json.asObject with
  | none => none
  | some doc =>
    if registerShape X stored doc call then
      match topRows call with
      | none => none
      | some top =>
        match liftNestedRows top (doc.get "findings_patch") with
        | none => none
        | some (rows, lifted) =>
          let list := listOf stored.findings
          if rowsAim list (top.getD []) (additionsOf X list (rows.getD []) positions) then
            some ⟨doc.erase "findings_patch", rows, lifted⟩
          else none
    else none

/-- The call would read as registers but for a marker that is no marker. -/
def markerAloneBlocks (stored : StoredCall) (call : Keyed String Json)
    (positions : Option (List (List String))) : Bool :=
  match (call.get "findings").bind Json.asObject with
  | none => false
  | some doc =>
    (doc.get "findings").isNone &&
      !([doc, call].all fun o => isMarker X (o.get "corrections")) &&
      (registerPatchOf X stored ((call.erase "corrections").set "findings"
        (.ofObject (doc.erase "corrections"))) positions).isSome

/-- A marker sent as a text that encodes an object, decoded. -/
def decodeMarker (o : Keyed String Json) : Option (Keyed String Json) :=
  match o.get "corrections" with
  | some (.str s) => (decodedMarker X s).map (o.set "corrections" ·)
  | _ => none

/-- A call in the shape it is decided on. -/
def readSynthesisCall (received : Keyed String Json) (stored : StoredCall)
    (positions : Option (List (List String))) : Keyed String Json :=
  let asRegisters := (registerPatchOf X stored received positions).isSome
  if (received.get "findings").isSome && !asRegisters then received
  else
    let call := (decodeMarker X received).getD received
    match ((received.get "findings").bind Json.asObject).bind (decodeMarker X) with
    | some doc => call.set "findings" (.ofObject doc)
    | none => call

def patchShape : String :=
  "synthesis_patch_shape: `findings_patch` must be an array of complete finding objects. " ++
    "Each row needs a positive whole-number `ordinal`: an existing finding's ordinal for an " ++
    "update, or a new ordinal for an addition allowed by this correction."

def unknownOrdinal (n : Nat) : String :=
  "synthesis_patch_ordinal_unknown:" ++ toString n ++ " — this row neither updates an " ++
    "existing finding nor adds a finding allowed by this correction. Use the existing " ++
    "finding's ordinal for an update. Add a new finding only for an excluded position named " ++
    "in this correction's flags that no current finding delivers. The added finding must not " ++
    "be withdrawn and must cite a record from that position."

def ordinalInvalid (ordinal : Option Json) : String :=
  let text := match ordinal with
    | none | some .null => ""
    | some v => v.text X.numberText
  "synthesis_findings_invalid: finding_ordinal_invalid:" ++ Text.slice 40 (Text.tidy text) ++
    " (ordinal must be an integer >= 1)"

def markerInvalid : String :=
  "synthesis_findings_invalid: findings_corrections_invalid " ++
    "(corrections must be an object \x7b applied, note \x7d)"

/-- The place of an ordinal in the list, the last where it stands twice. -/
def placeOf (list : List Json) (n : Nat) : Option Nat :=
  (list.zipIdx.reverse.find? (rowOrdinal ·.1 = some n)).map (·.2)

/-- The finding takes its place before the first with a greater ordinal. -/
def insertRow (list : List Json) (n : Nat) (r : Json) : List Json :=
  let before (f : Json) : Bool := !(rowOrdinal f).any (n < ·)
  list.takeWhile before ++ r :: list.dropWhile before

/-- One row of the patch. -/
def applyRow (adds : List Nat) (list : List Json) (ri : Json × Nat) : Except String (List Json) :=
  if !ri.1.isPlainObject then .error patchShape
  else
    match rowOrdinal ri.1 with
    | none => .error (ordinalInvalid X (ri.1.field "ordinal"))
    | some n =>
      match placeOf list n with
      | some at' => .ok (list.set at' ri.1)
      | none => if ri.2 ∈ adds then .ok (insertRow list n ri.1) else .error (unknownOrdinal n)

def applyRows (adds : List Nat) (list rows : List Json) : Except String (List Json) :=
  rows.zipIdx.foldlM (applyRow X adds) list

/-- The sections of the narrative a patch carries. -/
def sectionsOf (patch : Keyed String Json) : Keyed String Json :=
  ((patch.get "narrative").map Json.parts).getD .empty

/-- The registers a patch carries beside its findings object. -/
def ownRegisters (patch : Keyed String Json) : Keyed String Json :=
  patch.keepIf fun k _ => k ∉ ["narrative", "findings_patch", "findings"]

/-- The merged call, over the findings it starts from. -/
def mergeOver (stored : StoredCall) (findings : Keyed String Json) (adds : List Nat)
    (rows : List Json) (patch : Keyed String Json) : Except String StoredCall :=
  (applyRows X adds (listOf findings) rows).map fun list =>
    let findings := if rows.isEmpty then findings else findings.set "findings" (.arr list)
    { narrative := stored.narrative.assign (sectionsOf patch)
      findings := findings.assign (ownRegisters patch) }

/-- What a patch comes to. -/
inductive PatchOutcome where
  | merged (call : StoredCall) (lifted : Nat)
  | refused (reason : String)
  /-- the findings sent are no object, and make no record -/
  | noRecord

def PatchOutcome.of (lifted : Nat) : Except String StoredCall → PatchOutcome
  | .ok call => .merged call lifted
  | .error reason => .refused reason

/-- The rows a patch sends, refused where they are no list. -/
def patchRows (patch : Keyed String Json) : Except String (List Json) :=
  match patch.get "findings_patch" with
  | none | some .null => .ok []
  | some (.arr rows) => .ok rows
  | some _ => .error patchShape

def mergeSynthesisPatch (stored : Option StoredCall) (patch : Keyed String Json)
    (positions : Option (List (List String))) : PatchOutcome :=
  match stored with
  | none => .refused patchWithoutBase
  | some stored =>
    match registerPatchOf X stored patch positions with
    | some p =>
      let rows := p.rows.getD []
      let findings := stored.findings.assign p.registers
      .of p.lifted (mergeOver X stored findings
        (additionsOf X (listOf findings) rows positions) rows patch)
    | none =>
      if markerAloneBlocks X stored patch positions then .refused markerInvalid
      else
        match patch.get "findings" with
        | none => .of 0 ((patchRows patch).bind fun rows => mergeOver X stored stored.findings
            (additionsOf X (listOf stored.findings) rows positions) rows patch)
        | some findings =>
          match findings.asObject with
          -- the record is replaced, and a row adds nothing to a list sent in its place
          | some doc => .of 0 ((patchRows patch).bind fun rows => mergeOver X stored doc [] rows patch)
          | none => .noRecord

end

end Synthesis

end Clearotron
