import Clearotron.Library.Reaches
import Clearotron.Register.Text

/-!
# The accepted record and its three files

A call of the writer that passes is written as findings.json and narrative.md, and kept whole
as the base the next patch is merged onto. The three are written in place one after another,
so a write that fails, or a kill, leaves the rest as they were and may leave one torn.
What the driver reads for a call (asks, ledger, owed records, saved findings, earlier refusals)
is read anew each time, so every function of a call takes it as an argument.
-/

namespace Clearotron

namespace Synthesis

/-- What an accepted call is rendered as. -/
structure Rendered (Doc Text : Type) where
  findings : Doc
  narrative : Text
  deriving DecidableEq

/-- The functions a call goes through, in what the driver reads for it. -/
structure Transport (Reads Received Call Doc Text : Type) where
  /-- on a call that carries `save_findings`, the other keys it carries -/
  saves : Received → Option (List String)
  readSynthesisCall : Reads → Option Call → Received → Call
  /-- `findings` or `narrative` is not sent -/
  half : Call → Bool
  /-- the call reads as registers of the stored record -/
  registerPatchOf : Reads → Option Call → Call → Bool
  rejectedRow : Reads → Option Call → Call → Option String
  mergeSynthesisPatch : Reads → Call → Call → Except String Call
  blankOnRepeat : Reads → Call → Call
  withSavedFindings : Reads → Call → Call
  /-- a no-result refused once is taken off; of a patch only what differs from the stored record -/
  withoutUseChecks : Reads → Option Call → Call → Call
  acceptSynthesis : Reads → Option Call → Call → Except String (Rendered Doc Text)
  /-- the record as folded, past the delivery seam -/
  foldAfterSave : Reads → Doc → Doc

/-- How a call leaves `recordSynthesis`. -/
inductive Outcome (Call Doc Text : Type)
  /-- completed findings were saved, and no report file is written -/
  | saved
  | refused (reason : String)
  | accepted (call : Call) (v : Rendered Doc Text)
  deriving DecidableEq

def saveMixed (others : List String) : String :=
  "synthesis_save_mixed:" ++ Text.slice 80 (String.intercalate "," others) ++
    " — a save carries `save_findings` alone; the whole record arrives on its own call, " ++
    "which takes the saved findings"

def patchWithoutBase : String :=
  "synthesis_patch_without_base: this run has no accepted synthesis call to patch — send " ++
    "the complete `narrative` and `findings` instead. A patch is a repair of values the " ++
    "driver is holding, and it is holding none"

section

variable {Reads Received Call Doc Text : Type} (X : Transport Reads Received Call Doc Text)

/-- A patch, merged onto the stored call. -/
def mergeOnto (reads : Reads) (stored : Option Call) (call : Call) : Except String Call :=
  match stored with
  | none => .error patchWithoutBase
  | some base => X.mergeSynthesisPatch reads base call

/-- `recordSynthesis`, up to its writes. -/
def recordSynthesis (reads : Reads) (stored : Option Call) (received : Received) :
    Outcome Call Doc Text :=
  match X.saves received with
  | some others => if others = [] then .saved else .refused (saveMixed others)
  | none =>
    let call := X.readSynthesisCall reads stored received
    let asRegisters := X.registerPatchOf reads stored call
    let isPatch := X.half call || asRegisters
    match if asRegisters then none else X.rejectedRow reads stored call with
    | some reason => .refused reason
    | none =>
      match if isPatch then mergeOnto X reads stored call else .ok call with
      | .error reason => .refused reason
      | .ok merged =>
        let whole := X.blankOnRepeat reads merged
        let whole := if isPatch then whole else X.withSavedFindings reads whole
        let against := if isPatch then stored else none
        let whole := X.withoutUseChecks reads against whole
        match X.acceptSynthesis reads against whole with
        | .error reason => .refused reason
        | .ok v => .accepted whole v

end

/-- The report's files and the merge base. -/
structure Files (Call Doc Text : Type) where
  /-- `findings.json` -/
  findings : Held Doc := .absent
  /-- `narrative.md` -/
  narrative : Held Text := .absent
  /-- the last accepted call -/
  accepted : Held Call := .absent
  deriving DecidableEq

inductive Write (Call Doc Text : Type)
  | findings (doc : Doc)
  | narrative (text : Text)
  | accepted (call : Call)

section

variable {Call Doc Text : Type}

namespace Files

def lastAcceptedCall (files : Files Call Doc Text) : Option Call := files.accepted.read

def write (files : Files Call Doc Text) : Write Call Doc Text → Files Call Doc Text
  | .findings doc => { files with findings := .holds doc }
  | .narrative text => { files with narrative := .holds text }
  | .accepted call => { files with accepted := .holds call }

/-- A write cut before its end. -/
def tear (files : Files Call Doc Text) : Write Call Doc Text → Files Call Doc Text
  | .findings _ => { files with findings := .torn }
  | .narrative _ => { files with narrative := .torn }
  | .accepted _ => { files with accepted := .torn }

def writeAll (files : Files Call Doc Text) (writes : List (Write Call Doc Text)) :
    Files Call Doc Text := writes.foldl write files

/-- The first `count` writes are made, and the next one is torn or not begun. -/
def cut (files : Files Call Doc Text) (writes : List (Write Call Doc Text)) (count : Nat)
    (tears : Bool) : Files Call Doc Text :=
  match writes[count]?, tears with
  | some next, true => (files.writeAll (writes.take count)).tear next
  | _, _ => files.writeAll (writes.take count)

end Files

/-- The writes of an accepted call, in order. -/
def writesOf (call : Call) (v : Rendered Doc Text) : List (Write Call Doc Text) :=
  [.findings v.findings, .narrative v.narrative, .accepted call]

/-- Which of the files a rollback gets to put back: the record may throw and a kill may fall
anywhere, and a failed write of the base or the narrative is only noted. -/
structure PutBack where
  findings : Bool
  accepted : Bool
  narrative : Bool
  deriving DecidableEq

/-- `rollbackCorrectivePass`: the record, then `restoreSynthesisBase`. A base the snapshot did not
hold is removed; a narrative it did not hold is left as it stands. -/
def rollback (files snap : Files Call Doc Text) (back : PutBack) : Files Call Doc Text where
  findings := if back.findings then snap.findings else files.findings
  accepted := if back.accepted then snap.accepted else files.accepted
  narrative :=
    match snap.narrative with
    | .absent => files.narrative
    | held => if back.narrative then held else files.narrative

/-- Every file that differs from the snapshot was put back. -/
def PutBack.Whole (back : PutBack) (files snap : Files Call Doc Text) : Prop :=
  (back.findings ∨ files.findings = snap.findings) ∧
    (back.accepted ∨ files.accepted = snap.accepted) ∧
    (back.narrative ∨ files.narrative = snap.narrative)

end

end Synthesis

end Clearotron
