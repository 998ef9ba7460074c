import Clearotron.Library.Keyed
import Clearotron.Library.Scan
import Clearotron.Register.Text
import Mathlib.Data.List.Sort

/-!
# The research a stage is handed

A run keeps each research answer beside its question. A later attempt is handed what the record
holds as a file, one question and its answer a line, and what a stage holds is read back from that
file first, then from the record and from the log of what its sessions asked.
-/

namespace Clearotron.Research

/-- A row of the record: of what it holds, the texts its readers use. -/
structure Row where
  session : Option String := none
  task : Option String := none
  text : Option String := none
  /-- `String(row.ts ?? "")` -/
  ts : String := ""
  deriving DecidableEq

/-- A line of the record. -/
inductive Line
  | torn
  | null
  | row (r : Row)
  deriving DecidableEq

structure Answer where
  task : String
  text : String
  ts : String
  deriving DecidableEq

/-- Is the text an answer, and not an error the formatter returned? -/
def isResearchAnswer (text : String) : Bool :=
  Text.trim text ≠ "" && !"ERROR".toList.isPrefixOf (text.toList.dropWhile Text.isSpace)

/-- What a run of blanks becomes: one blank where a line ends in it. -/
def closeRun (run : List Char) : List Char := if '\n' ∈ run then [' '] else run

/-- `s.replace(/\s*\n\s*/g, " ")`; `run` holds the blanks read last. -/
def joinLines (run : List Char) : List Char → List Char
  | [] => closeRun run
  | c :: rest =>
    if Text.isSpace c then joinLines (run ++ [c]) rest
    else closeRun run ++ c :: joinLines [] rest

def oneLine (s : String) : String := Text.trim (String.ofList (joinLines [] s.toList))

/-- What stands between the question and the answer of a line. -/
def answerMark (digits : List Char) : List Char :=
  [' ', 'A', 'n', 's', 'w', 'e', 'r', ' '] ++ digits ++ [':', ' ']

def questionMark : List Char := ['Q', 'u', 'e', 's', 't', 'i', 'o', 'n', ' ']

/-- One question and its answer on one line. -/
def researchAnswerLine (n : Nat) (task text : String) : List Char :=
  questionMark ++ (toString n).toList ++ [':', ' '] ++ (oneLine task).toList ++
    answerMark (toString n).toList ++ (oneLine text).toList

/-- The characters `.` does not match. -/
def endsLine (c : Char) : Bool := c.toNat ∈ [10, 13, 8232, 8233]

/-- `/^Question (\d+): (.*?) Answer \1: (.*)$/`. -/
def readLine (l : List Char) : Option (String × String) :=
  if questionMark.isPrefixOf l then
    let rest := l.drop questionMark.length
    let digits := rest.takeWhile Char.isDigit
    let behind := rest.dropWhile Char.isDigit
    if digits ≠ [] ∧ [':', ' '].isPrefixOf behind = true ∧ behind.any endsLine = false then
      (Scan.cutAt (answerMark digits) (behind.drop 2)).map fun cut =>
        (String.ofList cut.1, String.ofList cut.2)
    else none
  else none

def isQuote (c : Char) : Bool := "\"'“”‘’«»".toList.contains c

def isClosing (c : Char) : Bool := Text.isSpace c || ".?!".toList.contains c

/-- A question as the join reads it. -/
def questionKey (lower : String → String) (q : String) : String :=
  let bare := (((Text.tidy q).toList.dropWhile isQuote).reverse.dropWhile isQuote).reverse
  lower (String.ofList (bare.reverse.dropWhile isClosing).reverse)

/-- The stage's own session, or a retry of it. -/
def own (sessionKey : String) : Option String → Bool
  | none => false
  | some s =>
    let front := (sessionKey ++ "-rerun").toList
    let digits := s.toList.drop front.length
    s = sessionKey ||
      (front.isPrefixOf s.toList && digits ≠ [] && digits.all Char.isDigit)

/-- A key without the `-rerun<n>` it ends with. -/
def withoutRerun (l : List Char) : Option (List Char) :=
  let digits := l.reverse.takeWhile Char.isDigit
  let front := l.reverse.dropWhile Char.isDigit
  if digits ≠ [] ∧ "nurer-".toList.isPrefixOf front = true then some (front.drop 6).reverse
  else none

/-- A key without every `-rerun<n>` at its end; each takes some of its letters. -/
def baseFrom : Nat → List Char → List Char
  | 0, l => l
  | n + 1, l =>
    match withoutRerun l with
    | none => l
    | some l' => baseFrom n l'

def base (s : String) : List Char := baseFrom s.toList.length s.toList

/-- Are two session keys one stage's? -/
def sameStageSession (a b : Option String) : Bool :=
  match a, b with
  | some a, some b => a ≠ "" && b ≠ "" && base a = base b
  | _, _ => false

/-- The answer a row keeps. -/
def Row.answer? (r : Row) : Option Answer :=
  match r.task, r.text with
  | some task, some text =>
    if Text.trim task ≠ "" ∧ isResearchAnswer text = true then some ⟨task, text, r.ts⟩ else none
  | _, _ => none

/-- The latest answer to a question takes the place of an earlier one. -/
def keepLatest (answers : List Answer) (a : Answer) : List Answer :=
  answers.filter (fun b => b.task ≠ a.task) ++ [a]

/-- The order of the time stamps, by their UTF-16 units. -/
def notLater (a b : Answer) : Prop := Text.utf16 a.ts ≤ Text.utf16 b.ts

instance : DecidableRel notLater := fun a b =>
  inferInstanceAs (Decidable (Text.utf16 a.ts ≤ Text.utf16 b.ts))

/-- The answers of a record that count, in its order. A `null` among its lines is asked for its
question where every session counts, and there the reader fails. -/
def answersOf (sessionKey : String) (ofRun : Bool) : List Line → Option (List Answer)
  | [] => some []
  | .torn :: record => answersOf sessionKey ofRun record
  | .null :: record => if ofRun then none else answersOf sessionKey ofRun record
  | .row r :: record =>
    (answersOf sessionKey ofRun record).map fun answers =>
      if ofRun || own sessionKey r.session then r.answer?.toList ++ answers else answers

def researchAnswersFor (record : List Line) (sessionKey : String) (ofRun : Bool) :
    Option (List Answer) :=
  if sessionKey = "" then some []
  else (answersOf sessionKey ofRun record).map fun answers =>
    (answers.foldl keepLatest []).insertionSort notLater

/-- The text of the file. -/
def handedText (answers : List Answer) : List Char :=
  answers.zipIdx.flatMap fun at' => researchAnswerLine (at'.2 + 1) at'.1.task at'.1.text ++ ['\n']

/-- The file a later attempt is handed; where there are no answers, none is written. -/
def handResearchAnswers (before : Option (List Char)) (record : List Line) (sessionKey : String)
    (ofRun : Bool) : Option (Option (List Char)) :=
  (researchAnswersFor record sessionKey ofRun).map fun answers =>
    if answers = [] then before else some (handedText answers)

inductive From
  | handed
  | asked
  deriving DecidableEq

structure HeldAnswer where
  question : String
  answer : Option String
  origin : From
  deriving DecidableEq

/-- A line of the log of calls. -/
structure Asked where
  tool : Option String
  ok : Bool
  session : Option String
  grid : Bool
  task : Option String
  replay : Bool

/-- The latest saved answer to exactly this question. -/
def savedResearchAnswer (saved : List Row) (task : String) : Option Answer :=
  if Text.trim task = "" then none
  else (saved.filterMap Row.answer?).foldl (fun found a =>
    if Text.trim a.task = Text.trim task ∧ (found.all fun f => notLater f a) then some a
    else found) none

def rowsOf (record : List Line) : List Row :=
  record.filterMap fun l =>
    match l with
    | .row r => some r
    | _ => none

section

variable (lower : String → String)

/-- A question is held as it is first seen. -/
def put (held : Keyed String HeldAnswer) (question : String) (answer : Option String) (origin : From) :
    Keyed String HeldAnswer :=
  let k := questionKey lower question
  if k = "" ∨ (held.get k).isSome then held else held.set k ⟨oneLine question, answer, origin⟩

def putLine (held : Keyed String HeldAnswer) (l : List Char) : Keyed String HeldAnswer :=
  match readLine l with
  | some (question, answer) =>
    if isResearchAnswer answer then put lower held question (some answer) .handed else held
  | none => held

def putRow (sessionKey : Option String) (held : Keyed String HeldAnswer) (r : Row) :
    Keyed String HeldAnswer :=
  match r.task, r.text with
  | some task, some text =>
    if sameStageSession r.session sessionKey && isResearchAnswer text then
      put lower held task (some (oneLine text)) .asked
    else held
  | _, _ => held

/-- The text a completed call is held with. -/
def textOfAsked (kept : List Row) (replayFrom : Option (List Row)) (replay : Bool)
    (question : String) : Option String :=
  let replayed := if replay then (replayFrom.bind (savedResearchAnswer · question)).map Answer.text
    else none
  replayed <|> (kept.filterMap fun r =>
    match r.task, r.text with
    | some task, some text =>
      if Text.trim task = Text.trim question ∧ isResearchAnswer text = true then some text
      else none
    | _, _ => none).getLast?

def putAsked (kept : List Row) (replayFrom : Option (List Row)) (sessionKey : Option String)
    (held : Keyed String HeldAnswer) (a : Asked) : Keyed String HeldAnswer :=
  match a.task with
  | some question =>
    if a.tool = some "perplexity_research" && a.ok && sameStageSession a.session sessionKey &&
        !a.grid then
      put lower held question ((textOfAsked kept replayFrom a.replay question).map oneLine) .asked
    else held
  | none => held

/-- What the writer of a session holds. -/
def heldResearchAnswers (file : Option (List Char)) (record : List Line) (asked : List Asked)
    (replayFrom : Option (List Row)) (sessionKey : Option String) : Keyed String HeldAnswer :=
  let lines := (file.map (·.splitOn '\n')).getD []
  let handed := lines.foldl (putLine lower) .empty
  let kept := (rowsOf record).foldl (putRow lower sessionKey) handed
  asked.foldl (putAsked lower (rowsOf record) replayFrom sessionKey) kept

end

end Clearotron.Research
