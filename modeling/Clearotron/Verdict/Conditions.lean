import Clearotron.Verdict.EngineWords

/-!
# The conditions of a verdict

A verdict is stored with the reasons of the run's record and, beside them, the clauses a client
reads. The list of conditions, the list of those that could not be rendered and the one-line
statement are each worked out from the two, which need not have one length.
-/

namespace Clearotron.Verdict

open EngineWords

/-- What the code takes from the runtime. -/
structure ConditionText where
  /-- a number as it is printed, none where it is not finite -/
  print : ℕ → Option String
  /-- `toUpperCase` -/
  upper : String → String
  /-- `\p{Ll}` -/
  isSmall : Char → Bool
  /-- `c.toUpperCase()` -/
  capital : Char → String
  /-- a number is its digits, or some of them and an exponent -/
  print_digits : ∀ n s, print n = some s → ∃ m e, s.toList = m ++ e ∧ m ≠ [] ∧
    (∀ c ∈ m, c.isDigit = true ∨ c = '.') ∧
      (e = [] ∨ ∃ d, e = 'e' :: '+' :: d ∧ ∀ c ∈ d, c.isDigit = true)
  capital_filled : ∀ c, capital c ≠ ""
  /-- the capital of an ASCII letter is its own -/
  capital_ascii : ∀ c, isSmall c = true → c.toNat < 128 → ∃ u, capital c = String.singleton u ∧
    u.toLower = c.toLower

/-- The sidecar's conditions, a `null` as none. -/
structure Sidecar where
  reasons : List (Option String) := []
  clauses : List (Option String) := []

def Sidecar.clauseAt (s : Sidecar) (i : ℕ) : Option (Option String) := s.clauses[i]?

/-- A text, trimmed, a missing one as blank. -/
def text (r : Option String) : String := Text.trim (r.getD "")

section

variable (T : ConditionText)

def unaccountedRecords (n m : String) : String :=
  n ++ " of the " ++ m ++ " register records this search surfaced are neither addressed as " ++
    "findings nor expressly set aside in this report — they remain open points a reader must weigh"

def rankingChanged (one : Bool) (n : String) : String :=
  if one then "1 register record was re-ranked after this report was written; the audit trail " ++
    "gives its final ranking"
  else n ++ " register records were re-ranked after this report was written; the audit trail " ++
    "gives their final ranking"

def floorUndischarged (n m : String) : String :=
  n ++ " of the " ++ m ++ " live registrations identical or near-identical to the mark are not " ++
    "individually addressed in this report — each remains an open point a reader must weigh"

/-- What every object answers to, and what comes of calling it with a number: a text, blank where
it is `false`, or an error. -/
def objectMembers (n : String) : List (String × Except String String) :=
  [("constructor", .ok n), ("toString", .ok "[object Undefined]"), ("isPrototypeOf", .ok ""),
   ("hasOwnProperty", .error "TypeError"), ("propertyIsEnumerable", .error "TypeError"),
   ("toLocaleString", .error "TypeError"), ("valueOf", .error "TypeError")]

/-- `CLAUSE_AUTHORITY[defect]`, called. -/
def clauseAuthority (defect : String) (one : Bool) (n m : String) :
    Option (Except String String) :=
  (("synthesis_unaccounted_delivered", .ok (unaccountedRecords n m)) ::
    ("recall_reconciliation_unended", .ok (unaccountedRecords n m)) ::
    ("ranking_changed_unread", .ok (rankingChanged one n)) ::
    ("floor_duty_undischarged", .ok (floorUndischarged n m)) :: objectMembers n).lookup defect

/-- The client's sentence for a defect and its counts; `.error` where the call throws. -/
def clauseForDefect (defect : String) (n m : ℕ) : Except String (Option String) :=
  match T.print n, T.print m with
  | some a, some b =>
    match clauseAuthority defect (n = 1) a b with
    | none => .ok none
    | some composed => composed.map some
  | _, _ => .ok none

/-- A number with its commas, and what follows it. -/
def countAt (l : List Char) : Option (ℕ × List Char) :=
  let run := l.takeWhile fun c => c.isDigit || c = ','
  if run.head?.any Char.isDigit then
    some ((run.filter Char.isDigit).foldl (fun n c => 10 * n + (c.toNat - 48)) 0,
      l.drop run.length)
  else none

/-- What is behind one blank or more. -/
def behindBlanks (l : List Char) : Option (List Char) :=
  if l.head?.any Text.isSpace then some (l.dropWhile Text.isSpace) else none

/-- `REASON_PREFIX_RE`: the token, and the two counts. -/
def reasonPrefix (l : List Char) : Option (String × ℕ × ℕ) := do
  let token := l.takeWhile Text.isWord
  guard (token.head?.any Char.isAlpha)
  let rest := l.drop token.length
  guard (rest.head? = some ':')
  let (n, rest) ← countAt (rest.drop 1)
  let rest ← behindBlanks rest
  guard ((rest.take 2).map Char.toLower = "of".toList)
  let rest ← behindBlanks (rest.drop 2)
  let (m, rest) ← countAt rest
  guard (rest.head?.any Text.isSpace)
  some (String.ofList token, n, m)

def clauseFromReason (reason : String) : Except String (Option String) :=
  match reasonPrefix reason.toList with
  | none => .ok none
  | some (token, n, m) => clauseForDefect T token n m

/-- The condition of one reason, blank where none is rendered. -/
def renderOne (clause : Option (Option String)) (r : Option String) : Except String String :=
  if clause = some none then .ok ""
  else if text (clause.bind id) ≠ "" then
    .ok (if carriesEngineWords (text (clause.bind id)).toList then "" else text (clause.bind id))
  else if text r = "" then .ok ""
  else do
    let composed ← clauseFromReason T (text r)
    .ok (composed.getD (if carriesEngineWords (text r).toList then "" else text r))

def clientConditions (s : Sidecar) : Except String (List String) := do
  let rendered ← s.reasons.zipIdx.mapM fun x => renderOne T (s.clauseAt x.2) x.1
  .ok (rendered.filter (· ≠ ""))

/-- Is this a reason that reaches no client? -/
def listOne (clause : Option (Option String)) (r : Option String) : Except String Bool :=
  if clause = some none then .ok false
  else if text (clause.bind id) ≠ "" then
    .ok (carriesEngineWords ((clause.bind id).getD "").toList)
  else if text r = "" then .ok false
  else do
    let composed ← clauseFromReason T (text r)
    .ok (!composed.any (· ≠ "") && carriesEngineWords (text r).toList)

def unrenderableConditions (s : Sidecar) : Except String (List String) := do
  let listed ← s.reasons.zipIdx.mapM fun x => do
    let listed ← listOne T (s.clauseAt x.2) x.1
    .ok (if listed then some (Text.trim (x.1.getD "null")) else none)
  .ok (listed.filterMap id)

/-- A clause that is not stated. -/
def isHeld (clause : Option (Option String)) : Bool :=
  match clause with
  | some none => true
  | some (some c) => carriesEngineWords c.toList
  | none => false

def statedReasons (s : Sidecar) : List String :=
  ((s.reasons.zipIdx.filter fun x => !isHeld (s.clauseAt x.2)).map fun x => text x.1).filter
    (· ≠ "")

def statedClauses (s : Sidecar) : List String :=
  ((s.clauses.filter fun c => !isHeld (some c)).map text).filter (· ≠ "")

/-- What a lead may open with: blanks, marks of emphasis, quotes and brackets. -/
def isOpener (c : Char) : Bool := Text.isSpace c || "*_\x60\"'([\x7b«‘’‚‛“”„-".toList.contains c

/-- Capital at the start, behind what the lead opens with. -/
def sentenceCaseLead (l : List Char) : List Char :=
  let opening := l.takeWhile isOpener
  match l.drop opening.length with
  | [] => l
  | c :: rest => if T.isSmall c then opening ++ (T.capital c).toList ++ rest else l

def statementClauseMax : ℕ := 170

def unitsOf (l : List Char) : ℕ := (l.map fun c => if c.toNat < 0x10000 then 1 else 2).sum

/-- The letters that fit in some UTF-16 units. -/
def within : ℕ → List Char → List Char
  | _, [] => []
  | n, c :: l =>
    let size := unitsOf [c]
    if size ≤ n then c :: within (n - size) l else []

def trimEnd (l : List Char) : List Char := (l.reverse.dropWhile Text.isSpace).reverse

/-- Without the stops and blanks at its end. -/
def withoutStop (l : List Char) : List Char :=
  (l.reverse.dropWhile fun c => c = '.' || Text.isSpace c).reverse

/-- What stands before the last blank, where there is one. -/
def beforeLastBlank (l : List Char) : Option (List Char) :=
  if ' ' ∈ l then some ((l.reverse.dropWhile (· ≠ ' ')).drop 1).reverse else none

/-- Clip a clause at a word, where one ends far enough; half a letter is not kept. -/
def clipClause (s : List Char) (max : ℕ) : List Char :=
  let t := withoutStop (Text.trim (String.ofList s)).toList
  if unitsOf t ≤ max then t
  else
    match (beforeLastBlank (within (max + 1) t)).filter fun front => 40 < unitsOf front with
    | some front => trimEnd front ++ ['…']
    | none =>
      let cut := within max t
      (if unitsOf cut = max then trimEnd cut else cut) ++ ['…']

def lede (c : String) : List Char :=
  clipClause (sentenceCaseLead T c.toList) statementClauseMax

def basisNote (registerOnly : Bool) : String :=
  if registerOnly then " Register findings only — no common-law or marketplace search was run."
  else ""

/-- The band word alone. -/
def bandAlone (t : String) (registerOnly : Bool) : String :=
  if registerOnly then t ++ "." ++ basisNote true else t

/-- ` (and n more)`, where there are more. -/
def moreText (n : ℕ) : List Char :=
  if n = 0 then [] else " (and ".toList ++ (toString n).toList ++ " more)".toList

def conditionalOn (t : String) (first more : List Char) (registerOnly : Bool) : String :=
  String.ofList (t.toList ++ " — conditional on: ".toList ++ first ++ more ++
    (if first.getLast? = some '…' then [] else ['.'])) ++ basisNote registerOnly

def riskStatement (tier verdict : Option String) (registerOnly : Bool) (s : Sidecar) :
    Option String :=
  let v := T.upper (verdict.getD "")
  let t := text tier
  if v = "" ∨ t = "" then none
  else if v = "BLOCKING" then some (bandAlone t registerOnly)
  else if v = "CONDITIONAL" then
    match (statedClauses s).head? <|> (statedReasons s).head? with
    | none => some (bandAlone t registerOnly)
    | some c =>
      let n := if statedReasons s = [] then (statedClauses s).length else (statedReasons s).length
      some (conditionalOn t (lede T c) (moreText (n - 1)) registerOnly)
  else if registerOnly then
    some (t ++ " — clear on register findings alone: no common-law or marketplace search was run.")
  else some (t ++ " — clear to proceed: no conditions beyond ordinary filing.")

/-- ` (and n more)` at the start of a text, and what is behind it. -/
def countHere (l : List Char) : Option (ℕ × List Char) :=
  let behind := l.drop 6
  let digits := behind.takeWhile Char.isDigit
  if " (and ".toList.isPrefixOf l && digits ≠ [] &&
      " more)".toList.isPrefixOf (behind.drop digits.length) then
    some (digits.foldl (fun n c => 10 * n + (c.toNat - 48)) 0, behind.drop (digits.length + 6))
  else none

/-- The first count of a text: what is before it, the number, and what is behind. -/
def firstCount : List Char → Option (List Char × ℕ × List Char)
  | [] => none
  | c :: l =>
    match countHere (c :: l) with
    | some (n, rest) => some ([], n, rest)
    | none => (firstCount l).map fun x => (c :: x.1, x.2)

/-- The stored statement, its count made that of the conditions the client reads. -/
def clientStatement (statement : String) (s : Sidecar) : Except String String :=
  match firstCount statement.toList with
  | none => .ok statement
  | some (front, n, back) => do
    let conditions ← clientConditions T s
    if conditions = [] ∨ conditions.length - 1 = n then .ok statement
    else .ok (String.ofList (front ++ moreText (conditions.length - 1) ++ back))

end

end Clearotron.Verdict
