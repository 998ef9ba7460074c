import Clearotron.Searches.HeldList

/-!
# The phrase a register is asked

A term of several words goes out as a chain of its words. An operator word in it is dropped, and
the distance across it is widened by one. A star at either end is put to the first and to the
last word, and comes off at a single character.
-/

namespace Clearotron

structure PhraseLetters extends MarkLetters where
  /-- `JSON.stringify` -/
  stringify : String → String

/-- A row of `MATCH_MODE_TO_FIELD`. -/
structure ModeField where
  name : String
  operator : String := "EQUALS"
  pre : String := ""
  post : String := ""
  phrase : Bool := false
  exact : Bool := false
  allowWildcard : Bool := false
  dropReserved : Bool := false

inductive MatchMode
  | default | contains | exact | phonetic | wildcard | startsWith | beginsWith | endsWith
  deriving DecidableEq, Repr

def markField : String := "WORD_MARK_SPECIFICATION"

/-- `MATCH_MODE_TO_FIELD`. -/
def MatchMode.field : MatchMode → ModeField
  | .default => { name := markField, pre := "*", post := "*", phrase := true, dropReserved := true }
  | .contains =>
    { name := markField, pre := "*", post := "*", phrase := true, dropReserved := true }
  | .exact => { name := "EXACT_WORD_MARK_SPECIFICATION", exact := true }
  | .phonetic =>
    { name := "PHONETIC_WORD_MARK_SPECIFICATION", phrase := true, dropReserved := true }
  | .wildcard => { name := markField, allowWildcard := true, phrase := true }
  | .startsWith => { name := markField, post := "*", phrase := true, dropReserved := true }
  | .beginsWith => { name := markField, post := "*", phrase := true, dropReserved := true }
  | .endsWith => { name := markField, pre := "*", phrase := true, dropReserved := true }

section

variable (T : PhraseLetters)

/-- `PUNCT_ONLY_RE`, of a token. -/
def isPunctOnly (t : List Char) : Bool := t.all fun c => !T.letterOrNumber c

/-- `LIST_SEPARATOR_RE`. -/
def hasListSeparator (s : List Char) : Bool :=
  s.any (· ∈ [',', ';', '/']) || Text.standsAlone "etc".toList none (s.map Char.toLower)

def maxPhraseTokens : Nat := 8

/-- The words of a term, without what is punctuation only. -/
def termTokens (term : String) : List (List Char) :=
  (blankParts (Text.trim term)).filter fun t => !isPunctOnly T t

def assertSingleMarkShape (rawTerm : String) : Except String (List (List Char)) :=
  let raw := Text.trim rawTerm
  let tokens := termTokens T rawTerm
  if tokens = [] then .error ("term " ++ T.stringify raw ++ " has no searchable token")
  else if 1 < tokens.length ∧ hasListSeparator raw.toList then
    .error ("term " ++ T.stringify raw ++ " looks like a LIST or a description, not one mark — " ++
      "it carries a separator (, ; / etc). It would be searched as one long name and come back " ++
      "0, which reads as CLEAN. Send one mark per term instead.")
  else if maxPhraseTokens < tokens.length then
    .error ("term " ++ T.stringify raw ++ " has " ++ toString tokens.length ++ " words, past " ++
      "the " ++ toString maxPhraseTokens ++ "-word bound for a single mark — it reads as prose " ++
      "rather than a name. It would be searched as one long name and come back 0, which reads " ++
      "as CLEAN. Send the mark itself.")
  else .ok tokens

/-- The tokens that are kept, each with the distance owed to it. -/
def keptTokens (dropReserved : Bool) : Nat → List (List Char) → List (Nat × List Char)
  | _, [] => []
  | pendingGap, t :: tokens =>
    if dropReserved && isReservedToken t then keptTokens dropReserved (pendingGap + 1) tokens
    else (pendingGap, t) :: keptTokens dropReserved 1 tokens

/-- The phrase operator with its distance: past a distance of one the digits are needed. -/
def adjacency (gap : Nat) : List Char :=
  "ADJ".toList ++ if 1 < gap then (toString gap).toList else []

/-- The first word, and every other one behind its operator. -/
def chainText (first : List Char) (rest : List (Nat × List Char)) : List Char :=
  first ++ rest.flatMap fun x => ' ' :: adjacency x.1 ++ ' ' :: x.2

def isOneUnit (t : List Char) : Bool := (Text.utf16 (String.ofList t)).length = 1

/-- `/^[^*?]\*$/`. -/
def isStarredUnit : List Char → Bool
  | [c, star] => star = '*' && c ≠ '*' && c ≠ '?' && isOneUnit [c]
  | _ => false

/-- What goes out for the words that are kept. -/
def wrapPhrase (pre post : String) (first : List Char) (rest : List (Nat × List Char)) : String :=
  let last := Chain.lastFrom first rest
  let many : Bool := rest ≠ []
  let value := chainText first rest
  -- a star beside a single character is a query the register gives up on
  let leadWrap := if many && isOneUnit first then "" else pre
  let tailWrap := if many && isOneUnit last then "" else post
  let value := if many && isStarredUnit last then value.dropLast else value
  leadWrap ++ String.ofList value ++ tailWrap

def compilePhraseValue (term pre post : String) (dropReserved : Bool) : Except String String := do
  let raw := Text.trim term
  let tokens ← assertSingleMarkShape T raw
  match keptTokens dropReserved 1 tokens with
  | [] =>
    .error ("term " ++ T.stringify raw ++ " is nothing but operator words, so there is no name " ++
      "left to search — the slice is deferred rather than searched as a different query.")
  | (_, first) :: rest => .ok (wrapPhrase pre post first rest)

/-- `RESERVED_BOOLEAN_RE`. -/
def hasReservedBoolean (t : String) : Bool := (blankParts t).any isOperatorWord

def isParen (c : Char) : Bool := c = '(' || c = ')'

def isWildcard (c : Char) : Bool := c = '*' || c = '?'

def assertSearchableTerm (term : String) (allowWildcard allowParens allowReserved : Bool) :
    Except String String :=
  let t := Text.trim term
  if t = "" then .error "empty search term"
  else if !allowReserved && hasReservedBoolean t then
    .error ("term " ++ T.stringify t ++ " contains a reserved boolean operator (OR/AND/NOT), " ++
      "which this provider parses INSIDE the value string; there is no escape syntax for this " ++
      "field — the slice is deferred rather than searched as a different query")
  else if !allowParens && t.toList.any isParen then
    .error ("term " ++ T.stringify t ++ " contains parentheses, which this provider parses as " ++
      "boolean grouping inside the value string — no escape syntax, so the slice is deferred " ++
      "rather than searched as a different query")
  else if !allowWildcard && t.toList.any isWildcard then
    .error ("term " ++ T.stringify t ++ " contains a wildcard metacharacter (* or ?) but the " ++
      "predicate is not \x60wildcard\x60 — refusing to widen the query implicitly")
  else .ok t

end

example : keptTokens true 1 ["BLACK".toList, "AND".toList, "DECKER".toList] =
    [(1, "BLACK".toList), (2, "DECKER".toList)] := by decide

end Clearotron
