import Clearotron.Library.Chain
import Clearotron.Library.Like
import Clearotron.Library.Tokens
import Clearotron.Register.Text

/-!
# The answers a run already holds

A phrase with an operator word in it is asked as its other words in order. Before it is
sent, the run's own answers are read: one to the same request, and a complete list of a
wider request. What the runtime knows of letters is a parameter.
-/

namespace Clearotron

structure MarkLetters where
  /-- `\p{L}` and `\p{N}` -/
  letterOrNumber : Char → Bool
  /-- what letters compare by without their case -/
  fold : Char → Char
  upper : String → String

/-- The length of an ` OR ` at the start of a text. -/
def orAt (s : List Char) : Option ℕ :=
  let front := (s.takeWhile Text.isSpace).length
  let back := (((s.drop front).drop 2).takeWhile Text.isSpace).length
  if 0 < front ∧ (s.drop front).take 2 = ['O', 'R'] ∧ 0 < back then some (front + 2 + back)
  else none

/-- `s.split(/\s+OR\s+/)`: the leg so far, and how much of an ` OR ` is still to be passed. -/
def splitOr : ℕ → List Char → List Char → List (List Char)
  | _, leg, [] => [leg]
  | n + 1, leg, _ :: s => splitOr n leg s
  | 0, leg, c :: s =>
    match orAt (c :: s) with
    | some n => leg :: splitOr (n - 1) [] s
    | none => splitOr 0 (leg ++ [c]) s

def orLegs (value : String) : List String :=
  ((splitOr 0 [] value.toList).filter (· ≠ [])).map String.ofList

/-- The parts between blanks. -/
def blankParts (s : String) : List (List Char) := tokens (fun c => !Text.isSpace c) s.toList

/-- A pattern as the register reads it: `*` any run of characters within a word, `?` one. -/
def wildcards (pattern : List Char) : List Wild :=
  pattern.map fun c => if c = '*' then .any else if c = '?' then .one else .lit c

/-- `/^ADJ(\d*)$/i`: the distance it states. -/
def gapOf (part : List Char) : Option ℕ :=
  let digits := part.drop 3
  if (part.take 3).map Char.toUpper = ['A', 'D', 'J'] ∧ digits.all Char.isDigit then
    some (if digits = [] then 1 else digits.foldl (fun n d => 10 * n + (d.toNat - 48)) 0)
  else none

/-- The words behind the first, each with the distance in front of it. -/
def chainRest : List (List Char) → Option (List (ℕ × List Wild))
  | [] => some []
  | [adj] => (gapOf adj).map fun _ => []
  | adj :: word :: parts =>
    (gapOf adj).bind fun g => (chainRest parts).map ((g, wildcards word) :: ·)

/-- The chain of words that a leg is, if it is one. -/
def chainOf (leg : String) : Option (Chain (List Wild)) :=
  match blankParts leg with
  | [] => some { head := [], rest := [] }
  | word :: parts => (chainRest parts).map fun rest => { head := wildcards word, rest := rest }

/-- `OPERATOR_WORD`. -/
def isOperatorWord (w : List Char) : Bool :=
  w.map Char.toUpper ∈ ["AND".toList, "OR".toList, "NOT".toList]

/-- `isReservedToken`. -/
def isReservedToken (w : List Char) : Bool :=
  let up := w.map Char.toUpper
  ["AND".toList, "OR".toList, "NOT".toList, "ADJ".toList, "NEAR".toList].any fun r =>
    r.isPrefixOf up && (up.drop r.length).all Char.isDigit

/-- `/\sADJ\d*\s/i` stands in the text. -/
def hasAdj (s : List Char) : Bool :=
  s.tails.any fun t =>
    t.head?.any Text.isSpace && ((t.drop 1).take 3).map Char.toUpper = ['A', 'D', 'J'] &&
      ((t.drop 4).dropWhile Char.isDigit).head?.any Text.isSpace

/-- A leg that proves something of a mark of several words. -/
def provable (leg : String) : Bool :=
  hasAdj leg.toList ||
    (let bare := (Text.trim leg).toList
     bare.head? = some '*' && bare.getLast? = some '*' && 2 ≤ bare.length &&
       !bare.any Text.isSpace)

section

variable (T : MarkLetters)

def wordsOf (text : String) : List (List Char) := tokens T.letterOrNumber text.toList

def wordMatches (pattern : List Wild) (word : List Char) : Bool := Wild.runs T.fold pattern word

/-- Does the leg match a mark of these words? None where it is no chain of words. -/
def legMatches (leg : String) (words : List (List Char)) : Option Bool :=
  (chainOf leg).map fun c => c.reads (wordMatches T) words

def holdsThePhrase (value literal : String) : Bool :=
  let all := wordsOf T literal
  let kept := all.filter fun w => !isOperatorWord w
  (orLegs value).any fun leg =>
    provable leg && legMatches T leg all = some true && legMatches T leg kept = some true

/-- One word of a phrase in the contains form, the first and the last of it with a star;
`leadWrap` and `tailWrap` of `compilePhraseValue` drop it at a single character. -/
def containsWrap (front back : Bool) (w : List Char) : List Wild :=
  let single := decide ((Text.utf16 (String.ofList w)).length = 1)
  (if front && (back || !single) then [Wild.any] else []) ++ Wild.lits w ++
    (if back && (front || !single) then [Wild.any] else [])

/-- The chain that `compilePhraseValue` writes for the words of a term in the contains form. -/
def containsChain (words : List (List Char)) : Option (Chain (List Wild)) :=
  Chain.ofPhrase isReservedToken containsWrap words

end

structure SearchField where
  name : String
  operator : String := "EQUALS"
  value : String
  deriving DecidableEq, Repr

/-- A compiled request; its other members are compared as a whole. -/
structure SearchRequest (O : Type*) where
  registrationOfficeCodes : List String
  searchFields : List SearchField
  options : O
  deriving DecidableEq

structure HeldRecord where
  recordId : String
  markText : Option String := none
  screenMarkText : Option String := none
  screenTransliteration : Option String := none
  office : Option String := none
  classes : Option (List String) := none
  deriving DecidableEq, Repr

inductive HeldState
  | enumerated
  | other (name : String)
  deriving DecidableEq, Repr

/-- What came back for a search. -/
structure HeldBlock where
  state : HeldState
  error : Bool := false
  deferred : Bool := false
  totalHits : Option ℕ := none
  count : Option ℕ := none
  records : Option (List HeldRecord) := none
  officesWithoutGoodsField : List String := []
  query : Option String := none
  deriving DecidableEq, Repr

/-- A search the run has asked. -/
structure HeldAnswer (O : Type*) where
  qid : String
  body : SearchRequest O
  block : Option HeldBlock
  deriving DecidableEq

/-- The search an answer was taken from. -/
structure ReusedFrom where
  qid : String
  query : Option String
  deriving DecidableEq, Repr

def classField : String := "INT_CLASS_NUMBER"

section

variable {O : Type*} [DecidableEq O] (markField : String)

namespace SearchRequest

variable (q : SearchRequest O)

def mark : Option SearchField := q.searchFields.find? fun f => f.name = markField

def classes : List String :=
  match q.searchFields.find? fun f => f.name = classField with
  | some f => orLegs f.value
  | none => []

/-- The fields besides mark and classes, and the options. -/
def rest : List SearchField × O :=
  (q.searchFields.filter fun f => f.name ≠ markField ∧ f.name ≠ classField, q.options)

end SearchRequest

variable (T : MarkLetters)

def markTexts (r : HeldRecord) : List String :=
  ([r.markText, r.screenMarkText, r.screenTransliteration].filterMap id).filter
    fun t => wordsOf T t ≠ []

def inOffices (offices : List String) (r : HeldRecord) : Bool :=
  T.upper (r.office.getD "") ∈ offices

/-- In one of the classes, where any are asked; a record that states none is kept. -/
def inClasses (classes : List String) (r : HeldRecord) : Bool :=
  classes = [] || match r.classes with
    | none => true
    | some stated => stated = [] || stated.any (· ∈ classes)

def takenFrom (offices classes : List String) (leg : String) (r : HeldRecord) : Bool :=
  inOffices T offices r && inClasses classes r &&
    (markTexts T r).any fun t => legMatches T leg (wordsOf T t) = some true

/-- A held answer with the list of its records, where it may narrow to the request. -/
def widerList (want : SearchRequest O) (literal : String) (h : HeldAnswer O) :
    Option (HeldBlock × List HeldRecord) :=
  match h.block with
  | none => none
  | some b =>
    match b.records, h.body.mark markField with
    | some records, some mark =>
      if !b.error && !b.deferred && b.state = .enumerated &&
          holdsThePhrase T mark.value literal &&
          h.body.rest markField = want.rest markField &&
          want.registrationOfficeCodes.all (fun o =>
            o ∈ h.body.registrationOfficeCodes ∧ o ∉ b.officesWithoutGoodsField) &&
          (h.body.classes = [] ||
            want.classes ≠ [] && want.classes.all (· ∈ h.body.classes)) &&
          records.all (fun r => markTexts T r ≠ []) then some (b, records)
      else none
    | _, _ => none

/-- A block whose request is the one asked. -/
def sameRequest (want : SearchRequest O) (h : HeldAnswer O) : Option HeldBlock :=
  h.block.filter fun b => !b.error && !b.deferred && h.body = want

def answerFromHeldList (want : SearchRequest O) (literal : String) (held : List (HeldAnswer O)) :
    Option (HeldBlock × ReusedFrom) :=
  match want.mark markField with
  | none => none
  | some mark =>
    match orLegs mark.value with
    | [leg] =>
      -- a sign that the comparison cannot read would read as no match
      if leg.toList.any fun c =>
          !(T.letterOrNumber c || c = '*' || c = '?' || Text.isSpace c) then none
      else
        (held.findSome? fun h => (sameRequest want h).map fun b =>
          (b, { qid := h.qid, query := b.query })).or
        (held.findSome? fun h => (widerList markField T want literal h).map fun found =>
          let records := found.2.filter
            (takenFrom T want.registrationOfficeCodes want.classes leg)
          ({ state := .enumerated, totalHits := some records.length,
             count := some records.length, records := some records },
           { qid := h.qid, query := found.1.query }))
    | _ => none

end

end Clearotron
