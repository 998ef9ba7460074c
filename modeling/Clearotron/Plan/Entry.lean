import Clearotron.Register.Text

/-!
# Plan entries

A register plan is a document: a list of entries, each one question of the register. It
is read back from JSON, so what the document spells out of a closed vocabulary stays
readable here as `other`, and the gates that read a plan say which spellings they take.
-/

namespace Clearotron

/-- The axes of a register search, in the plan's order. -/
inductive Axis where
  | saturationProbe
  | primarySweep
  | transliterationNumeric
  | incumbentClass
  | other (text : String)
  deriving DecidableEq

def Axis.text : Axis → String
  | saturationProbe => "saturation-probe"
  | primarySweep => "primary-sweep"
  | transliterationNumeric => "transliteration-numeric"
  | incumbentClass => "incumbent-class"
  | other text => text

/-- `REGISTER_AXES`. -/
def registerAxes : List Axis :=
  [.saturationProbe, .primarySweep, .transliterationNumeric, .incumbentClass]

/-- How a term is matched. -/
inductive Predicate where
  | exact
  | default
  | wildcard
  | phonetic
  | owner
  | other (text : String)
  deriving DecidableEq

def Predicate.text : Predicate → String
  | exact => "exact"
  | default => "default"
  | wildcard => "wildcard"
  | phonetic => "phonetic"
  | owner => "owner"
  | other text => text

/-- `PLAN_PREDICATES`. -/
def planPredicates : List Predicate := [.exact, .default, .wildcard, .phonetic, .owner]

inductive ExpectedKind where
  | enumerate
  | count
  | other (text : String)
  deriving DecidableEq

/-- `EXPECTED_KINDS`. -/
def expectedKinds : List ExpectedKind := [.enumerate, .count]

/-- `PLAN_PROVENANCE`: who put a term in the plan. -/
inductive Provenance where
  | floor
  | model
  | mark
  | other (text : String)
  deriving DecidableEq

def planProvenance : List Provenance := [.floor, .model, .mark]

/-- What an entry waits for: the reading turn, which no result releases, or a parent
question coming back enumerated. -/
inductive Guard where
  | awaitsReadingTurn
  | runsIfEnumerated (parent : Option String)
  deriving DecidableEq

namespace Guard

def awaits : Guard → Bool
  | awaitsReadingTurn => true
  | runsIfEnumerated _ => false

/-- The question a guard waits on, none where it waits on no question. -/
def guardParentQid : Guard → Option String
  | awaitsReadingTurn => none
  | runsIfEnumerated parent => parent

end Guard

/-- One question of a plan. -/
structure Entry where
  qid : String
  axis : Axis
  predicate : Predicate
  term : Option String := none
  terms : Option (List String) := none
  expectedKind : ExpectedKind
  niceClasses : List String := []
  regions : List String := []
  owner : Option String := none
  goodsText : List String := []
  goodsTextGaps : List (List Nat) := []
  coveredBy : Option (List String) := none
  guard : Option Guard := none
  unsupported : Bool := false
  unsupportedReason : Option String := none
  termLiteral : Bool := false
  provenance : Option Provenance := none
  crowdGateParent : Bool := false
  romanizedTerms : List String := []
  /-- asked in another form than the exact one, and read last -/
  exactSubstituted : Bool := false
  containsSubstituted : Bool := false
  /-- `"supplemental"` where a later lane minted the row -/
  supplemental : Bool := false
  /-- the row that confirms the client's own element, and the remainder beside it -/
  houseElementConfirmation : Bool := false
  houseElementRemainder : String := ""
  deriving DecidableEq

namespace Entry

/-- The names an entry asks about: its list, else its one term. -/
def names (e : Entry) : List String :=
  match e.terms with
  | some terms => terms
  | none => e.term.toList

/-- The term a reason names: the one term, else the first of the list. -/
def firstTerm (e : Entry) : Option String := e.term <|> (e.terms.getD []).head?

/-- The owner an entry is narrowed to, where it names one. -/
def ownerScope (e : Entry) : Option String := (e.owner.map Text.trim).filter (· ≠ "")

/-- Does the entry wait for the reading turn? -/
def awaits (e : Entry) : Bool := e.guard.any Guard.awaits

/-- The goods words of an entry, trimmed, each once. -/
def goodsTermsList (e : Entry) : List String :=
  e.goodsText.foldl (fun out t =>
    let s := Text.trim t
    if s ≠ "" ∧ s ∉ out then out ++ [s] else out) []

end Entry

/-- A frozen plan. -/
structure Plan where
  planVersion : Option Nat := none
  regions : List String := []
  entries : List Entry
  deriving DecidableEq

end Clearotron
