import Clearotron.Library.Groups
import Clearotron.Register.Text

/-!
# The fold of a findings document

A second filing of one conflict is folded into one finding, the findings are renumbered, and
what cites a finding by its ordinal follows. A finding keeps the texts of the member it is
folded into, with the registrations of all of them. What the runtime knows of letters and of
the order of dates is a parameter.
-/

namespace Clearotron

/-- What is relied on of the runtime's texts. -/
structure FindingTexts where
  /-- `toLowerCase()` -/
  lower : String → String
  /-- `normalize("NFKC")` -/
  nfkc : String → String
  /-- punctuation, or spacing -/
  apart : Char → Bool
  /-- `a.localeCompare(b) <= 0` -/
  dateLe : String → String → Bool
  dateLe_trans : ∀ a b c, dateLe a b = true → dateLe b c = true → dateLe a c = true
  dateLe_total : ∀ a b, (dateLe a b || dateLe b a) = true

namespace Findings

structure Registration where
  uri : Option String := none
  classes : List String := []
  status : Option String := none
  filed : Option String := none
  expiry : Option String := none
  jurisdiction : Option String := none
  deriving DecidableEq, Repr

structure Owner where
  name : Option String := none
  country : Option String := none
  registrations : List Registration := []
  deriving DecidableEq, Repr

structure Deadline where
  kind : Option String := none
  date : String
  deriving DecidableEq, Repr

inductive Disposition
  | adversarial
  | coexistencePartner
  | distinguished
  | offField
  | withdrawn
  deriving DecidableEq, Repr

structure Finding where
  ordinal : ℕ
  mark : String
  owner : Owner := {}
  disposition : Option Disposition := none
  composite : Option ℕ := none
  band : Option String := none
  deadline : Option Deadline := none
  /-- what is written of the finding, which goes with it -/
  prose : List (String × String) := []
  deriving DecidableEq, Repr

def Finding.withdrawn (f : Finding) : Bool := f.disposition = some .withdrawn

inductive ActionKind
  | consent
  | coexistenceAgreement
  | territorialDelimitation
  | goodsAmendment
  | markModification
  | seniorClearance
  | proceedingResponse
  | counselOpinionRequired
  | clientFact
  | commercialDecision
  | monitoring
  | filingRoutine
  deriving DecidableEq, Repr

/-- `CONDITION_KINDS`. -/
def conditionKinds : List ActionKind :=
  [.consent, .coexistenceAgreement, .territorialDelimitation, .goodsAmendment,
    .markModification, .seniorClearance, .proceedingResponse, .counselOpinionRequired]

/-- `ADVISORY_KINDS`. -/
def advisoryKinds : List ActionKind :=
  [.clientFact, .commercialDecision, .monitoring, .filingRoutine]

structure Action where
  id : ℕ
  kind : ActionKind
  text : String
  ordinals : List ℕ
  deadline : Option Deadline := none
  condition : Option String := none
  deriving DecidableEq, Repr

structure FourAnswer where
  read : String
  token : Option String := none
  basis : Option String := none
  ordinals : Option (List ℕ) := none
  deriving DecidableEq, Repr

structure AskAnswer where
  ask : String
  answer : String
  ordinals : Option (List ℕ) := none
  deriving DecidableEq, Repr

/-- A findings document: what the fold reads of it. -/
structure Doc where
  schemaVersion : ℕ := 1
  findings : List Finding
  actions : Option (List Action) := none
  /-- the answers under their keys, none where an answer is null -/
  fourAnswers : Option (List (String × Option FourAnswer)) := none
  askAnswers : Option (List AskAnswer) := none
  deriving DecidableEq, Repr

/-- A document as the strict parser accepts it: an ordinal stands once, and an action cites
only findings of the document; a deadline has a date. -/
structure ParsedDoc where
  doc : Doc
  once : (doc.findings.map Finding.ordinal).Nodup
  dated : ∀ f ∈ doc.findings, ∀ d, f.deadline = some d → Text.trim d.date ≠ ""
  known : ∀ a ∈ doc.actions.getD [], ∀ n ∈ a.ordinals, n ∈ doc.findings.map Finding.ordinal

variable (T : FindingTexts)

/-- `[a-z0-9]`. -/
def isLatin (c : Char) : Bool :=
  (97 ≤ c.toNat && c.toNat ≤ 122) || (48 ≤ c.toNat && c.toNat ≤ 57)

/-- The runs of Latin letters and digits, a blank between them. -/
def latinOf (t : String) : String :=
  Text.tidy (String.ofList ((T.lower t).toList.map fun c => if isLatin c then c else ' '))

def foldKey (s : String) : String :=
  let t := Text.trim s
  if latinOf T t ≠ "" then latinOf T t
  else if t ≠ "" then "raw:" ++ T.lower (T.nfkc t)
  else ""

def consolidationKey (f : Finding) : String :=
  foldKey T (f.owner.name.getD "") ++ "|" ++ foldKey T f.mark ++
    if f.withdrawn then "|~withdrawn~" ++ toString f.ordinal else ""

/-- The labels of the framework's bands, the worst first. -/
abbrev Manifest := List String

def normLabel (s : String) : String := T.lower (Text.trim s)

def bandIndex (manifest : Manifest) (label : String) : Option ℕ :=
  manifest.findIdx? fun b => normLabel T b = normLabel T label

def maxSafeInteger : ℤ := 9007199254740991

/-- The less it is, the worse is the finding. -/
def severity (manifest : Option Manifest) (f : Finding) : ℤ :=
  match manifest, f.band with
  | some manifest, some band =>
    match bandIndex T manifest band with
    | some i => i
    | none => maxSafeInteger
  | some _, none => maxSafeInteger
  | none, _ => -(f.composite.getD 0 : ℕ)

/-- Worse, or as bad and earlier. -/
def worseLe (manifest : Option Manifest) (a b : Finding) : Bool :=
  severity T manifest a < severity T manifest b ||
    (severity T manifest a = severity T manifest b && a.ordinal ≤ b.ordinal)

/-- The registrations that are taken, those with a URI once. -/
def takeRegistrations (seen : List String) : List Registration → List Registration
  | [] => []
  | r :: rest =>
    let u := T.lower (r.uri.getD "")
    if u ≠ "" ∧ u ∈ seen then takeRegistrations seen rest
    else r :: takeRegistrations (if u = "" then seen else u :: seen) rest

/-- The earliest deadline of the members. -/
def memberDeadline (members : List Finding) : Option Deadline :=
  match (members.filterMap Finding.deadline).filter fun d => Text.trim d.date ≠ "" with
  | [] => none
  | d :: rest => some (firstLeast (fun a b => T.dateLe a.date b.date) d rest)

/-- The member a conflict is folded into. -/
def baseOf (manifest : Option Manifest) (g : Group Finding) : Finding :=
  firstLeast (worseLe T manifest) g.first g.later

def foldGroup (manifest : Option Manifest) (g : Group Finding) : Finding :=
  if g.later = [] then g.first
  else
    let base := baseOf T manifest g
    { base with
      deadline :=
        if base.deadline.any (·.date ≠ "") then base.deadline
        else (memberDeadline T g.members).or base.deadline
      owner :=
        { base.owner with
          registrations :=
            takeRegistrations T [] (g.members.flatMap fun m => m.owner.registrations) } }

structure Merge where
  mark : String
  owner : String
  kept : ℕ
  dropped : List ℕ
  deriving DecidableEq, Repr

def mergeOf (manifest : Option Manifest) (g : Group Finding) : Option Merge :=
  if g.later = [] then none
  else
    let base := baseOf T manifest g
    some
      { mark := base.mark, owner := base.owner.name.getD "", kept := base.ordinal
        dropped := (g.members.filter (· ≠ base)).map Finding.ordinal }

structure Consolidated where
  findings : List Finding
  merges : List Merge
  ordinalMap : Keyed ℕ ℕ
  deriving DecidableEq

/-- The conflicts of a document, in the order of their first filings. -/
def conflicts (findings : List Finding) : Keyed String (Group Finding) :=
  groupsBy (consolidationKey T) findings

/-- Each old ordinal with the new one. -/
def renumbering (findings : List Finding) : List (ℕ × ℕ) :=
  (conflicts T findings).entries.zipIdx.flatMap fun p =>
    p.1.2.members.map fun m => (m.ordinal, p.2 + 1)

def consolidateFindings (findings : List Finding) (manifest : Option Manifest) : Consolidated :=
  { findings :=
      (conflicts T findings).entries.zipIdx.map fun p =>
        { foldGroup T manifest p.1.2 with ordinal := p.2 + 1 }
    merges := (conflicts T findings).entries.filterMap fun kv => mergeOf T manifest kv.2
    ordinalMap := (renumbering T findings).foldl (fun m p => m.set p.1 p.2) .empty }

/-- A citation that the map does not know is dropped, and an action with no other goes. -/
def remapActionOrdinals (actions : List Action) (ordinalMap : Keyed ℕ ℕ) : List Action :=
  actions.filterMap fun a =>
    let mapped := (a.ordinals.filterMap ordinalMap.get).eraseDups
    if a.ordinals ≠ [] ∧ mapped = [] then none else some { a with ordinals := mapped }

/-- A citation that the map does not know stays as it is. -/
def remapFourAnswersOrdinals (fourAnswers : List (String × Option FourAnswer))
    (ordinalMap : Keyed ℕ ℕ) : List (String × Option FourAnswer) :=
  fourAnswers.map fun ka =>
    (ka.1, ka.2.map fun a =>
      { a with
        ordinals := a.ordinals.map fun ns =>
          (ns.map fun n => (ordinalMap.get n).getD n).eraseDups })

structure FoldMap where
  modelToFolded : Keyed ℕ ℕ
  foldedToModel : Keyed ℕ (List ℕ)
  deriving DecidableEq

def bothWays (ordinalMap : Keyed ℕ ℕ) : FoldMap where
  modelToFolded := ordinalMap
  foldedToModel :=
    ordinalMap.entries.foldl
      (fun m kv => m.set kv.2 ((m.get kv.2).getD [] ++ [kv.1])) .empty

structure Folded where
  doc : Doc
  merges : List Merge := []
  map : Option FoldMap := none
  deriving DecidableEq

def foldRecord (doc : Doc) (manifest : Option Manifest) : Folded :=
  if doc.findings.length < 2 then { doc }
  else
    let c := consolidateFindings T doc.findings (if 4 ≤ doc.schemaVersion then manifest else none)
    if c.merges = [] then { doc }
    else
      { doc :=
          { doc with
            findings := c.findings
            actions := doc.actions.map fun actions => remapActionOrdinals actions c.ordinalMap
            fourAnswers :=
              doc.fourAnswers.map fun answers => remapFourAnswersOrdinals answers c.ordinalMap }
        merges := c.merges
        map := some (bothWays c.ordinalMap) }

structure Conditions where
  conditions : List String
  conditionClauses : List String
  advisories : List String
  conditionActions : List Action
  advisoryActions : List Action
  deriving DecidableEq

/-- An action is dead when every finding it cites is withdrawn. -/
def Action.live (findings : List Finding) (a : Action) : Bool :=
  a.ordinals = [] || a.ordinals.any fun n =>
    !((findings.filter Finding.withdrawn).map Finding.ordinal).contains n

def textsOf (texts : List String) : List String := (texts.map Text.trim).filter (· ≠ "")

def deriveActionConditions (actions : Option (List Action)) (findings : List Finding) :
    Conditions :=
  let live := (actions.getD []).filter (Action.live findings)
  let conditionActions := live.filter fun a => a.kind ∈ conditionKinds
  let advisoryActions := live.filter fun a => a.kind ∈ advisoryKinds
  { conditions := textsOf (conditionActions.map Action.text)
    conditionClauses := textsOf (conditionActions.map fun a => a.condition.getD a.text)
    advisories := textsOf (advisoryActions.map Action.text)
    conditionActions := conditionActions
    advisoryActions := advisoryActions }

end Findings

end Clearotron
