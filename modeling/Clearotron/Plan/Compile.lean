import Clearotron.Library.Firsts
import Clearotron.Placement.Index
import Clearotron.Plan.Regions
import Clearotron.Plan.TermShape

/-!
# The register plan, compiled

The manifest of a matter is put as questions of the register: its mark and what the mark is
widened to. What the provider declares decides how a question is asked, and what it cannot ask
stays in the plan as unsupported. Every push goes through one funnel that names the question,
and one late pass decides which questions wait for the reading turn.
-/

namespace Clearotron

open Placement (PlacementText formKey)

/-- What the compiler takes from the runtime, and the rule of the scripts of markets. -/
structure PlanText extends PlacementText where
  unicode : Unicode
  /-- `normalize("NFD")` -/
  canonical : String → String
  /-- `normalize("NFC")` -/
  composed : String → String
  /-- `JSON.stringify` of a text -/
  stringify : String → String
  /-- `scriptQuestionsByMarket`: of the forms, those asked, each with its markets -/
  scriptQuestions : List String → List String → List (String × List String)

/-- What the provider declares of the questions it takes. -/
structure PlanCapabilities extends OfficeCapabilities where
  maxOrWidth : Option Rat := none
  exactOrWidth : Option Rat := none
  /-- the provider's mode of each predicate, where the contract lists them -/
  predicates : Option (String → Option String) := none
  goodsTextSearch : Bool := false
  goodsTextListOr : Bool := false
  goodsTextMultiWord : Bool := false
  /-- an integer, where it is one -/
  containsMinLength : Option Nat := none
  exactOperatorWords : List String := []

structure ManifestElement where
  value : String
  kind : String

structure Variant where
  value : String
  category : String
  romanization : Option String := none

structure VariantManifest where
  mark : String
  dominantElement : String
  elements : List ManifestElement := []
  variants : List Variant := []
  /-- none where the stage never answered -/
  goodsWords : Option (List String) := none

structure FormBand where
  exactQueries : List String := []
  wildcardPatterns : List String := []

structure FormElement where
  element : String
  band : Option FormBand := none

structure AddedClass where
  cls : String
  reason : String
  deriving DecidableEq

/-- An office the provider covers and this deployment cannot reach. -/
structure UnavailableOffice where
  office : String
  memberId : Option String := none
  missing : List String := []

structure CompileInput where
  manifest : VariantManifest
  classes : List String
  jurisdictions : Option (List String) := none
  form : List FormElement := []
  capabilities : Option PlanCapabilities := none
  unavailableOffices : List UnavailableOffice := []
  houseElement : Option String := none
  addedClasses : List AddedClass := []
  frameMarkets : List String := []
  priorityMarkets : List String := []
  majorMarkets : List String := []

/-- What is given to `push`. -/
structure Ask where
  axis : Axis := .primarySweep
  predicate : Predicate
  term : Option String := none
  terms : Option (List String) := none
  expectedKind : ExpectedKind := .enumerate
  provenance : Provenance
  niceClasses : Option (List String) := none
  regions : Option (List String) := none
  goodsText : List String := []
  goodsTextGaps : List (List Nat) := []
  crowdGateParent : Bool := false
  termLiteral : Bool := false
  exactSubstituted : Bool := false
  containsSubstituted : Bool := false
  qidSuffix : String := ""
  dropIssue : Option String := none
  deriving DecidableEq

/-- The names a push asks about. -/
def Ask.names (a : Ask) : List String :=
  match a.terms with
  | some terms => terms
  | none => [a.term.getD ""]

/-- `e.term ?? e.terms?.[0]`. -/
def Ask.firstTerm (a : Ask) : String := (a.term <|> (a.terms.getD []).head?).getD ""

/-- `[a-z0-9]`. -/
def isPlain (c : Char) : Bool :=
  (97 ≤ c.toNat && c.toNat ≤ 122) || (48 ≤ c.toNat && c.toNat ≤ 57)

/-- Runs of other characters are one dash, and none at the ends. -/
def dashed : Bool → Bool → List Char → List Char
  | _, _, [] => []
  | begun, owed, c :: rest =>
    if isPlain c then (if begun && owed then ['-', c] else [c]) ++ dashed true false rest
    else dashed begun true rest

/-- A hexadecimal digit. -/
def hexDigit (n : Nat) : Char := if n < 10 then Char.ofNat (48 + n) else Char.ofNat (87 + n)

section

variable (T : PlanText)

/-- `norm`. -/
def norm (s : String) : String := String.ofList ((T.lower s).toList.filter isPlain)

def latinFold (s : String) : String :=
  let marksOff := (T.canonical (T.lower s)).toList.filter fun c => !(768 ≤ c.toNat && c.toNat ≤ 879)
  Text.slice 48 (String.ofList (dashed false false marksOff))

/-- The first eight digits of `fingerprint`: FNV-1a of the quoted text. -/
def fingerprint8 (s : String) : String :=
  let h := (Text.utf16 (T.stringify s)).foldl (fun h c => ((h ^^^ c) * 16777619) % 2 ^ 32) 2166136261
  String.ofList ((List.range 8).map fun i => hexDigit (h / 16 ^ (7 - i) % 16))

def termIdentity (s : String) : String :=
  if latinFold T s ≠ "" then latinFold T s else "q-" ++ fingerprint8 T s

def romanizationSpellings (value : String) : List String :=
  let spaced := Text.tidy (T.composed value)
  let joined := String.ofList (spaced.toList.filter (· ≠ ' '))
  if spaced = "" then [] else if joined = spaced then [spaced] else [spaced, joined]

/-- The readings the manifest gives of the terms of one key, each once. -/
def romanReadings (variants : List Variant) (key : String) : List String :=
  (variants.filter fun v => formKey T.toPlacementText v.value = key).foldl (fun readings v =>
    match v.romanization.filter (· ≠ "") with
    | none => readings
    | some romanization =>
      match (romanizationSpellings T romanization).head? with
      | none => readings
      | some reading =>
        if readings.any fun r => (romanizationSpellings T r).head?.map T.upper = some (T.upper reading)
        then readings
        else readings ++ [romanization]) []

/-- `romanStamp`: an owner or a list of terms carries none. -/
def romanStamp (variants : List Variant) (a : Ask) : List String :=
  if a.predicate = .owner ∨ a.terms.isSome then []
  else ((romanReadings T variants (formKey T.toPlacementText (a.term.getD ""))).flatMap
    (romanizationSpellings T)).foldl pushNew []

end

def termAnnotationIssue (term : String) : Option String :=
  let t := Text.trim term
  if Text.includes t "(" || Text.includes t ")" then some "parenthetical"
  else if Text.includes t "—" || Text.includes t ";" then some "sentence punctuation"
  else if Text.flanked (· = '/') t.toList then some "space-flanked slash"
  else none

/-- Is a value the variants stage wrote no term to search? -/
def variantTermIssue (value : String) : Option String :=
  let t := Text.trim value
  let label := fun why => "label/prose-shaped value \"" ++ Text.slice 60 t ++ "\" (" ++ why ++
    ") — dispatching it verbatim as a mark term is a nil search that reads as a clean. If it is " ++
    "a LABEL, author the mark-shaped term(s) it stands for. If it genuinely IS a mark carrying " ++
    "that punctuation, it is not the variants stage's to certify: this becomes a disclosed " ++
    "deferred row, and judgment re-proposes it via register_propose_supplemental with " ++
    "term_literal:true"
  if t = "" then none
  else match termMarkupIssue t with
    | some markup => some markup
    | none =>
      if Text.flanked (· = '*') t.toList then
        some ("infix-star pattern \"" ++ Text.slice 60 t ++ "\" — a space-flanked `*` is " ++
          "wildcard intent the plan language cannot express, and a literal dispatch is a nil " ++
          "search that reads as a clean")
      else if 4 < (Text.words t).length then some (label (toString (Text.words t).length ++ " words"))
      else (termAnnotationIssue t).map label

def markPredicate (t : String) : Predicate := if hasAnchoredWildcard t then .wildcard else .exact

/-- `STRIPPED_CATEGORIES` and `FAMILY_CATEGORIES`. -/
def containsCategories : List String :=
  ["phonetic", "transliteration", "visual", "exact-element", "plural-root", "formative-family"]

def variantPredicate (v : Variant) : Predicate :=
  if hasAnchoredWildcard v.value then .wildcard
  else if v.category ∈ containsCategories then .default
  else markPredicate v.value

/-- `literalStamp`: the mark itself may read as prose, never as markup. -/
def literalStamp (t : String) : Bool := (termMarkupIssue t).isNone && (termShapeIssue t).isSome

section

variable (T : PlanText) (caps : Option PlanCapabilities)

def providerName : String := (caps.bind (·.id)).getD "unknown"

def planMaxOrWidth : Nat :=
  match (caps.bind (·.maxOrWidth)).filter (1 ≤ ·) with
  | some width => width.floor.toNat
  | none => 80

def planExactOrWidth : Nat :=
  match (caps.bind (·.exactOrWidth)).filter (1 ≤ ·) with
  | some width => width.floor.toNat
  | none => planMaxOrWidth caps

def wildcardCapabilityKey (term : String) : String :=
  let front := term.toList.head? = some '*'
  let back := term.toList.getLast? = some '*'
  if back ∧ ¬ front then "wildcardPrefix"
  else if front ∧ ¬ back then "wildcardSuffix"
  else "wildcardInfix"

def unsupportedPredicateReason (predicate : String) : String :=
  "predicate \"" ++ predicate ++ "\" is not supported by the active register provider (" ++
    providerName caps ++ ") — that capability is absent, so this search was never carried out. " ++
    "It is a deferred gap for judgment, never a clean negative."

def predicateGap (predicate : Predicate) (term : String) : Option String :=
  match caps.bind (·.predicates) with
  | none => none
  | some modes =>
    let key := if predicate = .wildcard then wildcardCapabilityKey term else predicate.text
    if (modes key).any (· ≠ "") then none
    else some (unsupportedPredicateReason caps
      (if predicate = .wildcard then "wildcard (" ++ key ++ ")" else predicate.text))

/-- The goods words of a list, trimmed, each once. -/
def goodsOf (goodsText : List String) : List String :=
  Entry.goodsTermsList
    { qid := "", axis := .primarySweep, predicate := .default, expectedKind := .enumerate, goodsText }

def goodsTextGap (goodsText : List String) : Option String :=
  match caps with
  | none => none
  | some c =>
    if goodsOf goodsText = [] ∨ c.goodsTextSearch then none
    else some ("goods-and-services text narrowing is not supported by the active register " ++
      "provider (" ++ providerName caps ++ ") — the goods description cannot be searched there, " ++
      "so the narrowed sweep this entry asks for was never run. Running it on the class alone " ++
      "would have returned the crowd the narrowing exists to cut, so the search is deferred. It " ++
      "is a gap for judgment, never a clean negative.")

def foldedTermLength (term : String) : Nat :=
  let marksOff := (T.decompose term).toList.filter fun c => !T.isCombining c
  ((T.lower (String.ofList marksOff)).toList.filter fun c => !Text.isSpace c).length

/-- Why a term is asked in another form than the one it was pushed in. -/
structure Substitution where
  reason : String

/-- A term too short for the register's contains form. -/
def containsFormSubstitution (term : String) : Option Substitution :=
  match (caps.bind (·.containsMinLength)).filter (2 ≤ ·) with
  | none => none
  | some least =>
    let length := foldedTermLength T term
    if least ≤ length then none
    else some ⟨"the register (" ++ providerName caps ++ ") answers its contains form only for a " ++
      "term of " ++ toString least ++ " or more characters, and this term has " ++
      toString length ++ ", so it was asked on the exact form with the same classes and goods " ++
      "words"⟩

/-- A phrase that holds a word the register's exact form reads as a command, and another one. -/
def exactOperatorSubstitution (term : String) : Option Substitution :=
  let declared := (caps.map (·.exactOperatorWords)).getD []
  let words := Text.words (String.ofList (term.toList.map fun c =>
    if T.isLetterOrNumber c || Text.isSpace c then c else ' '))
  let isOperator := fun w => decide (T.upper w ∈ declared)
  if declared = [] ∨ !words.any isOperator ∨ words.all isOperator then none
  else some ⟨"the register (" ++ providerName caps ++ ") reads AND, OR and NOT as commands inside " ++
    "an exact phrase, so this term was asked as its words in order, with the same classes, " ++
    "offices and goods words"⟩

/-- A moved phrase: its parentheses come out. -/
def movedTerm (t : String) : String :=
  Text.tidy (String.ofList (t.toList.map fun c => if c = '(' ∨ c = ')' then ' ' else c))

def isMoved (t : String) : Bool := (exactOperatorSubstitution T caps t).isSome

/-- One moved phrase of a push, as a push of its own. -/
def Ask.moved (a : Ask) (t : String) : Ask :=
  { a with predicate := .default, terms := none, term := some (movedTerm t), exactSubstituted := true }

/-- The names of a push that stay exact. -/
def Ask.kept (a : Ask) (names : List String) : List Ask :=
  match names with
  | [] => []
  | [t] => [{ a with terms := none, term := some t }]
  | names => [{ a with term := none, terms := some names }]

/-- An exact push with its phrases moved to pushes of their own, none where none needs it. -/
def exactOperatorEntries (a : Ask) : Option (List Ask) :=
  let moved := a.names.filter (isMoved T caps)
  if a.predicate ≠ .exact ∨ moved = [] then none
  else some (a.kept (a.names.filter (· ∉ moved)) ++ moved.map a.moved)

/-- What `push` hands on. -/
def Ask.split (a : Ask) : List Ask := (exactOperatorEntries T caps a).getD [a]

end

/-- `GOODS_RESERVED_WORDS`. -/
def goodsReservedWords : List String := ["and", "or", "not", "adj", "near"]

/-- A word the register reads as an operator, numbered or not. -/
def isReserved (T : PlanText) (tok : String) : Bool :=
  decide (String.ofList ((T.lower tok).toList.reverse.dropWhile Char.isDigit).reverse ∈
    goodsReservedWords)

/-- A goods term under way: `owed` is the distance to the next word kept. -/
structure Stripping where
  words : List String := []
  gaps : List Nat := []
  removed : List String := []
  owed : Nat := 1

def Stripping.step (T : PlanText) (s : Stripping) (tok : String) : Stripping :=
  if isReserved T tok then
    { s with removed := s.removed ++ [tok], owed := if s.words = [] then s.owed else s.owed + 1 }
  else
    { words := s.words ++ [tok]
      gaps := if s.words = [] then s.gaps else s.gaps ++ [s.owed]
      removed := s.removed
      owed := 1 }

def stripGoodsReservedWords (T : PlanText) (term : String) : Stripping :=
  (Text.words term).foldl (Stripping.step T) {}

def Stripping.cleaned (s : Stripping) : String := " ".intercalate s.words

section

variable (T : PlanText) (i : CompileInput)

/-- The form elements of a compile: the element of the client's own house is not among them. -/
def CompileInput.formElements : List FormElement :=
  match i.houseElement.filter (· ≠ "") with
  | none => i.form
  | some house => i.form.filter fun e => T.lower (Text.trim e.element) ≠ T.lower (Text.trim house)

def CompileInput.niceClasses : List String := i.classes.filter (· ≠ "")

/-- `/^([1-9]|[1-3][0-9]|4[0-5])$/`. -/
def isNiceClass (s : String) : Bool :=
  match s.toList with
  | [d] => '1' ≤ d && d ≤ '9'
  | [t, d] => ('1' ≤ t && t ≤ '3' && '0' ≤ d && d ≤ '9') || (t = '4' && '0' ≤ d && d ≤ '5')
  | _ => false

/-- The classes the frame added, each with its reason: none that is instructed, each once. -/
def CompileInput.addedClassRows : List AddedClass :=
  i.addedClasses.foldl (fun rows raw =>
    let row := AddedClass.mk (Text.trim raw.cls) (Text.trim raw.reason)
    if isNiceClass row.cls ∧ row.reason ≠ "" ∧ row.cls ∉ i.niceClasses ∧
        ∀ r ∈ rows, r.cls ≠ row.cls then rows ++ [row]
    else rows) []

/-- The office where the deployment cannot reach it; the last row of an office counts. -/
def CompileInput.unreachable (office : String) : Option UnavailableOffice :=
  i.unavailableOffices.reverse.find? (·.office = office)

def officeUnavailableReason (jurisdictions : List String) (providerId : String)
    (u : UnavailableOffice) : String :=
  "jurisdiction " ++ ", ".intercalate jurisdictions ++ " is not covered by the active register " ++
    "provider (" ++ providerId ++ ") AS THIS DEPLOYMENT IS CONFIGURED — the source that serves it (" ++
    u.memberId.getD "unknown" ++ ") is not wired up here" ++
    (if u.missing = [] then "" else " (" ++ " + ".intercalate u.missing ++ " unset)") ++
    ", so this search was never carried out. The provider does cover this office: set the variable " ++
    "and re-run to close it. It is a deferred gap for judgment, never a clean negative."

/-- What a plan is scoped to, and what of the order it had to set aside. -/
structure PlanScope where
  regions : List String
  deferred : List DeferredJurisdiction
  worldwide : Bool

def CompileInput.scope : PlanScope :=
  let caps := i.capabilities.map (·.toOfficeCapabilities)
  let resolved := resolveRegions T.toLocale caps i.jurisdictions
  if i.unavailableOffices = [] then ⟨resolved.regions, resolved.deferred, resolved.worldwide⟩
  else
    let named :=
      if resolved.regions ≠ [] ∨ ¬ resolved.worldwide then resolved.regions
      else (caps.bind (·.offices.covered)).getD []
    { regions := named.filter fun r => (i.unreachable r).isNone
      deferred := resolved.deferred ++ named.filterMap fun r => (i.unreachable r).map fun u =>
        ⟨r, officeUnavailableReason [r] (providerName i.capabilities) u⟩
      worldwide := resolved.worldwide }

/-- Nothing of what was ordered is left to search. -/
def CompileInput.allJurisdictionsDeferred : Option String :=
  let scope := i.scope T
  match scope.deferred with
  | [] => none
  | first :: _ =>
    if scope.regions ≠ [] then none
    else
      let names := scope.deferred.map DeferredJurisdiction.jurisdiction
      match i.unreachable first.jurisdiction with
      | some u =>
        if names.all fun j => (i.unreachable j).isSome then
          some (officeUnavailableReason names (providerName i.capabilities) u)
        else some (uncoveredJurisdictionReason names (providerName i.capabilities))
      | none => some (uncoveredJurisdictionReason names (providerName i.capabilities))

/-- A count-only probe of a crowded element. -/
def probeAsk (el : ManifestElement) : Ask :=
  let sub := (containsFormSubstitution T i.capabilities el.value).isSome
  { axis := .saturationProbe, predicate := if sub then .exact else .default, term := some el.value
    expectedKind := .count, provenance := .model, containsSubstituted := sub }

def probeAsks : List Ask :=
  (i.manifest.elements.filter fun el => el.kind = "common" ∨ el.kind = "saturated-common").map
    (probeAsk T i)

/-- The identical question: the client's mark, as it is. -/
def identicalAsk : Ask :=
  let mark := i.manifest.mark
  { predicate := markPredicate mark, term := some mark, provenance := .mark
    termLiteral := literalStamp mark }

def variantAsk (v : Variant) : Ask :=
  { predicate := variantPredicate v, term := some v.value, provenance := .model
    dropIssue := variantTermIssue v.value }

/-- The variants, but what restates the mark and what has an axis of its own. -/
def variantAsks : List Ask :=
  let mark := i.manifest.mark
  (i.manifest.variants.filter fun v => v.category ≠ "transliteration" ∧ v.category ≠ "numeric" ∧
    ¬ (norm T v.value = norm T mark ∧
      formKey T.toPlacementText v.value = formKey T.toPlacementText mark)).map variantAsk

/-- The contains sweep of the dominant element. -/
def dominantAsk : Ask :=
  { predicate := .default, term := some i.manifest.dominantElement, provenance := .mark
    crowdGateParent := true }

/-- The goods items of the manifest with the register's operator words taken out. -/
def goodsStripped : List Stripping :=
  ((i.manifest.goodsWords.getD []).map (stripGoodsReservedWords T)).filter (·.cleaned ≠ "")

def goodsCleaned : List String := (goodsStripped T i).map Stripping.cleaned

/-- The gaps of each term, as the first item that reads so has them. -/
def gapsFor (terms : List String) : List (List Nat) :=
  terms.map fun t => (((goodsStripped T i).find? (·.cleaned = t)).map Stripping.gaps).getD []

/-- The items this register can be asked. -/
def goodsSendable : List String :=
  if i.capabilities.any (·.goodsTextMultiWord) then goodsCleaned T i
  else (goodsCleaned T i).filter fun w => !(Text.trim w).toList.any Text.isSpace

/-- The dominant sweep narrowed to what the filings cover. -/
def goodsAsk (words : List String) (suffix : String) : Ask :=
  let sub := (containsFormSubstitution T i.capabilities i.manifest.dominantElement).isSome
  { predicate := if sub then .exact else .default, term := some i.manifest.dominantElement
    provenance := .mark, goodsText := words, goodsTextGaps := gapsFor T i words
    containsSubstituted := sub, qidSuffix := suffix }

def goodsAsks : List Ask :=
  if goodsSendable T i = [] ∨ ¬ i.capabilities.any (·.goodsTextSearch) then []
  else if i.capabilities.any (·.goodsTextListOr) then [goodsAsk T i (goodsSendable T i) "+goods"]
  else (goodsSendable T i).map fun word => goodsAsk T i [word] ("+goods-" ++ termIdentity T word)

/-- `l.slice(0, width)`, `l.slice(width, 2 * width)` and so on, `n` of them at most. -/
def chunks {α : Type} (width : Nat) : Nat → List α → List (List α)
  | 0, _ => []
  | n + 1, l => if l = [] then [] else l.take width :: chunks width n (l.drop width)

/-- Every seeded band, the dominant one first. -/
def bandsFor (elements : List FormElement) (dominant : String) : List FormElement :=
  let seeded := elements.filter (·.band.isSome)
  let ordered := (seeded.filter fun e => norm T e.element = norm T dominant) ++
    seeded.filter fun e => norm T e.element ≠ norm T dominant
  ordered.foldl (fun out e =>
    if ∃ e' ∈ out, norm T e'.element = norm T e.element then out else out ++ [e]) []

def bandFor (elements : List FormElement) (dominant : String) : Option FormBand :=
  ((elements.find? fun e => norm T e.element = norm T dominant) <|> elements.head?).bind (·.band)

def FormElement.queries (e : FormElement) : List String := (e.band.map (·.exactQueries)).getD []

/-- One band: its Latin spellings in stacks, and every other spelling by itself. -/
def bandAsks (queries : List String) : List Ask :=
  let latin := queries.filter fun t => !isNonLatinTerm T.unicode t
  let nonLatin := queries.filter (isNonLatinTerm T.unicode)
  ((chunks (planExactOrWidth i.capabilities) latin.length latin).map fun stack =>
      { predicate := .exact, terms := some stack, provenance := .floor, qidSuffix := "+form" }) ++
    nonLatin.map fun t =>
      { predicate := .exact, term := some t, provenance := .floor, qidSuffix := "+form" }

def formAsks : List Ask :=
  (bandsFor T (i.formElements T) i.manifest.dominantElement).flatMap fun e => bandAsks T i e.queries

/-- The fringe of the dominant band. -/
def fringeAsks : List Ask :=
  (((bandFor T (i.formElements T) i.manifest.dominantElement).map (·.wildcardPatterns)).getD []).map
    fun w => { predicate := .wildcard, term := some w, provenance := .floor }

/-- The identical question in the class of merchandise. -/
def merchAsk : Ask := { identicalAsk i with niceClasses := some ["25"], qidSuffix := "+merch" }

/-- The identical question in each class the frame added. -/
def addedAsks : List Ask :=
  i.addedClassRows.map fun row =>
    { identicalAsk i with niceClasses := some [row.cls], qidSuffix := "+class" ++ row.cls }

/-- The markets whose scripts are asked, none where nothing names one. -/
def scriptMarkets : Option (List String) :=
  let canon := fun (list : List String) =>
    list.filterMap fun j => (T.normalizeTerritory (Text.trim j)).filter (· ≠ "")
  let instructed := if (i.scope T).worldwide then [] else canon (i.jurisdictions.getD [])
  let named := canon i.frameMarkets
  let listed := canon (if i.priorityMarkets = [] then i.majorMarkets else i.priorityMarkets)
  if instructed ≠ [] then
    let both := instructed.filter (· ∈ named)
    some (if both = [] then instructed else both)
  else if named ≠ [] then some named
  else if listed ≠ [] then some listed
  else none

def scriptAsk (v : Variant) : Ask :=
  { axis := .transliterationNumeric, predicate := markPredicate v.value, term := some v.value
    provenance := .model, dropIssue := variantTermIssue v.value }

/-- A push put to some offices, where there are any. -/
def Ask.atOffices (a : Ask) (offices : List String) : Ask :=
  if offices = [] then a else { a with regions := some offices }

/-- The offices of some markets that are within the plan's scope. -/
def marketOffices (markets : List String) : List String :=
  if markets = [] then []
  else
    let caps := i.capabilities.map (·.toOfficeCapabilities)
    (resolveRegions T.toLocale caps (some markets)).regions.filter fun r =>
      (i.scope T).regions = [] ∨ r ∈ (i.scope T).regions

def isScript (v : Variant) : Bool :=
  v.category = "transliteration" && isNonLatinTerm T.unicode v.value

/-- The variants in another script and in figures; a script is put to the offices of the markets
that read it. -/
def scriptAsks : List Ask :=
  let asked := (scriptMarkets T i).map
    (T.scriptQuestions ((i.manifest.variants.filter (isScript T)).map Variant.value))
  (i.manifest.variants.filter fun v => v.category = "transliteration" ∨ v.category = "numeric").filterMap
    fun v => match asked with
      | none => some (scriptAsk v)
      | some asked =>
        if isScript T v then
          (asked.reverse.lookup v.value).map fun markets =>
            (scriptAsk v).atOffices (marketOffices T i markets)
        else some (scriptAsk v)

/-- Every push of a compile, in order. -/
def CompileInput.asks : List Ask :=
  probeAsks T i ++ identicalAsk i :: variantAsks T i ++ dominantAsk i :: goodsAsks T i ++
    formAsks T i ++ fringeAsks T i ++ merchAsk i :: addedAsks i ++ scriptAsks T i

/-- The qid a push asks for, before it is told apart from one that is taken. -/
def qidStem (a : Ask) : String :=
  a.axis.text ++ ":" ++ a.predicate.text ++ ":" ++ termIdentity T a.firstTerm ++ a.qidSuffix

/-- A qid at its `n`th try. -/
def ordinalQid (stem : String) : Nat → String
  | 0 => stem
  | n + 1 => stem ++ "#" ++ toString (n + 2)

/-- Why a push cannot be asked, where it cannot. -/
def pushGap (a : Ask) : Option String :=
  i.allJurisdictionsDeferred T <|>
    a.names.findSome? (termSubstanceIssue T.unicode) <|>
    a.dropIssue <|>
    (if a.predicate = .owner then none else a.names.findSome? termMarkupIssue) <|>
    predicateGap i.capabilities a.predicate a.firstTerm <|>
    goodsTextGap i.capabilities a.goodsText

/-- The entry of a push. -/
def entryOf (qid : String) (a : Ask) : Entry where
  qid := qid
  axis := a.axis
  predicate := a.predicate
  term := a.term
  terms := a.terms
  expectedKind := a.expectedKind
  niceClasses := a.niceClasses.getD i.niceClasses
  regions := a.regions.getD (i.scope T).regions
  goodsText := a.goodsText
  goodsTextGaps := a.goodsTextGaps
  unsupported := (pushGap T i a).isSome
  unsupportedReason := pushGap T i a
  termLiteral := a.termLiteral
  provenance := some a.provenance
  crowdGateParent := a.crowdGateParent
  romanizedTerms := romanStamp T i.manifest.variants a
  exactSubstituted := a.exactSubstituted
  containsSubstituted := a.containsSubstituted

/-- `pushOne`, push after push, each with the push it came of. -/
def pushAll (taken : List String) : List (Ask × Ask) → List (Ask × Entry)
  | [] => []
  | (source, a) :: rest =>
    let qid := firstFree taken (ordinalQid (qidStem T a))
    (source, entryOf T i qid a) :: pushAll (qid :: taken) rest

/-- A qid of the spelling band: `/\+form(?:#\d+)?$/`. -/
def isSpellingBandQid (qid : String) : Bool :=
  let back := qid.toList.reverse
  let ordinal := back.takeWhile Char.isDigit
  "mrof+".toList.isPrefixOf back ||
    (ordinal ≠ [] && "#mrof+".toList.isPrefixOf (back.dropWhile Char.isDigit))

def isSpellingBandEntry (e : Entry) : Bool := isSpellingBandQid e.qid

def isIdenticalQuestion (mark : String) (e : Entry) : Bool :=
  e.provenance = some .mark && e.goodsTermsList = [] && e.predicate ≠ .default &&
    formKey T.toPlacementText (e.term.getD "") = formKey T.toPlacementText mark

/-- Which entries wait for the reading turn. -/
def waits (mark : String) (e : Entry) : Bool :=
  e.axis ≠ .saturationProbe && e.guard.isNone && e.goodsTermsList = [] &&
    !isIdenticalQuestion T mark e && !isSpellingBandEntry e && !e.unsupported

def withWait (mark : String) (e : Entry) : Entry :=
  if waits T mark e then { e with guard := some .awaitsReadingTurn } else e

def axisRank (axis : Axis) : Nat :=
  if axis ∈ registerAxes then registerAxes.idxOf axis else 99

/-- What the funnel is given of every push, beside the push. -/
def CompileInput.parts : List (Ask × Ask) :=
  (i.asks T).flatMap fun a => (a.split T i.capabilities).map fun part => (a, part)

/-- What each push was compiled to, in the order of the plan. -/
def compiled : List (Ask × Entry) :=
  ((pushAll T i [] (i.parts T)).map fun p => (p.1, withWait T i.manifest.mark p.2)).insertionSort
    fun p q => axisRank p.2.axis ≤ axisRank q.2.axis

end

structure CompiledPlan extends Plan where
  niceClasses : List String

/-- A plan is always scoped to classes. -/
def compileRegisterPlan (T : PlanText) (i : CompileInput) : Except String CompiledPlan :=
  if i.niceClasses = [] then
    .error ("register_plan_classes_missing: a plan is always class-scoped — compile with the " ++
      "matter's in-scope Nice classes")
  else .ok {
    planVersion := some 1
    regions := (i.scope T).regions
    entries := (compiled T i).map Prod.snd
    niceClasses := i.niceClasses }

/-- A runtime that leaves every text as it is. -/
def plainPlanText : PlanText where
  toLocale := plainLocale
  foldDiacritics s := s
  decompose s := s
  isLatin := Char.isAlpha
  isCombining _ := false
  isLetterOrNumber := Char.isAlphanum
  unicode := { letterOrNumber := Char.isAlphanum, searchable := fun c => c.toNat < 128 }
  canonical s := s
  composed s := s
  stringify s := s
  scriptQuestions _ _ := []

end Clearotron
