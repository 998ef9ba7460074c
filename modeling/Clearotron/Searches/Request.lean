import Clearotron.Plan.Compile
import Clearotron.Searches.Phrase

/-!
# A request to the register

A request has a field for each thing it asks by: the mark, the owner, the representative, the
classes and the goods. The value of a field is its operands, joined by `OR`. A name of a party is
cleared of what the register cannot search, and one with an apostrophe is asked in two spellings.
-/

namespace Clearotron

/-- What a request takes from the runtime, and the office codes of the register. -/
structure RequestText extends PlanText where
  fold : Char → Char
  /-- `offices.translate` -/
  translate : String → Option String
  /-- `CLARIVATE_OFFICE_CODES` -/
  covered : String → Bool

def RequestText.phrases (T : RequestText) : PhraseLetters where
  letterOrNumber := T.unicode.letterOrNumber
  fold := T.fold
  upper := T.upper
  stringify := T.stringify

structure Company where
  applicantName : String
  confidence : Option Int := none

/-- What an expansion did. -/
structure OwnerNote where
  minConfidence : Int
  rawTerms : List String
  resolved : List Company
  swept : List String
  errors : List String
  unsearchableResolved : List (String × String)

structure SearchParams (O : Type) where
  matchMode : Option String := none
  regions : List String := []
  names : List String := []
  name : Option String := none
  query : Option String := none
  owners : List String := []
  owner : Option String := none
  representative : Option String := none
  niceClasses : List String := []
  goodsText : List String := []
  goodsTextGaps : Option (List (List Nat)) := none
  minConfidence : Option Int := none
  /-- `resolve_owner` is not `false` -/
  resolveOwner : Bool := true
  /-- `__owner_resolution`: these params have been resolved -/
  ownerResolution : Option OwnerNote := none
  options : O

/-- A field of a request, its value as the operands that are joined. -/
structure OrField where
  name : String
  operator : String := "EQUALS"
  operands : List String
  deriving DecidableEq, Repr

def OrField.value (f : OrField) : String := " OR ".intercalate f.operands

structure BuiltRequest (O : Type) where
  registrationOfficeCodes : List String
  searchFields : List OrField
  options : O

def maxOrWidth : Nat := 496

def ownerField : String := "APPLICANT_NAME"
def representativeField : String := "REPRESENTATIVE_OR_CORRESPONDENT_NAME"
def goodsField : String := "INT_GOODS_SERVICES_DESCRIPTION"

/-- The match mode of a name, the default one where there is none. -/
def matchModeOf (name : Option String) : Except String MatchMode :=
  let key := match name with
    | some s => if s = "" then "default" else s
    | none => "default"
  match [("default", MatchMode.default), ("contains", .contains), ("exact", .exact),
      ("phonetic", .phonetic), ("wildcard", .wildcard), ("starts_with", .startsWith),
      ("begins_with", .beginsWith), ("ends_with", .endsWith)].lookup key with
  | some m => .ok m
  | none => .error ("unknown match_mode: " ++ key)

/-- Each of some terms trimmed, without the blank ones. -/
def trimmed (l : List String) : List String := (l.map Text.trim).filter (· ≠ "")

section

variable {O : Type} (p : SearchParams O)

def markTermsOf : List String := trimmed (p.names ++ p.name.toList ++ p.query.toList)

def ownerTermsOf : List String := trimmed (p.owners ++ p.owner.toList)

def goodsTermsOf : List String := trimmed p.goodsText

/-- The representative, where one is given. -/
def SearchParams.representativeTerm : List String := p.representative.toList.filter (· ≠ "")

end

section

variable (T : RequestText)

/-- `/(\p{Script=Latin})\p{M}+/gu` as its first group. -/
def stripLatinMarks : Bool → List Char → List Char
  | _, [] => []
  | behindLatin, c :: s =>
    if behindLatin && T.isCombining c then stripLatinMarks true s
    else c :: stripLatinMarks (T.isLatin c) s

def foldLatinDiacritics (s : String) : String :=
  T.composed (String.ofList (stripLatinMarks T false (T.canonical s).toList))

/-- `OWNER_UNSEARCHABLE_RE`. -/
def isUnsearchable (c : Char) : Bool := "\"\x7b\x7d()¦#:;<>!|%[]^~§¾".toList.contains c

def sanitizeOwnerName (name : String) : String :=
  let folded := (foldLatinDiacritics T name).toList.map fun c =>
    if c = '²' then '2' else if c = '³' then '3' else c
  if folded.any isUnsearchable then
    Text.tidy (String.ofList (folded.map fun c => if isUnsearchable c then ' ' else c))
  else String.ofList folded

def isApostrophe (c : Char) : Bool := c = '\x27' || c = '’'

def expandApostrophe (term : String) : List String :=
  let s := term.toList
  if s.any isApostrophe then
    let wild := s.map fun c => if isApostrophe c then '?' else c
    let stripped := s.filter fun c => !isApostrophe c
    if wild = stripped then [String.ofList wild] else [String.ofList wild, String.ofList stripped]
  else [term]

/-- The values of some names of parties. -/
def partyOperands : List String → Except String (List String)
  | [] => .ok []
  | t :: ts => do
    let safe ← assertSearchableTerm T.phrases (sanitizeOwnerName T t) true false false
    let rest ← partyOperands ts
    .ok (expandApostrophe safe ++ rest)

def stripPunctuation (term : String) : String :=
  Text.tidy (String.ofList (term.toList.map fun c =>
    if T.unicode.letterOrNumber c || Text.isSpace c then c else ' '))

/-- The value of one mark term. -/
def markOperand (m : MatchMode) (t : String) : Except String String := do
  let _ ← assertSingleMarkShape T.phrases t
  if isNonLatinTerm T.unicode t then
    .error ("term " ++ T.stringify (Text.slice 40 t) ++ " is not in Latin script, and Compumark " ++
      "indexes non-Latin filings by their transliteration, not their characters — searching it " ++
      "would return 0 with no error, which reads as CLEAN. Send the romanisation instead (e.g. " ++
      "华威豹 → \"HUA WEI BAO\"), which also catches homophone variants the characters miss.")
  else
    let base := if m.field.exact then stripPunctuation T t else t
    let safe ← assertSearchableTerm T.phrases base m.field.allowWildcard m.field.exact
      m.field.dropReserved
    if m.field.phrase then
      compilePhraseValue T.phrases safe m.field.pre m.field.post m.field.dropReserved
    else .ok (m.field.pre ++ safe ++ m.field.post)

def classOperands (niceClasses : List String) : List String :=
  ((niceClasses.map Text.trim).filter fun c => c ≠ "" && c.toList.all Char.isDigit).eraseDups

/-- A chain of goods words, each behind the distance owed to it. -/
def goodsChain (first : String) (rest : List String) (gaps : List Nat) : String :=
  String.ofList (chainText first.toList
    (rest.mapIdx fun k w => ((gaps[k]?).getD 1, w.toList)))

/-- The value of one goods term, none where it is of reserved words only. -/
def goodsOperand (planned : Option (List Nat)) (t : String) : Except String (List String) := do
  let stripping := stripGoodsReservedWords T.toPlanText t
  let gaps := match planned with
    | some gaps => if gaps = [] then stripping.gaps else gaps
    | none => stripping.gaps
  let parts ← stripping.words.mapM fun w => assertSearchableTerm T.phrases w false false false
  -- the register reads a phrase of several words, so none is refused
  match parts with
  | [] => .ok []
  | first :: rest => .ok [goodsChain first rest gaps]

/-- The values of some goods terms, each once. -/
def goodsOperands (gaps : Option (List (List Nat))) (terms : List String) :
    Except String (List String) := do
  let values ← (terms.zipIdx.mapM fun x =>
    goodsOperand T ((gaps.getD [])[x.2]?) x.1 : Except String (List (List String)))
  .ok values.flatten.eraseDups

/-- `joinOrValue`, as a field of a request. -/
def orField (name : String) (values : List String) : Except String (List OrField) :=
  let list := values.filter (· ≠ "")
  if maxOrWidth < list.length then
    .error ("OR-stack of " ++ toString list.length ++ " terms exceeds the provider's safe OR " ++
      "width " ++ toString maxOrWidth ++ " — a wider stack is refused by the provider, so chunk it")
  else .ok [{ name, operands := list }]

def resolveOffices (regions : List String) : List String × List String :=
  let known := regions.filterMap fun r => (T.translate r).map fun c => (r, c)
  (((known.map Prod.snd).filter T.covered).eraseDups,
    (known.filter fun x => !T.covered x.2).map Prod.fst)

section

variable {O : Type} (p : SearchParams O)

def markOperands : Except String (List String) := do
  let m ← matchModeOf p.matchMode
  (markTermsOf p).mapM (markOperand T m)

def markClause : Except String (List OrField) := do
  let m ← matchModeOf p.matchMode
  let values ← markOperands T p
  if markTermsOf p = [] then .ok [] else orField m.field.name values

def ownerClause : Except String (List OrField) := do
  let values ← partyOperands T (ownerTermsOf p)
  if ownerTermsOf p = [] then .ok [] else orField ownerField values

def representativeClause : Except String (List OrField) := do
  let values ← partyOperands T p.representativeTerm
  if p.representativeTerm = [] then .ok [] else orField representativeField values

def classClause : Except String (List OrField) :=
  if classOperands p.niceClasses = [] then .ok []
  else orField classField (classOperands p.niceClasses)

def goodsClause : Except String (List OrField) := do
  if goodsTermsOf p ≠ [] ∧ markTermsOf p = [] ∧ ownerTermsOf p = [] ∧ p.representativeTerm = [] then
    .error ("goods_text narrows a search and is not one: this request carries no mark term, " ++
      "owner or representative, so the goods clause would be the whole query — every filing in " ++
      "these classes whose description carries the word. Send it alongside the term it narrows.")
  else
    let values ← goodsOperands T p.goodsTextGaps (goodsTermsOf p)
    if values = [] then .ok [] else orField goodsField values

def buildSearchRequest : Except String (BuiltRequest O) := do
  let _ ← matchModeOf p.matchMode
  let (codes, unknown) := resolveOffices T p.regions
  if unknown ≠ [] then
    .error ("jurisdiction(s) [" ++ ", ".intercalate unknown ++ "] are outside this provider's " ++
      "registrationOfficeCode vocabulary — a coverage gap to disclose, never a filter to drop")
  else if codes = [] then
    .error ("regions[] is required (Compumark Content requires at least one " ++
      "registrationOfficeCode)")
  else
    let mark ← markClause T p
    let owner ← ownerClause T p
    let representative ← representativeClause T p
    let classes ← classClause p
    let goods ← goodsClause T p
    .ok { registrationOfficeCodes := codes
          searchFields := mark ++ owner ++ representative ++ classes ++ goods
          options := p.options }

def otherOrOperands : Nat :=
  (markTermsOf p).length + p.representativeTerm.length + p.niceClasses.eraseDups.length +
    (goodsTermsOf p).length

/-- The OR operands a name of a party goes out as. -/
def ownerCost (name : String) : Nat := (expandApostrophe (sanitizeOwnerName T name)).length

def ownerBudget : Nat := max 1 (maxOrWidth - otherOrOperands p)

/-- The names until one does not fit. -/
def sweep (budget : Nat) : Nat → List String → List String
  | _, [] => []
  | width, name :: names =>
    if budget < width + ownerCost T name then []
    else name :: sweep budget (width + ownerCost T name) names

/-- The names and, behind them, each new one that can be searched. -/
def mergeNames : List String → List String → List String
  | merged, [] => merged
  | merged, given :: names =>
    let name := Text.trim given
    if name = "" then mergeNames merged names
    else if merged.any fun t => T.lower t = T.lower name then mergeNames merged names
    else match assertSearchableTerm T.phrases (sanitizeOwnerName T name) true false false with
      | .ok _ => mergeNames (merged ++ [name]) names
      | .error _ => mergeNames merged names

/-- The new names that cannot be searched, each with what is wrong with it. -/
def unsearchableNames : List String → List String → List (String × String)
  | _, [] => []
  | merged, given :: names =>
    let name := Text.trim given
    if name = "" then unsearchableNames merged names
    else if merged.any fun t => T.lower t = T.lower name then unsearchableNames merged names
    else match assertSearchableTerm T.phrases (sanitizeOwnerName T name) true false false with
      | .ok _ => unsearchableNames (merged ++ [name]) names
      | .error why => (name, Text.slice 160 why) :: unsearchableNames merged names

def minConfidence : Int := p.minConfidence.getD 50

variable (resolveCompany : String → Except String (List Company))

/-- The companies a register names for the owner terms, as far as it is confident. -/
def resolvedCompanies : List Company :=
  (ownerTermsOf p).flatMap fun term => match resolveCompany term with
    | .ok companies => companies.filter fun c => minConfidence p ≤ c.confidence.getD 0
    | .error _ => []

/-- The owner names of a sweep: the caller's, and what they resolve to. -/
def ownerNames : List String :=
  mergeNames T (ownerTermsOf p) ((resolvedCompanies p resolveCompany).map (·.applicantName))

def expandOwnerTerms : SearchParams O × OwnerNote :=
  let swept := sweep T (ownerBudget p) 0 (ownerNames T p resolveCompany)
  let resolved := resolvedCompanies p resolveCompany
  ({ p with owners := swept, owner := none },
    { minConfidence := minConfidence p
      rawTerms := ownerTermsOf p
      resolved
      swept
      errors := (ownerTermsOf p).filterMap fun term => match resolveCompany term with
        | .ok _ => none
        | .error why => some (term ++ ": " ++ why)
      unsearchableResolved :=
        unsearchableNames T (ownerTermsOf p) (resolved.map (·.applicantName)) })

/-- Are the owner terms of these params resolved before they are asked? -/
def SearchParams.resolves : Bool :=
  p.ownerResolution.isNone && p.resolveOwner && ownerTermsOf p ≠ []

def resolveOwnerParamsOnce : SearchParams O × Option OwnerNote :=
  match p.ownerResolution with
  | some note => (p, some note)
  | none =>
    if p.resolveOwner = false then (p, none)
    else if ownerTermsOf p = [] then (p, none)
    else
      let (next, note) := expandOwnerTerms T p resolveCompany
      ({ next with ownerResolution := some note }, some note)

end

end

end Clearotron
