import Clearotron.Neighbourhood.Families
import Clearotron.Placement.Index

/-!
# The seeds of the floor

The floor is worked out for each element that the manifest calls distinctive, for the stem that
widens the net, and where no element is left for the words of the mark. Which element the manifest
calls the dominant one is not to matter; the dominant element is taken without a look at its
length. The variants that a model proposes are joined to the floor and take nothing from it.
-/

namespace Clearotron.Neighbourhood

open Placement (PlacementText formKey)

/-- What the code takes from the runtime: blanks at the ends are neither letters nor digits. -/
structure SeedText extends FormText where
  trims : ∀ s, normalizeElement toFormText (Text.trim s) = normalizeElement toFormText s

structure NamedElement where
  kind : String
  value : String

structure VariantModel where
  dominantElement : String
  elements : List NamedElement

structure Seed where
  element : String
  role : String

structure RejectedSeed where
  value : String
  role : String
  reason : String

structure Seeding where
  seeds : List Seed := []
  rejected : List RejectedSeed := []

structure FloorSeeds extends Seeding where
  seededFrom : String

/-- `MAX_SEED_LENGTH`. -/
def maxSeedLength : ℕ := 24

section

variable (T : SeedText)

def seedOf (value : String) : String := normalizeElement T.toFormText value

/-- Why no neighbourhood is worked out for a value; nothing where one is. -/
def guardReason (value : String) : String :=
  let n := seedOf T value
  if n = "" then "empty after normalization"
  else if n.length < 2 then
    toString n.length ++ " character(s) — too short to enumerate a neighbourhood for"
  else if maxSeedLength < n.length then
    toString n.length ++ " characters exceeds the " ++ toString maxSeedLength ++
      "-character seed bound (a prose-parse artifact, not an element)"
  else ""

/-- `add`: a value that is left with nothing is passed over before it is looked at. -/
def addSeed (role : String) (guarded : Bool) (s : Seeding) (value : String) : Seeding :=
  let n := seedOf T value
  if n = "" ∨ n ∈ s.seeds.map Seed.element then s
  else if guarded ∧ guardReason T value ≠ "" then
    { s with rejected := s.rejected ++ [⟨Text.slice 60 value, role, guardReason T value⟩] }
  else { s with seeds := s.seeds ++ [⟨n, role⟩] }

def isStemOfNamedElement (root dominant : String) (elements : List NamedElement) : Bool :=
  let r := seedOf T root
  let named := ((dominant :: elements.map NamedElement.value).map (seedOf T)).filter (· ≠ "")
  r ≠ "" && (named = [] || named.any fun n => r.length ≤ n.length)

def isDistinctive (e : NamedElement) : Bool := T.lower (Text.trim e.kind) = "distinctive"

/-- The values that the manifest calls distinctive, sorted. -/
def distinctiveValues (elements : List NamedElement) : List String :=
  sortedSet (((elements.filter (isDistinctive T)).map fun e => Text.trim e.value).filter (· ≠ ""))

/-- The words of a mark, in small letters and without marks. -/
def markTokens (text : String) : List String :=
  (tokens Shape.isPlain (T.lower (T.foldDiacritics text)).toList).map String.ofList

def markText (mark : List String) : String :=
  " ".intercalate ((mark.map Text.trim).filter (· ≠ ""))

def markSeedTokens (mark : List String) : List String :=
  (sortedSet (markTokens T (markText mark))).filter fun t =>
    2 ≤ t.length && t.length ≤ maxSeedLength

/-- The seeds that the manifest names; `root` is the formative root of its prose. -/
def manifestSeeds (dominant root : String) (guarded : Bool) (elements : List NamedElement) :
    Seeding :=
  let first := if dominant ≠ "" then addSeed T "dominant" guarded {} dominant else {}
  let rooted := if root ≠ "" ∧ seedOf T root ≠ "" ∧ seedOf T root ≠ seedOf T dominant ∧
      isStemOfNamedElement T root dominant elements = true then
    addSeed T "formative-root" true first root else first
  (distinctiveValues T elements).foldl (addSeed T "distinctive-element" true) rooted

/-- Why a mark has no seed. -/
def noSeedReason (mark : List String) : String :=
  let latin := " ".intercalate (markTokens T (markText mark))
  if markText mark = "" then
    "the job states no mark, so there is nothing to seed the mechanical form band from"
  else if latin = "" then "no Latin-script token: the mechanical form floor is derived on " ++
    "[a-z0-9] and cannot be generated for this script without romanising, which would mint a " ++
    "search term"
  else "every token is a single character (" ++ latin ++ ") — an edit-1 neighbourhood of one " ++
    "character is the whole alphabet, which is noise rather than coverage"

/-- `proseDominant` and `root` are what is read of the manifest's prose. -/
def floorSeeds (proseDominant root : String) (model : Option VariantModel) (mark : List String) :
    FloorSeeds :=
  let fromModel := Text.trim ((model.map VariantModel.dominantElement).getD "")
  let dominant := if fromModel ≠ "" then fromModel else proseDominant
  let elements := (model.map VariantModel.elements).getD []
  let named := manifestSeeds T dominant root (fromModel = "") elements
  if named.seeds ≠ [] then
    { named with seededFrom := if fromModel ≠ "" then "variant-manifest.json (validated)"
        else "variant-manifest.md (prose fallback)" }
  else
    let marked := (markSeedTokens T mark).foldl (addSeed T "mark-token" true) named
    if marked.seeds ≠ [] then
      { marked with seededFrom :=
          "job mark (FALLBACK — the manifest named no usable element)" }
    else
      { seeds := []
        rejected := marked.rejected ++
          [⟨Text.slice 60 (markText mark), "mark-token", noSeedReason T mark⟩]
        seededFrom := "" }

end

/-- A variant as the model proposes it. -/
inductive Proposed
  | text (s : String)
  | entry (value category : Option String)

def Proposed.value : Proposed → String
  | .text s => Text.trim s
  | .entry value _ => Text.trim (value.getD "")

structure FloorFamily where
  family : String
  searched : Option Bool
  terms : List String

structure Restatement where
  value : String
  category : String
  floorFamily : String

structure Addition where
  value : String
  category : String

structure VariantCounts where
  floor : ℕ
  modelRestated : ℕ
  modelAdded : ℕ
  union : ℕ

structure VariantFloor where
  floorFamilies : List FloorFamily
  modelRestatements : List Restatement
  modelAdditions : List Addition
  rejectedSeeds : List RejectedSeed
  counts : VariantCounts

section

variable (P : PlacementText)

/-- The terms of the floor that are searched, each key with its family. -/
def floorByKey (families : List FloorFamily) : List (String × String) :=
  ((families.filter fun f => f.searched ≠ some false).flatMap fun f =>
    f.terms.map fun t => (formKey P t, f.family)).filter fun x => x.1 ≠ ""

def Proposed.category : Proposed → String
  | .text _ => ""
  | .entry _ category => P.lower (Text.trim (category.getD ""))

/-- The first proposal of each key. -/
def firstProposed : List String → List Proposed → List Proposed
  | _, [] => []
  | seen, v :: vs =>
    if v.value = "" ∨ formKey P v.value = "" ∨ formKey P v.value ∈ seen then firstProposed seen vs
    else v :: firstProposed (formKey P v.value :: seen) vs

/-- The family of the floor that holds a proposal. -/
def floorHit (families : List FloorFamily) (v : Proposed) : Option String :=
  ((floorByKey P families).lookup (formKey P v.value)).filter (· ≠ "")

def mergeVariantFloor (families : List FloorFamily) (modelVariants : Option (List Proposed))
    (rejectedSeeds : List RejectedSeed) : VariantFloor :=
  let own := firstProposed P [] (modelVariants.getD [])
  let restated := own.filterMap fun v =>
    (floorHit P families v).map fun f => (⟨v.value, v.category P, f⟩ : Restatement)
  let added := (own.filter fun v => floorHit P families v = none).map fun v =>
    (⟨v.value, v.category P⟩ : Addition)
  let floor := ((floorByKey P families).map Prod.fst).dedup.length
  { floorFamilies := families
    modelRestatements := restated
    modelAdditions := added
    rejectedSeeds
    counts := ⟨floor, restated.length, added.length, floor + added.length⟩ }

end

end Clearotron.Neighbourhood
