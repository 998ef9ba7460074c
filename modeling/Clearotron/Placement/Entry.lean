import Clearotron.Coverage.Union
import Clearotron.Library.Tokens
import Clearotron.Recall.Join

/-!
# A placement and the parser it has to pass

The placement step judges three fields of a row: tier, reason and whether the call is close.
A row is settled when the entry it renders to is one the parser of the placements accepts.
What the runtime knows of letters, beyond their case, is a parameter.
-/

namespace Clearotron.Placement

/-- What the runtime knows of letters. -/
structure PlacementText extends Locale where
  foldDiacritics : String → String
  /-- `normalize("NFKD")` -/
  decompose : String → String
  /-- `\p{Script=Latin}` -/
  isLatin : Char → Bool
  /-- `\p{M}` -/
  isCombining : Char → Bool
  /-- `\p{L}` or `\p{N}` -/
  isLetterOrNumber : Char → Bool

/-- `PLACEMENT_TIERS`. -/
def placementTiers : List String :=
  ["headline-candidate", "sheet-2", "watchlist-annex", "out-of-scope-filtered"]

/-- `OWNER_NOT_STATED`. -/
def ownerNotStated : String := "not stated on the register"

/-- A row of the form, or what was submitted as one; a field of another type reads as absent. -/
structure Row where
  rowId : Option String := none
  kind : Option String := none
  select : Option String := none
  mark : Option String := none
  owner : Option String := none
  jurisdiction : Option String := none
  records : List String := []
  tier : Option String := none
  reason : Option String := none
  borderline : Bool := false
  classes : List String := []
  territories : List String := []
  fromFloorOnly : Bool := false
  retract : Option String := none
  /-- the record ids a set-aside names, one or a list of them -/
  setAside : List String := []
  setAsideGroup : Option String := none
  /-- the count as it is written, and the number it says -/
  count : Option (String × Option Nat) := none
  ground : Option String := none
  on : Option String := none
  deriving DecidableEq, Repr

/-- The fields of a row that are judgment. -/
structure SeatFields where
  tier : Option String
  reason : Option String
  borderline : Bool
  deriving DecidableEq, Repr

def seatFields (row : Row) : SeatFields :=
  ⟨row.tier.map Text.trim, row.reason.map Text.trim, row.borderline⟩

/-- `a || b` on texts that may be absent. -/
def orElse (a b : Option String) : Option String := (a.filter (· ≠ "")) <|> b

/-- `TIER_RESTATEMENT`. -/
def tierRestatement : List String :=
  (placementTiers.flatMap fun t => (tokens (· ≠ '-') t.toList).map String.ofList) ++
    ["sheet2", "offfield", "field", "tier", "tiered", "place", "placed", "placement", "annexed",
     "filter"]

/-- `BARE_CONCLUSION`. -/
def bareConclusion : List String :=
  ["noise", "irrelevant", "relevant", "relevance", "immaterial", "material", "unrelated", "related",
   "none", "nothing", "nil", "na", "n/a", "excluded", "exclude", "dropped", "drop", "omitted", "omit",
   "ignored", "ignore", "skipped", "skip", "matter", "matters", "case", "run", "report", "client",
   "candidate", "record", "records", "mark", "obvious", "clear", "clearly", "simply", "just"]

/-- `STOPWORDS`. -/
def stopwords : List String :=
  ["a", "an", "the", "and", "or", "but", "not", "no", "is", "are", "was", "were", "be", "been", "being",
   "to", "of", "in", "on", "off", "at", "by", "for", "with", "from", "as", "it", "its", "this", "that",
   "these", "those", "there", "here", "any", "all", "so", "too", "very", "only", "does", "do", "did",
   "has", "have", "had", "will", "would", "can", "could", "should", "may", "might", "must", "than",
   "then", "which", "who", "whom", "what", "when", "where", "why", "how", "s", "t"]

/-- A word that says nothing of the candidate. -/
def isEmptyWord (w : String) : Bool :=
  w ∈ stopwords || w ∈ bareConclusion || w ∈ tierRestatement

/-- `/[a-z0-9/'-]/`. -/
def isReasonChar (c : Char) : Bool :=
  (97 ≤ c.toNat && c.toNat ≤ 122) || (48 ≤ c.toNat && c.toNat ≤ 57) || c ∈ ['/', '\'', '-']

/-- A word without the hyphens and quotes at its ends. -/
def bareWord (w : List Char) : List Char :=
  let quote : Char → Bool := fun c => c ∈ ['-', '\'']
  ((w.dropWhile quote).reverse.dropWhile quote).reverse

/-- Does a word survive the closed vocabularies? A compound survives by one of its parts. -/
def survives (w : List Char) : Bool :=
  let bare := bareWord w
  if bare = [] ∨ isEmptyWord (String.ofList bare) then false
  else if '-' ∈ bare then
    (tokens (· ≠ '-') bare).any fun part => !isEmptyWord (String.ofList part)
  else true

section

variable (T : PlacementText)

/-- Does the reason say only where the candidate was placed? -/
def isTierRestatementOnly (reason : String) : Bool :=
  !(tokens isReasonChar (T.lower reason).toList).any survives

/-- An entry of the placements. -/
structure Entry where
  mark : Option String
  owner : Option String
  jurisdiction : String
  records : List String
  tier : Option String
  reason : Option String
  borderline : Bool
  deriving DecidableEq, Repr

/-- Why the parser throws, by the token its message opens with. -/
inductive PlacementFault
  | placementMarkMissing
  | placementOwnerMissing
  | placementRecordsInvalid
  | placementTierInvalid
  | placementReasonMissing
  | placementReasonBare
  deriving DecidableEq, Repr

def isBlank (s : Option String) : Bool := s.all (Text.trim · = "")

def validatePlacement (e : Entry) : Except PlacementFault Unit :=
  if isBlank e.mark then .error .placementMarkMissing
  else if isBlank e.owner then .error .placementOwnerMissing
  else if e.records.any (Text.trim · = "") then .error .placementRecordsInvalid
  else if !e.tier.any (· ∈ placementTiers) then .error .placementTierInvalid
  else if isBlank e.reason then .error .placementReasonMissing
  else if isTierRestatementOnly T (e.reason.getD "") then .error .placementReasonBare
  else .ok ()

/-- A register record that names no owner is placed all the same. -/
def renderedOwner (kind owner : Option String) : Option String :=
  if kind = some "register" then
    some (if isBlank owner then ownerNotStated else Text.trim (owner.getD ""))
  else owner

/-- The entry a row renders to: the driver's facts of `canonical`, the judgment of `row`. -/
def renderEntry (canonical row : Row) : Entry :=
  let f := seatFields row
  { mark := canonical.mark
    owner := renderedOwner canonical.kind canonical.owner
    jurisdiction := canonical.jurisdiction.getD ""
    records := canonical.records
    tier := f.tier
    reason := f.reason
    borderline := f.borderline }

/-- Would the entry survive the parser? -/
def rowIsSettled (row canonical : Row) : Bool :=
  (validatePlacement T (renderEntry canonical row)).isOk

/-- `renderPlacementsJson`: the rows that are not settled are left out. -/
def renderPlacements (rows : List Row) : List Entry :=
  (rows.filter fun r => rowIsSettled T r r).map fun r => renderEntry r r

variable {T}

theorem validatePlacement_isOk {e : Entry} :
    (validatePlacement T e).isOk = true ↔
      isBlank e.mark = false ∧ isBlank e.owner = false ∧ (∀ r ∈ e.records, Text.trim r ≠ "") ∧
        (∃ t ∈ placementTiers, e.tier = some t) ∧ isBlank e.reason = false ∧
        isTierRestatementOnly T (e.reason.getD "") = false := by
  unfold validatePlacement
  have tiers : (e.tier.any (· ∈ placementTiers)) = true ↔ ∃ t ∈ placementTiers, e.tier = some t := by
    cases e.tier <;> simp
  have records : (e.records.any (Text.trim · = "")) = false ↔ ∀ r ∈ e.records, Text.trim r ≠ "" := by
    simp
  rw [← tiers, ← records]
  split_ifs <;> simp_all [Except.isOk, Except.toBool]

/-- Being settled is a matter of the driver's facts and of the judgment, and of nothing else. -/
theorem rowIsSettled_congr {row row' canonical canonical' : Row}
    (judged : seatFields row = seatFields row') (mark : canonical.mark = canonical'.mark)
    (owner : canonical.owner = canonical'.owner) (kind : canonical.kind = canonical'.kind)
    (records : canonical.records = canonical'.records) :
    rowIsSettled T row canonical = rowIsSettled T row' canonical' := by
  rw [Bool.eq_iff_iff, rowIsSettled, rowIsSettled, validatePlacement_isOk, validatePlacement_isOk]
  simp only [renderEntry, judged, mark, owner, kind, records]

theorem tier_of_settled {row canonical : Row} (settled : rowIsSettled T row canonical = true) :
    ∃ t ∈ placementTiers, (seatFields row).tier = some t :=
  (validatePlacement_isOk.mp settled).2.2.2.1

theorem reason_of_settled {row canonical : Row} (settled : rowIsSettled T row canonical = true) :
    isBlank (seatFields row).reason = false :=
  (validatePlacement_isOk.mp settled).2.2.2.2.1

end

end Clearotron.Placement
