import Clearotron.Register.Text

/-!
# The recall join

The candidates of a matter are ranked and grouped by position, and each position is looked
up in what ends it: the findings document, the decisions of placement, and a counted crowd
for the positions below the top slice. What the runtime knows of letters and of their order
is a parameter.
-/

namespace Clearotron

/-- The ASCII letters of a text in lower case. -/
def asciiLower (s : String) : String := String.ofList (s.toList.map Char.toLower)

structure RecallText where
  lower : String → String
  lower_ascii : ∀ s, lower (asciiLower s) = lower s
  ascii_lower : ∀ s, asciiLower (lower s) = lower s
  /-- `a.localeCompare(b) <= 0` -/
  localeLe : String → String → Bool
  localeLe_trans : ∀ a b c, localeLe a b = true → localeLe b c = true → localeLe a c = true
  localeLe_total : ∀ a b, (localeLe a b || localeLe b a) = true

def isLetterOf (c : Char) : Bool := 97 ≤ c.toLower.toNat && c.toLower.toNat ≤ 122

/-- `[\w-]` -/
def isIdChar (c : Char) : Bool :=
  isLetterOf c || (48 ≤ c.toLower.toNat && c.toLower.toNat ≤ 57) || c.toLower = '_' || c.toLower = '-'

/-- The length of a URI `/mark/<office>/<id>` at the start of a text, the letters of the
office two to six; `first` is asked of the first character of the id. -/
def uriAt (first : Char → Bool) (s : List Char) : Option ℕ :=
  let office := (s.drop 6).takeWhile isLetterOf
  let behind := (s.drop 6).drop office.length
  let id := (behind.drop 1).takeWhile isIdChar
  if (s.take 6).map Char.toLower = "/mark/".toList ∧ 2 ≤ office.length ∧ office.length ≤ 6 ∧
      behind.head? = some '/' ∧ id.head?.any first then some (6 + office.length + 1 + id.length)
  else none

/-- The first URI of a text. -/
def firstUri (first : Char → Bool) : List Char → Option (List Char)
  | [] => none
  | c :: s =>
    match uriAt first (c :: s) with
    | some n => some ((c :: s).take n)
    | none => firstUri first s

/-- `normalizeRecordUri`, none where no URI stands in the text. -/
def normalizeRecordUri (src : String) : Option String :=
  (firstUri (fun c => c.toLower ≠ '_' && c.toLower ≠ '-') (Text.trim src).toList).map fun m =>
    String.ofList (m.map Char.toLower)

/-- The URIs of a line; the count is how much of a match is still to be passed. -/
def urisOf : ℕ → List Char → List (List Char)
  | _, [] => []
  | n + 1, _ :: s => urisOf n s
  | 0, c :: s =>
    match uriAt (fun _ => true) (c :: s) with
    | some n => (c :: s).take n :: urisOf (n - 1) s
    | none => urisOf 0 s

inductive Basis
  | tokenIdentical
  | tokenEdit1
  | other (name : String)
  deriving DecidableEq, Repr

structure Candidate where
  recordId : Option String
  markText : Option String := none
  basis : Basis
  classes : List String := []
  status : Option String := none
  registry : Option String := none
  applicationDate : Option String := none
  deriving DecidableEq, Repr

def basisRank : Basis → ℕ
  | .tokenIdentical => 3
  | .tokenEdit1 => 2
  | .other _ => 1

/-- `/\b(19|20)\d{2}\b/`: the first year of a text. -/
def yearFrom : Option Char → List Char → ℕ
  | _, [] => 0
  | before, c :: s =>
    let digits := (c :: s).take 4
    if !before.any Text.isWord && digits.length = 4 && digits.all Char.isDigit &&
        (digits.take 2 = ['1', '9'] || digits.take 2 = ['2', '0']) &&
        !((c :: s).drop 4).head?.any Text.isWord then
      digits.foldl (fun n d => 10 * n + (d.toNat - 48)) 0
    else yearFrom (some c) s

def Candidate.year (c : Candidate) : ℕ := yearFrom none (c.applicationDate.getD "").toList

/-- A record of a position: the key it is matched by, and as it is written. -/
structure Member where
  key : String
  display : String
  deriving DecidableEq, Repr

/-- A position, with the candidates that stand in it. -/
structure PositionGroup where
  key : String
  members : List Member
  candidates : List Candidate
  deriving DecidableEq, Repr

section

variable (T : RecallText)

def statusRank (status : Option String) : ℕ :=
  let t := T.lower (status.getD "")
  if Text.includes t "regist" then 2
  else if ["pend", "appl", "filed", "examin", "publish"].any (Text.includes t) then 1
  else 0

/-- The order of the ranking: basis, status, year, and the id as written. -/
def rankLe (a b : Candidate) : Bool :=
  if basisRank b.basis ≠ basisRank a.basis then basisRank b.basis < basisRank a.basis
  else if statusRank T b.status ≠ statusRank T a.status then
    statusRank T b.status < statusRank T a.status
  else if b.year ≠ a.year then b.year < a.year
  else T.localeLe (a.recordId.getD "null") (b.recordId.getD "null")

def rankCandidates (candidates : List Candidate) : List Candidate :=
  candidates.mergeSort (rankLe T)

/-- The key of a record. -/
def canon (u : String) : String := T.lower ((normalizeRecordUri u).getD u)

def Candidate.key (c : Candidate) : String := canon T (c.recordId.getD "")

/-- The members of a position so far and one more URI: the first of a key is kept. -/
def addMember (members : List Member) (u : String) : List Member :=
  if canon T u = "" ∨ members.any (fun m => m.key = canon T u) then members
  else members ++ [{ key := canon T u, display := u }]

/-- The members of a position, by their keys. -/
def membersOf (position : List String) : List Member :=
  (position.foldl (addMember T) []).mergeSort fun a b =>
    decide (Text.utf16 a.key ≤ Text.utf16 b.key)

/-- The positions with a record in them. -/
def positionRows (positions : List (List String)) : List (List Member) :=
  (positions.map (membersOf T)).filter (· ≠ [])

def headKey (members : List Member) : String := (members.head?.map (·.key)).getD ""

/-- The key of the position that a record stands in: the last that was given. -/
def positionKey (rows : List (List Member)) (uri : String) : String :=
  ((rows.reverse.find? fun ms => ms.any fun m => m.key = uri).map headKey).getD uri

def addCandidate (rows : List (List Member)) (groups : List PositionGroup) (c : Candidate) :
    List PositionGroup :=
  let key := positionKey rows (c.key T)
  if groups.any (fun g => g.key = key) then
    groups.map fun g => if g.key = key then { g with candidates := g.candidates ++ [c] } else g
  else
    groups ++ [{ key := key
                 members := (rows.reverse.find? fun ms => headKey ms = key).getD
                   [{ key := c.key T, display := c.recordId.getD (c.key T) }]
                 candidates := [c] }]

def groupByPosition (ranked : List Candidate) (positions : List (List String)) :
    List PositionGroup :=
  ranked.foldl (addCandidate T (positionRows T positions)) []

end

/-- The records a findings document names. -/
structure Endings where
  carried : List String := []
  dropRows : List String := []
  deriving DecidableEq, Repr

/-- `/^#{1,6}\s+(.*)/`: the text of a heading. -/
def headingOf (line : List Char) : Option String :=
  let signs := (line.takeWhile (· = '#')).length
  let behind := line.drop signs
  if 1 ≤ signs ∧ signs ≤ 6 ∧ behind.head?.any Text.isSpace then
    some (String.ofList ((behind.dropWhile Text.isSpace).takeWhile fun c =>
      c.toNat ∉ [10, 13, 8232, 8233]))
  else none

/-- The section that a line leaves the reader in. -/
def inNegativesAfter (inNeg : Bool) (line : List Char) : Bool :=
  match headingOf line with
  | some heading => Text.includesFold heading "negative results"
  | none => inNeg

section

variable (T : RecallText)

/-- The records a line cites; a heading cites none. -/
def citedIn (line : List Char) : List String :=
  if (headingOf line).isSome then []
  else (urisOf 0 line).map fun m => T.lower (String.ofList m)

/-- The lines of the document, from one of them on. -/
def endingsFrom : Bool → List (List Char) → Endings
  | _, [] => {}
  | inNeg, line :: lines =>
    let rest := endingsFrom (inNegativesAfter inNeg line) lines
    if inNeg then { rest with dropRows := citedIn T line ++ rest.dropRows }
    else { rest with carried := citedIn T line ++ rest.carried }

def parseFindingsEndings (document : String) : Endings :=
  endingsFrom T false (document.toList.splitOn '\n')

end

inductive Ending
  | dropRow
  | finding
  | placementSetAside
  | placementGroup
  | crowd
  deriving DecidableEq, Repr

inductive Tier
  | topSlice
  | residual
  deriving DecidableEq, Repr

/-- What placement decided, by record. -/
structure Placement where
  byName : List String := []
  byGroup : List String := []
  deriving DecidableEq, Repr

/-- A row of the ledger that rules a crowd; none is a count past all numbers. -/
structure CrowdRuling where
  declared : Option ℕ
  deriving DecidableEq, Repr

structure RecallRow where
  recordId : Option String
  markText : Option String
  basis : Basis
  classes : List String
  status : Option String
  registry : Option String
  applicationDate : Option String
  positionRecords : List String
  candidateRecords : List (Option String)
  tier : Tier
  ending : Option Ending
  endedBy : Option String
  deriving DecidableEq, Repr

/-- The row as a member of a ruled crowd, where nothing else ends it. -/
def RecallRow.counted (r : RecallRow) (covers : Bool) : RecallRow :=
  if r.ending = none ∧ covers = true then { r with ending := some .crowd } else r

structure UnendedRow where
  row : RecallRow
  why : String
  deriving DecidableEq, Repr

structure RecallArtifact where
  topSlice : List RecallRow
  /-- the positions below the top slice, which the artifact counts -/
  rest : List RecallRow
  rulings : List CrowdRuling
  declared : ℕ
  residual : ℕ
  covers : Bool
  candidateIds : List String
  candidates : ℕ
  positions : ℕ
  unended : List UnendedRow
  deriving DecidableEq, Repr

def RecallArtifact.ended (a : RecallArtifact) (e : Ending) : ℕ :=
  (a.topSlice ++ a.rest).countP fun r => r.ending = some e

structure RecallInput where
  candidates : List Candidate
  endings : Endings := {}
  crowdRulings : List CrowdRuling := []
  topSlice : ℤ := 10
  positions : List (List String) := []
  placement : Placement := {}
  deriving DecidableEq, Repr

namespace RecallInput

variable (x : RecallInput)

/-- What ends a position: the first of these that names a member of it. -/
def endingOf (g : PositionGroup) (tier : Tier) : Option (Ending × String) :=
  let named (keys : List String) (e : Ending) : Option (Ending × String) :=
    (g.members.find? fun m => m.key ∈ keys).map fun m => (e, m.display)
  (named x.endings.dropRows .dropRow).or <| (named x.endings.carried .finding).or <|
    (named x.placement.byName .placementSetAside).or <|
      if tier = .residual then named x.placement.byGroup .placementGroup else none

def row (tier : Tier) (g : PositionGroup) : RecallRow :=
  -- the strongest candidate of the position
  let c := g.candidates.headD { recordId := none, basis := .other "" }
  { recordId := c.recordId, markText := c.markText, basis := c.basis, classes := c.classes
    status := c.status, registry := c.registry, applicationDate := c.applicationDate
    positionRecords := g.members.map (·.display)
    candidateRecords := g.candidates.map (·.recordId)
    tier := tier
    ending := (x.endingOf g tier).map Prod.fst
    endedBy := (x.endingOf g tier).map Prod.snd }

def declared : ℕ := x.crowdRulings.foldl (fun n r => n + r.declared.getD 0) 0

def topWhy : String :=
  "code-ranked top-slice position with no individual ending — needs a finding row or a Negative-results drop row citing ANY ONE of its constituent URIs (a crowd never ends a top-slice position)"

def restWhy (residual : ℕ) : String :=
  if x.crowdRulings ≠ [] then
    "residual position not individually ended and the ruled crowd counts only " ++
      toString x.declared ++ " member(s) against a residual of " ++ toString residual ++
      " — refresh the crowd ruling's count or end the position individually"
  else
    "residual position not individually ended and NO ruled dominant-element crowd exists in the Coverage ledger — rule the crowd (one counted row) or end the position individually"

variable (T : RecallText)

/-- The join over candidates that are ranked. -/
def joinRanked (ranked : List Candidate) : RecallArtifact :=
  let groups := groupByPosition T ranked x.positions
  let topRows := (groups.take x.topSlice.toNat).map (x.row .topSlice)
  let restRows := (groups.drop x.topSlice.toNat).map (x.row .residual)
  let residual := restRows.filter (·.ending = none)
  let covers := decide (x.crowdRulings ≠ [] ∧ residual.length ≤ x.declared)
  { topSlice := topRows
    rest := restRows.map fun r => r.counted covers
    rulings := x.crowdRulings
    declared := x.declared
    residual := residual.length
    covers := covers
    candidateIds := ((ranked.map (·.key T)).filter (· ≠ "")).eraseDups
    candidates := ranked.length
    positions := groups.length
    unended := ((topRows.filter (·.ending = none)).map fun r => { row := r, why := topWhy }) ++
      if covers then []
      else residual.map fun r => { row := r, why := x.restWhy residual.length } }

end RecallInput

def reconcileRecall (T : RecallText) (x : RecallInput) : RecallArtifact :=
  x.joinRanked T (rankCandidates T x.candidates)

end Clearotron
