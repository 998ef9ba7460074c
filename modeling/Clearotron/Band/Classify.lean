import Clearotron.Library.Tokens
import Clearotron.Register.Text

/-!
# A mark against the targets

A record's mark is compared with the targets of the matter by one mechanical test after the other,
and the first that matches gives the tier: the same mark, one an edit away, one of the same family.
What the runtime knows of letters and scripts, and the sound codes of a word, are parameters.
-/

namespace Clearotron.Shape

structure MarkText where
  foldDiacritics : String → String
  lower : String → String
  /-- `text.normalize("NFKC")` -/
  nfkc : String → String
  isLetterOrNumber : Char → Bool
  /-- the non-Latin scripts that are told apart, in order -/
  scripts : List (String × (Char → Bool))
  /-- the sound codes of a word, a code that is empty included -/
  doubleMetaphone : String → List String
  /-- `a.localeCompare(b) <= 0` -/
  localeLe : String → String → Bool

inductive Tier
  | identical
  | nearIdentical
  | sameFamily
  | other
  | unclassifiable
deriving DecidableEq

namespace Tier

/-- `TIER_RANK`. -/
def rank : Tier → ℕ
  | identical => 0
  | nearIdentical => 1
  | sameFamily => 2
  | other => 3
  | unclassifiable => 4

/-- The tiers of a floor. -/
def isClose (t : Tier) : Bool := t = identical || t = nearIdentical

end Tier

structure Classification where
  tier : Tier
  target : Option String
  basis : String

/-- `AZ`. -/
def letters : List Char := "abcdefghijklmnopqrstuvwxyz".toList

def isVowel (c : Char) : Bool := c ∈ ['a', 'e', 'i', 'o', 'u', 'y']

/-- `[a-z0-9]` -/
def isPlain (c : Char) : Bool :=
  (97 ≤ c.toNat && c.toNat ≤ 122) || (48 ≤ c.toNat && c.toNat ≤ 57)

/-- The words one edit away: a letter dropped, two swapped, one replaced, one put in. -/
def oneEdit (w : List Char) : List (List Char) :=
  let deletions := (List.range w.length).map fun i => w.take i ++ w.drop (i + 1)
  let transpositions := (List.range (w.length - 1)).map fun i =>
    w.take i ++ ((w.drop (i + 1)).take 1 ++ ((w.drop i).take 1 ++ w.drop (i + 2)))
  let substitutions := (List.range w.length).flatMap fun i =>
    (letters.filter fun c => w[i]? ≠ some c).map fun c => w.take i ++ c :: w.drop (i + 1)
  let insertions := (List.range (w.length + 1)).flatMap fun i =>
    letters.map fun c => w.take i ++ c :: w.drop i
  (deletions ++ transpositions ++ substitutions ++ insertions).filter (· ≠ w)

/-- Each run of one character as one. -/
def squashRuns : List Char → List Char
  | [] => []
  | c :: rest => if rest.head? = some c then squashRuns rest else c :: squashRuns rest

/-- Two characters read as one. -/
def foldPair (a b c : Char) : List Char → List Char
  | x :: y :: rest =>
    if x = a ∧ y = b then c :: foldPair a b c rest else x :: foldPair a b c (y :: rest)
  | rest => rest

/-- A character read as the letter it looks like. -/
def lookAlike (c : Char) : Char :=
  if c = '0' then 'o'
  else if c ∈ ['1', '!', '|'] then 'l'
  else if c = '5' then 's'
  else if c = '8' then 'b'
  else if c = '3' then 'e'
  else if c = '@' then 'a'
  else if c = '7' then 't'
  else c

/-- A row of the distances of one word's beginning to each beginning of another, from the row
before it. -/
def distancesAfter (x : Char) : List Char → List ℕ → ℕ → List ℕ
  | y :: b, diagonal :: above :: prev, left =>
    let here := min (min (above + 1) (left + 1)) (diagonal + if x = y then 0 else 1)
    here :: distancesAfter x b (above :: prev) here
  | _, _, _ => []

/-- The rows, given up past two. -/
def withinTwo (b : List Char) : List Char → ℕ → List ℕ → Bool
  | [], _, prev => prev.getLastD 0 ≤ 2
  | x :: a, i, prev =>
    let cur := i :: distancesAfter x b prev i
    if cur.all (2 < ·) then false else withinTwo b a (i + 1) cur

def withinTwoEdits (a b : String) : Bool :=
  let (s, t) := (a.toList, b.toList)
  if s.length + 2 < t.length ∨ t.length + 2 < s.length then false
  else withinTwo t s 1 (List.range (t.length + 1))

section

variable (T : MarkText)

def normalizeElement (s : String) : String :=
  String.ofList ((T.lower (T.foldDiacritics s)).toList.filter isPlain)

def editNeighbourhood (element : String) : List String :=
  (oneEdit (normalizeElement T element).toList).map String.ofList

def consonantSkeleton (element : String) : String :=
  String.ofList (squashRuns ((normalizeElement T element).toList.filter (!isVowel ·)))

def confusableSkeleton (s : String) : String :=
  let w := (T.lower (T.foldDiacritics s)).toList.map lookAlike
  let folded := foldPair 'c' 'l' 'd' (foldPair 'v' 'v' 'w' (foldPair 'r' 'n' 'm' w))
  String.ofList (folded.filter isPlain)

def nonLatinScripts (s : String) : List String :=
  (T.scripts.filter fun script => s.toList.any script.2).map Prod.fst

def tokensOf (s : String) : List String :=
  ((tokens T.isLetterOrNumber s.toList).map fun t => normalizeElement T (String.ofList t)).filter
    (· ≠ "")

/-- The alternative names of a label. -/
def aliasesOf (label : String) : List String :=
  ((label.toList.splitOnP (· ∈ ['/', ',', '·', '&', '|'])).map fun part =>
    normalizeElement T (String.ofList part)).filter (· ≠ "")

/-- The sound codes of a word. -/
def soundsOf (norm : String) : List String := (T.doubleMetaphone norm).filter (· ≠ "")

/-- A target, with what it is compared by. -/
structure PreparedTarget where
  text : String
  norm : String
  edit1 : List String
  conf : String
  cons : String
  metaphone : List String

def prepareTarget (text : String) : PreparedTarget :=
  let norm := normalizeElement T text
  -- a target without a Latin skeleton is matched by its own text and by nothing else
  if norm = "" then ⟨text, "", [], "", "", []⟩
  else ⟨text, norm, editNeighbourhood T norm, confusableSkeleton T text, consonantSkeleton T norm,
    soundsOf T norm⟩

def targetKey (text : String) : String :=
  if normalizeElement T text ≠ "" then normalizeElement T text else "raw:" ++ T.nfkc text

/-- `prepareTargets`: each key once. -/
def prepareTargets : List String → List String → List PreparedTarget
  | _, [] => []
  | seen, raw :: rest =>
    let text := Text.trim raw
    if targetKey T text ∈ seen then prepareTargets seen rest
    else prepareTarget T text :: prepareTargets (targetKey T text :: seen) rest

/-- `EDIT2_MIN_LEN`. -/
def edit2MinLen : ℕ := 6

/-- The first target a test holds of. -/
def matchOf (tier : Tier) (targets : List PreparedTarget)
    (basis : PreparedTarget → Option String) : Option Classification :=
  targets.findSome? fun t => (basis t).map fun b => ⟨tier, some t.text, b⟩

/-- A mark without a Latin skeleton: the same text, or not to be compared. -/
def classifyRaw (text : String) (targets : List PreparedTarget) : Classification :=
  let raw := Text.trim (T.nfkc text)
  let same := matchOf .identical targets fun t =>
    if raw ≠ "" ∧ raw = Text.trim (T.nfkc t.text) then some "script-exact" else none
  same.getD ⟨.unclassifiable, none,
    if nonLatinScripts T text = [] then "no-comparable-content"
    else "non-latin-script:" ++ "+".intercalate (nonLatinScripts T text)⟩

/-- The alternative names of a label that has some, each against the targets. -/
def aliasMatch (text : String) (targets : List PreparedTarget) : Option Classification :=
  if 1 < (aliasesOf T text).length then
    (aliasesOf T text).findSome? fun a =>
      matchOf .identical targets fun t => if a = t.norm then some "alias-exact" else none
  else none

def nearBasis (norm conf : String) (t : PreparedTarget) : Option String :=
  if norm ∈ t.edit1 then some "edit-1"
  else if conf ≠ "" ∧ conf = t.conf then some "confusable-skeleton"
  else none

def familyBasis (toks meta' : List String) (cons : String) (t : PreparedTarget) : Option String :=
  if t.norm ∈ toks then some "token-identical"
  else if toks.any (· ∈ t.edit1) then some "token-edit-1"
  else if cons ≠ "" ∧ cons = t.cons then some "consonant-skeleton"
  else if meta'.any (· ∈ t.metaphone) then some "double-metaphone"
  else none

def classifyRecord (text : String) (targets : List PreparedTarget) : Classification :=
  let norm := normalizeElement T text
  if norm = "" then classifyRaw T text targets
  else
    let equal := matchOf .identical targets fun t =>
      if norm = t.norm then some "normalized-equal" else none
    let near := matchOf .nearIdentical targets (nearBasis norm (confusableSkeleton T text))
    let family := matchOf .sameFamily targets
      (familyBasis (tokensOf T text) (soundsOf T norm) (consonantSkeleton T norm))
    let twoEdits := matchOf .sameFamily targets fun t =>
      if edit2MinLen ≤ t.norm.length ∧ withinTwoEdits norm t.norm then some "edit-2" else none
    ((((equal.or (aliasMatch T text targets)).or near).or family).or twoEdits).getD
      ⟨.other, none, "no-mechanical-match"⟩

end

end Clearotron.Shape
