import Clearotron.Band.Classify
import Mathlib.Data.List.Sort

/-!
# The near forms of an element

The forms that a machine searches are worked out from the element alone: the words one edit away,
those that look alike, those of another script. An ordinary word that sounds different is not asked
for as an edit, a spelling in two scripts not where the register cannot take it; forms that the
registers fold together are asked for once.
-/

namespace Clearotron.Neighbourhood

open Shape (letters isVowel oneEdit squashRuns)

/-- The combining marks that are stripped. -/
def isCombining (c : Char) : Bool := 0x300 ≤ c.toNat && c.toNat ≤ 0x36F

/-- The letters that do not decompose. -/
def specialLetters : List (Char × List Char) :=
  [('ß', ['s', 's']), ('Ø', ['O']), ('ø', ['o']), ('Æ', ['A', 'E']), ('æ', ['a', 'e']),
   ('Œ', ['O', 'E']), ('œ', ['o', 'e']), ('Ð', ['D']), ('ð', ['d']), ('Þ', ['T', 'H']),
   ('þ', ['t', 'h']), ('ł', ['l']), ('Ł', ['L'])]

def foldLetter (c : Char) : List Char := (specialLetters.lookup c).getD [c]

/-- What is folded of a decomposed text. -/
def foldLetters (l : List Char) : List Char := (l.filter (!isCombining ·)).flatMap foldLetter

/-- What the code takes from the runtime. -/
structure FormText extends Shape.MarkText where
  /-- `normalize("NFD")` -/
  nfd : String → String
  isLatin : Char → Bool
  isGreekOrCyrillic : Char → Bool
  folds : ∀ s, foldDiacritics s = String.ofList (foldLetters (nfd s).toList)
  /-- ASCII is decomposed as it is, and small letters are -/
  nfd_ascii : ∀ s, (∀ c ∈ s.toList, c.toNat < 128) → nfd s = s
  lower_small : ∀ s, (∀ c ∈ s.toList, c.toNat < 128 ∧ c.isUpper = false) → lower s = s
  /-- no letter is decomposed into marks alone, or into nothing -/
  nfd_filled : ∀ s, (∃ c ∈ s.toList, isCombining c = false) →
    ∃ c ∈ (nfd s).toList, isCombining c = false
  lower_filled : ∀ s, s ≠ "" → lower s ≠ ""
  foreign : ∀ c, c.toNat < 128 → isGreekOrCyrillic c = false

/-- A set of texts, sorted. -/
def sortedSet (l : List String) : List String :=
  l.dedup.insertionSort fun a b => Text.utf16 a ≤ Text.utf16 b

/-- Each place where a text stands, the first of two that overlap, with another text in it. -/
def replaceAll (word by' : List Char) : ℕ → List Char → List Char
  | 0, l => l
  | fuel + 1, l =>
    match l with
    | [] => []
    | c :: rest =>
      if word.isPrefixOf (c :: rest) then
        by' ++ replaceAll word by' fuel ((c :: rest).drop word.length)
      else c :: replaceAll word by' fuel rest

def replaced (word by' : String) (l : List Char) : List Char :=
  replaceAll word.toList by'.toList l.length l

section

variable (T : FormText)

def normalizeElement (s : String) : String := Shape.normalizeElement T.toMarkText s

def editNeighbourhood (element : String) : List String :=
  sortedSet (Shape.editNeighbourhood T.toMarkText element)

def ordinaryWordDifferentSound (element : String) (ordinaryWords : List String) : List String :=
  let el := normalizeElement T element
  if el = "" ∨ ordinaryWords = [] then []
  else
    let own := (T.doubleMetaphone el).filter (· ≠ "")
    (editNeighbourhood T el).filter fun t => t ∈ ordinaryWords &&
      !((T.doubleMetaphone t).filter (· ≠ "")).any (· ∈ own)

/-- `HOMOGLYPH_SUB`. -/
def homoglyphTable : List (Char × List String) :=
  [('o', ["0"]), ('0', ["o"]), ('l', ["1", "i"]), ('i', ["1", "l"]), ('1', ["l", "i"]),
   ('s', ["5", "z"]), ('z', ["s"]), ('b', ["8"]), ('a', ["@"]), ('e', ["3"]), ('g', ["9", "q"]),
   ('t', ["7"]), ('u', ["v"]), ('v', ["u"]), ('c', ["k"]), ('k', ["c"]), ('f', ["ph"]),
   ('y', ["i"])]

def homoglyphSub (c : Char) : List (List Char) :=
  ((homoglyphTable.lookup c).getD []).map String.toList

/-- `MULTIGRAPH`. -/
def multigraph : List (String × String) := [("m", "rn"), ("w", "vv"), ("d", "cl"), ("m", "nn")]

def visualConfusables (element : String) : List String :=
  let w := (normalizeElement T element).toList
  let swaps := (List.range w.length).flatMap fun i =>
    (((w.drop i).head?.map homoglyphSub).getD []).map fun r => w.take i ++ (r ++ w.drop (i + 1))
  let graphs := multigraph.flatMap fun (a, b) =>
    (if a.toList <:+: w then [replaced a b w] else []) ++
      if b.toList <:+: w then [replaced b a w] else []
  (sortedSet (((swaps ++ graphs).filter (· ≠ w)).map String.ofList)).take 60

/-- `DIACRITIC_MAP`. -/
def diacriticMap : List (Char × List Char) :=
  [('a', ['á', 'à', 'â', 'ä', 'ã', 'å']), ('e', ['é', 'è', 'ê', 'ë']), ('i', ['í', 'ì', 'î', 'ï']),
   ('o', ['ó', 'ò', 'ô', 'ö', 'õ', 'ø']), ('u', ['ú', 'ù', 'û', 'ü']), ('n', ['ñ']), ('c', ['ç']),
   ('s', ['š', 'ß']), ('y', ['ý', 'ÿ']), ('z', ['ž'])]

/-- `CYRILLIC_LOOKALIKE`. -/
def cyrillicLookalike : List (Char × Char) :=
  [('a', 'а'), ('e', 'е'), ('o', 'о'), ('p', 'р'), ('c', 'с'), ('y', 'у'), ('x', 'х'), ('k', 'к'),
   ('m', 'м'), ('t', 'т'), ('h', 'н'), ('b', 'в')]

/-- `GREEK_LOOKALIKE`. -/
def greekLookalike : List (Char × Char) :=
  [('a', 'α'), ('b', 'β'), ('e', 'ε'), ('i', 'ι'), ('o', 'ο'), ('p', 'ρ'), ('t', 'τ'), ('x', 'χ'),
   ('y', 'υ'), ('n', 'η'), ('k', 'κ'), ('m', 'μ')]

def lookalike (table : List (Char × Char)) (w : List Char) : List Char :=
  w.map fun c => (table.lookup c).getD c

/-- `SUPPORTED_SCRIPTS`. -/
def supportedScripts : List String :=
  ["latin-diacritic", "german", "nordic", "cyrillic-homoglyph", "greek-homoglyph"]

/-- The first of a letter with each of its marks. -/
def accented (w : List Char) (row : Char × List Char) : List (List Char) :=
  if row.1 ∈ w then
    row.2.map fun a => w.takeWhile (· ≠ row.1) ++ a :: (w.dropWhile (· ≠ row.1)).drop 1
  else []

/-- The German and Nordic spellings. -/
def respelled (w : List Char) : List (List Char) :=
  [replaced "ue" "u" (replaced "oe" "o" (replaced "ae" "a" w)),
   replaced "u" "ue" (replaced "o" "oe" (replaced "a" "ae" w)), replaced "ss" "s" w]

def transliterations (element : String) (scripts : List String) : List String :=
  let w := (normalizeElement T element).toList
  let conventions := if "german" ∈ scripts ∨ "nordic" ∈ scripts then respelled w else []
  let accents := if "latin-diacritic" ∈ scripts then diacriticMap.flatMap (accented w) else []
  let cyrillic := if "cyrillic-homoglyph" ∈ scripts then [lookalike cyrillicLookalike w] else []
  let greek := if "greek-homoglyph" ∈ scripts then [lookalike greekLookalike w] else []
  sortedSet (((conventions ++ accents ++ cyrillic ++ greek).filter fun t => t ≠ w ∧ t ≠ []).map
    String.ofList)

def mixesLatinWithGreekOrCyrillic (term : String) : Bool :=
  term.toList.any T.isLatin && term.toList.any T.isGreekOrCyrillic

/-- Each run of vowels as one open place. -/
def openVowels : List Char → List Char
  | [] => []
  | c :: rest =>
    if isVowel c then
      if rest.head?.any isVowel then openVowels rest else '?' :: openVowels rest
    else c :: openVowels rest

def skeletonPatterns (element : String) : List String :=
  let w := (normalizeElement T element).toList
  if w = [] then []
  else
    let skeleton := (Shape.consonantSkeleton T.toMarkText (String.ofList w)).toList
    let anchored := match skeleton.head?, skeleton.getLast? with
      | some first, some last => if 2 ≤ skeleton.length then [[first, '*', last]] else []
      | _, _ => []
    ((openVowels w :: anchored).dedup.filter fun p => '*' ∈ p ∨ '?' ∈ p).map String.ofList

/-- The fold on which the registers take two spellings for one. -/
def fold (s : String) : String := T.lower (T.foldDiacritics s)

/-- The first term of each fold that was not seen. -/
def firstOfFold : List String → List String → List String
  | _, [] => []
  | seen, t :: terms =>
    if fold T t = "" ∨ fold T t ∈ seen then firstOfFold seen terms
    else t :: firstOfFold (fold T t :: seen) terms

def dedupeOnFold (terms : List String) (element : String) : List String :=
  firstOfFold T [fold T element] (sortedSet terms)

/-- What a matter asks of the band. -/
structure BandOptions where
  scripts : List String := supportedScripts
  droppedAxes : List String := []
  ordinaryWords : List String := []
  /-- does the register take a term in two scripts? -/
  mixedScriptQuery : Option Bool := none

structure FormBand where
  element : String
  exactQueries : List String
  wildcardPatterns : List String
  phoneticKeys : List String
  confusables : List String
  transliterations : List String
  ordinaryWordDifferentSound : List String
  mixedScriptNotSearched : List String

/-- The confusables of an element, none where the family is dropped. -/
def keptConfusables (el : String) (o : BandOptions) : List String :=
  if "visual-confusable" ∈ o.droppedAxes then [] else visualConfusables T el

def keptTransliterations (el : String) (o : BandOptions) : List String :=
  if "transliteration" ∈ o.droppedAxes then [] else transliterations T el o.scripts

def formNeighbourhood (element : String) (o : BandOptions) : FormBand :=
  let el := normalizeElement T element
  if el = "" then ⟨"", [], [], [], [], [], [], []⟩
  else
    let notSearched := ordinaryWordDifferentSound T el o.ordinaryWords
    let edits := (editNeighbourhood T el).filter (· ∉ notSearched)
    let generated := keptTransliterations T el o
    let mixed := if o.mixedScriptQuery = some false then
      generated.filter (mixesLatinWithGreekOrCyrillic T) else []
    let trans := generated.filter (· ∉ mixed)
    let phonetic := decide ("phonetic-family" ∈ o.droppedAxes)
    { element := el
      exactQueries := dedupeOnFold T (edits ++ keptConfusables T el o ++ trans) el
      wildcardPatterns := if phonetic then [] else skeletonPatterns T el
      phoneticKeys := if phonetic then [] else (T.doubleMetaphone el).filter (· ≠ "")
      confusables := keptConfusables T el o
      transliterations := trans
      ordinaryWordDifferentSound := notSearched
      mixedScriptNotSearched := mixed }

structure BandElement where
  element : String
  band : FormBand

/-- A family of the floor, with what is said of it where it is not asked for. -/
structure Family where
  family : String
  dispatch : Option String
  dropped : Bool
  terms : List String

/-- The generator that claims a term first. -/
def claim (el : BandElement) (q : String) : String :=
  if q ∈ editNeighbourhood T el.element then "edit-1"
  else if q ∈ el.band.confusables then "visual-confusable"
  else if q ∈ el.band.transliterations then "transliteration"
  else "other"

/-- What a family is given of the elements' queries. -/
def claimed (elements : List BandElement) (family : String) : List String :=
  sortedSet (elements.flatMap fun el =>
    el.band.exactQueries.filter fun q => claim T el q = family)

/-- The families of the floor; `spacing` are the spellings of the mark apart. -/
def variantFloorFamilies (elements : List BandElement) (spacing droppedAxes : List String)
    (mixedScriptReason : String) : List Family :=
  let other := claimed T elements "other"
  let notSearched := sortedSet (elements.flatMap fun el => el.band.ordinaryWordDifferentSound)
  let mixed := sortedSet (elements.flatMap fun el => el.band.mixedScriptNotSearched)
  [⟨"edit-1", none, false, claimed T elements "edit-1"⟩,
   ⟨"spacing-punctuation", some ("covered by the mark's own register entry (norm/formKey fold " ++
      "separators); not re-dispatched"), false, spacing⟩,
   ⟨"visual-confusable", none, "visual-confusable" ∈ droppedAxes,
      claimed T elements "visual-confusable"⟩,
   ⟨"transliteration", none, "transliteration" ∈ droppedAxes,
      claimed T elements "transliteration"⟩,
   ⟨"phonetic-family", none, "phonetic-family" ∈ droppedAxes,
      sortedSet (elements.flatMap fun el => el.band.wildcardPatterns)⟩] ++
  (if other = [] then [] else [⟨"other", none, false, other⟩]) ++
  (if notSearched = [] then [] else [⟨"ordinary-word-different-sound",
    some "not searched — ordinary word, different sound", true, notSearched⟩]) ++
  if mixed = [] then [] else [⟨"mixed-script-look-alike", some mixedScriptReason, true, mixed⟩]

/-- A family whose terms are asked for. -/
def Family.isSearched (f : Family) : Bool := f.dispatch.isNone

end

end Clearotron.Neighbourhood
