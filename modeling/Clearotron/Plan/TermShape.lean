import Clearotron.Plan.Entry

/-!
# Is a string a searchable mark term, and does it agree with its predicate?

One walk over an entry's terms, shared by the freeze lint, the fold and the executor.
Substance comes first and nothing is exempt from it; markup is shielded by no stamp;
shape and predicate rules are, by `term_literal`.
-/

namespace Clearotron

/-- What the host knows of Unicode. -/
structure Unicode where
  /-- `[\p{L}\p{N}]` -/
  letterOrNumber : Char → Bool
  /-- a character searchable as written: Latin, Common or Inherited script -/
  searchable : Char → Bool

namespace Text

/-- `s.split(/\s+/).filter(Boolean)`. -/
def words (s : String) : List String :=
  ((s.toList.splitOnP isSpace).filter (· ≠ [])).map String.ofList

/-- Do two characters that satisfy `p` and `q` flank one that satisfies `mid`? -/
def flanked (mid : Char → Bool) : List Char → Bool
  | a :: b :: c :: rest =>
      (isSpace a && mid b && isSpace c) || flanked mid (b :: c :: rest)
  | _ => false

end Text

open Text in
/-- `/^\s*#{1,6}\s/` on a trimmed text. -/
def isHeading (t : String) : Bool :=
  let marks := t.toList.takeWhile (· = '#')
  1 ≤ marks.length && marks.length ≤ 6 && (t.toList.drop marks.length).head?.any isSpace

open Text in
/-- `etc` as a word of its own, an ellipsis, or three dots, at the front. -/
def startsEnumeration (s : List Char) : Bool :=
  ("etc".toList.isPrefixOf (s.map Char.toLower) && !(s.drop 3).head?.any isWord) ||
    "…".toList.isPrefixOf s || "...".toList.isPrefixOf s

open Text in
/-- `/,\s*(?:etc\b\.?|…|\.\.\.)/i`. -/
def isEnumeration : List Char → Bool
  | [] => false
  | c :: rest => (c = ',' && startsEnumeration (rest.dropWhile isSpace)) || isEnumeration rest

/-- What kind of markup a term carries. -/
def markupArms (t : String) : List String :=
  (if Text.includes t "**" || Text.includes t "__" then ["markdown emphasis"] else []) ++
  (if isHeading t then ["a markdown heading marker"] else []) ++
  (if isEnumeration t.toList then ["a \", etc.\" enumeration — the string stands for a " ++
    "GROUP of terms, and no single literal can search a group"] else [])

/-- Markup or an enumeration rather than a mark term, at any word count. -/
def termMarkupIssue (term : String) : Option String :=
  let t := Text.trim term
  if t = "" then none
  else match markupArms t with
    | [] => none
    | arms => some ("\"" ++ Text.slice 60 t ++ "\" is not a searchable mark term (" ++
        String.intercalate "; and " arms ++ "). Dispatched literally it returns a confident 0 " ++
        "over marks that exist — a nil search that reads as CLEAN — so it is refused here " ++
        "rather than at fan-in. Supply the mark-shaped term(s) it stands for: " ++
        "\x7bterms:[\"…\",\"…\"], nice_classes:[…]\x7d. Say WHAT to search, not what the " ++
        "group is called")

/-- A star at either end makes a term a pattern. -/
def hasAnchoredWildcard (term : String) : Bool :=
  let t := (Text.trim term).toList
  t.head? = some '*' || t.getLast? = some '*'

/-- The predicates whose term is searched as literal mark text. -/
def Predicate.isLiteral : Predicate → Bool
  | .exact | .default | .phonetic => true
  | _ => false

/-- A term that disagrees with its predicate. -/
def termPredicateIssue (term : String) (predicate : Predicate) : Option String :=
  let t := Text.trim term
  if t = "" then none
  else if predicate.isLiteral && hasAnchoredWildcard t then
    some ("wildcard-shaped term \"" ++ Text.slice 40 t ++ "\" under literal predicate \"" ++
      predicate.text ++ "\" — the provider searches the star as a character and returns a " ++
      "confident 0 over marks that exist (a false clean). Use predicate \"wildcard\", or " ++
      "stamp term_literal:true if the mark really carries an anchored star")
  else if predicate = .wildcard && !t.toList.any (fun c => c = '*' || c = '?') then
    some ("predicate \"wildcard\" over \"" ++ Text.slice 40 t ++ "\" which carries neither " ++
      "`*` nor `?` — there is no pattern to anchor; use a literal predicate")
  else none

/-- What is not mark-shaped in a term, past two words. -/
def proseShape (t : String) : Option String :=
  if 4 < (Text.words t).length then some (toString (Text.words t).length ++ " words")
  else if Text.includes t "(" then some "parenthetical"
  else if Text.includes t "—" || Text.includes t ";" then some "sentence punctuation"
  else if Text.flanked (· = '/') t.toList then some "space-flanked slash"
  else none

/-- Prose or a label rather than a mark. A term of one or two words never is. -/
def termShapeIssue (term : String) : Option String :=
  let t := Text.trim term
  if t = "" then none
  else match termMarkupIssue t with
    | some markup => some markup
    | none =>
        if (Text.words t).length ≤ 2 then none
        else (proseShape t).map fun why =>
          "\"" ++ Text.slice 60 t ++ "\" is label/prose-shaped (" ++ why ++
            ") — dispatching it as a mark term is a nil search that reads as a clean; supply " ++
            "the mark-shaped term(s) it stands for, or stamp term_literal:true for a genuine " ++
            "mark of this shape"

/-- Nothing in the term to search. -/
def termSubstanceIssue (U : Unicode) (term : String) : Option String :=
  let t := Text.trim term
  if t = "" then none
  else if t.toList.any U.letterOrNumber then none
  else some ("term \"" ++ Text.slice 40 t ++ "\" carries no letter or digit — there is " ++
    "nothing in it for a provider to match, under any predicate. Refused at the builder " ++
    "rather than bounced by the provider and disclosed as a coverage gap the run could " ++
    "never have closed")

/-- A term and what is wrong with it. -/
structure TermIssue where
  term : String
  issue : String
  deriving DecidableEq

/-- The issue of each term that has one. -/
def issuesOf (issue : String → Option String) (terms : List String) : List TermIssue :=
  terms.filterMap fun t => (issue t).map fun i => ⟨t, i⟩

/-- Every issue of one entry's terms. -/
def entryTermIssues (U : Unicode) (e : Entry) : List TermIssue :=
  let substance := issuesOf (termSubstanceIssue U) e.names
  if substance ≠ [] || e.predicate = .owner then substance
  else issuesOf (fun t => termMarkupIssue t <|>
    (if e.termLiteral then none else termPredicateIssue t e.predicate <|> termShapeIssue t))
    e.names

/-- Does a term carry a character of a script the register does not read as written? -/
def isNonLatinTerm (U : Unicode) (term : String) : Bool :=
  term.toList.any fun c => !U.searchable c

end Clearotron
