import Clearotron.Library.Like
import Clearotron.Library.Tokens
import Clearotron.Register.Text

/-!
# The local index

The US register as one table, and the questions it is asked. Two of them read a token
index first, one over each text and one over each text reversed, and then put the question
itself to what is left. What the runtime knows of letters is a parameter.
-/

namespace Clearotron

structure IndexText where
  /-- `toUpperCase` -/
  fold : String → String
  fold_ne_empty : ∀ s, s ≠ "" → fold s ≠ ""
  noLower : ∀ s, ∀ c ∈ (fold s).toList, c.isLower = false
  /-- what the tokenizer keeps together -/
  letterOrDigit : Char → Bool

/-- A class list as it may arrive: none, one text with commas, or a list. -/
inductive ClassList
  | absent
  | text (s : String)
  | items (classes : List String)
  deriving DecidableEq, Repr

/-- `String(Number.parseInt(s, 10))` where it is a number, for numbers that are exact. -/
def parseInt10 (s : List Char) : Option String :=
  let negative := s.head? = some '-'
  let digits := (if negative ∨ s.head? = some '+' then s.tail else s).takeWhile Char.isDigit
  let number := digits.dropWhile (· = '0')
  if digits = [] then none
  else if number = [] then some "0"
  else some (String.ofList (if negative then '-' :: number else number))

/-- The classes, each in one spelling and once. -/
def normalizeClasses (classes : ClassList) : List String :=
  let list := match classes with
    | .absent => []
    | .text s => (s.toList.splitOnP (· = ',')).map String.ofList
    | .items cs => cs
  (list.filterMap fun c => parseInt10 (Text.trim c).toList).eraseDups

def deadCodes : List String :=
  ["400", "401", "402", "403", "600", "601", "602", "603", "604", "605", "606", "607", "608", "609",
   "614", "618", "622", "626", "709", "710", "711", "712", "713", "714", "716", "900"]

def liveCodes : List String :=
  ["612", "616", "624", "630", "631", "632", "638", "640", "641", "642", "643", "644", "645", "646",
   "647", "648", "649", "650", "651", "652", "653", "654", "655", "656", "657", "658", "659", "660",
   "661", "663", "664", "665", "666", "667", "668", "672", "673", "680", "681", "682", "686", "689",
   "690", "692", "693", "694", "700", "701", "702", "703", "704", "705", "706", "707", "708", "715",
   "717", "718", "719", "720", "721", "722", "724", "725", "730", "731", "732", "733", "734", "740",
   "744", "745", "746", "748", "752", "753", "756", "757", "760", "762", "763", "764", "765", "766",
   "771", "772", "773", "774", "775", "777", "778", "779", "780", "790", "794", "800", "801", "802",
   "803", "804", "806", "807", "808", "809", "810", "811", "812", "813", "814", "815", "816", "817",
   "818", "819", "820", "821", "822", "823", "824", "825", "973"]

/-- A code that is in neither table is not known to be dead. -/
def statusClassOf (code : Option String) : String :=
  let c := Text.trim (code.getD "")
  if c = "" then "unknown"
  else if c ∈ deadCodes then "dead"
  else if c ∈ liveCodes then "live"
  else "unknown"

/-- A record of a bulk file. -/
structure MarkRecord where
  serial : String
  regno : Option String := none
  text : String := ""
  owner : String := ""
  ownerCountry : Option String := none
  status : Option String := none
  statusClass : Option String := none
  classes : ClassList := .absent
  filed : Option String := none
  regd : Option String := none
  expiry : Option String := none
  gs : Option String := none
  deriving DecidableEq, Repr

/-- `MARK_COLUMNS`. -/
structure MarkRow where
  serial : String
  regno : Option String
  text : String
  rtext : String
  owner : Option String
  ownerCountry : Option String
  status : Option String
  statusClass : String
  classes : Option String
  filed : Option String
  regd : Option String
  expiry : Option String
  gs : Option String
  deriving DecidableEq, Repr

def reverseText (s : String) : String := String.ofList s.toList.reverse

/-- `,9,42,`, so that a class is found between its commas. -/
def classColumn (classes : List String) : List Char :=
  ',' :: classes.flatMap fun c => c.toList ++ [',']

section

variable (T : IndexText)

def putRecord (r : MarkRecord) : MarkRow where
  serial := r.serial
  regno := r.regno
  text := T.fold r.text
  rtext := reverseText (T.fold r.text)
  owner := if T.fold r.owner = "" then none else some (T.fold r.owner)
  ownerCountry := r.ownerCountry
  status := r.status
  statusClass := r.statusClass.getD (statusClassOf r.status)
  classes :=
    if normalizeClasses r.classes = [] then none
    else some (String.ofList (classColumn (normalizeClasses r.classes)))
  filed := r.filed
  regd := r.regd
  expiry := r.expiry
  gs := r.gs

/-- The records a table keeps, the last of each serial, in the order they were put. -/
def keptRecords (records : List MarkRecord) : List MarkRecord :=
  records.foldl (fun kept r => kept.filter (·.serial ≠ r.serial) ++ [r]) []

/-- The table, its token indexes rebuilt. -/
def builtRows (records : List MarkRecord) : List MarkRow := (keptRecords records).map (putRecord T)

inductive IndexPredicate
  | exact
  | default
  | wildcardPrefix
  | wildcardSuffix
  | wildcardInfix
  | owner
  | other (name : String)
  deriving DecidableEq, Repr

structure IndexQuery where
  predicate : IndexPredicate := .exact
  term : List String
  classes : ClassList := .absent
  status : Option String := none
  owner : Option String := none
  deriving Repr

/-- The terms asked for: folded, trimmed, none of them blank. -/
def IndexQuery.terms (q : IndexQuery) : List String :=
  (q.term.map fun t => Text.trim (T.fold t)).filter (· ≠ "")

/-- SQLite's `LIKE`: the letters of ASCII have no case. -/
def like (esc : Option Char) (pattern : List Char) (column : String) : Bool :=
  ((Wild.parse esc pattern).map fun ps => Wild.runs Char.toUpper ps column.toList).getD false

def escapeLike (s : String) : List Char := Wild.escape '\\' s.toList

def likeContains (s column : String) : Bool :=
  like (some '\\') ('%' :: (escapeLike s ++ ['%'])) column

/-- `rowid IN (SELECT rowid FROM … WHERE … MATCH ?)`: a prefix phrase for each of the terms. -/
def narrows (terms : List String) (column : String) : Bool :=
  terms.any fun t =>
    holdsPhrase (tokens T.letterOrDigit t.toList) (tokens T.letterOrDigit column.toList)

/-- The clause of a predicate, as it is evaluated on a row. -/
def predicateClause (predicate : IndexPredicate) (terms : List String) :
    Except String (MarkRow → Bool) :=
  if terms = [] then .error "[uspto-local] a search predicate needs a non-empty term"
  else match predicate with
  | .exact => .ok fun row => row.text ∈ terms
  | .wildcardPrefix => .ok fun row =>
      narrows T terms row.text && terms.any fun t => like (some '\\') (escapeLike t ++ ['%']) row.text
  | .wildcardSuffix => .ok fun row =>
      narrows T (terms.map reverseText) row.rtext &&
        terms.any fun t => like (some '\\') ('%' :: escapeLike t) row.text
  | .default | .wildcardInfix => .ok fun row => terms.any (likeContains · row.text)
  | .owner => .ok fun row => row.owner.any fun o => terms.any (likeContains · o)
  | .other name => .error ("[uspto-local] unsupported predicate \"" ++ name ++ "\".")

def filterClauses (q : IndexQuery) (row : MarkRow) : Bool :=
  let wanted := normalizeClasses q.classes
  (wanted.isEmpty || wanted.any fun c =>
    row.classes.any (like none ('%' :: (',' :: c.toList ++ [',']) ++ ['%']))) &&
  (match q.status with
    | some s => if s ∈ ["live", "dead", "unknown"] then row.statusClass = s else true
    | none => true) &&
  match q.owner with
    | some o => if o = "" then true else row.owner.any (likeContains (T.fold o))
    | none => true

/-- One page of the rows, in the order of the table. -/
def indexSearch (rows : List MarkRow) (q : IndexQuery) (limit offset : Nat) :
    Except String (List MarkRow) :=
  (predicateClause T q.predicate (q.terms T)).map fun holds =>
    ((rows.filter fun row => holds row && filterClauses T q row).drop offset).take limit

def indexCountHits (rows : List MarkRow) (q : IndexQuery) : Except String Nat :=
  (predicateClause T q.predicate (q.terms T)).map fun holds =>
    rows.countP fun row => holds row && filterClauses T q row

end

end Clearotron
