import Clearotron.Library.Groups
import Clearotron.Library.Sorted
import Clearotron.Placement.Index
import Clearotron.Band.Classify

/-!
# The band in the lawyer's order

The records of a band are merged into lines, one for each mark of an owner, and the lines stand in
the groups of the crowded-field method: close marks for the client's goods, close marks, marks of
the family, every other live mark, and the rest. Lines that a goods test placed whose goods could
not be read are listed apart. A floor is a close mark that is live and in the ordered classes: it is
read one by one, so none may stand in the rest.
-/

namespace Clearotron.Shape

/-- What the groups read of a record; its registers are the codes as the provider writes them. -/
structure ShapeRecord where
  recordId : Option String
  markText : Option String
  ownerName : Option String
  status : Option String
  screenStatus : Option String
  screenLiveStatus : Option String
  classes : List String
  jurisdictions : List String
deriving DecidableEq

/-- The words that read dead where they stand alone. -/
def deadWords : List String := ["expired", "invalid", "dead", "removed", "inactive", "ended"]

/-- The beginnings of words that read dead. -/
def deadStems : List String :=
  ["abandon", "cancel", "withdraw", "laps", "refus", "reject", "surrender"]

/-- Does a word of the text begin with the stem? `before` is the character in front of the text. -/
def beginsWord (stem : List Char) : Option Char → List Char → Bool
  | _, [] => false
  | before, c :: rest =>
    (!before.any Text.isWord && stem.isPrefixOf (c :: rest)) || beginsWord stem (some c) rest

/-- `DEAD_STATUS_RE`. -/
def readsDead (status : String) : Bool :=
  let s := status.toList.map Char.toLower
  deadWords.any (fun w => Text.standsAlone w.toList none s) ||
    deadStems.any (fun w => beginsWord w.toList none s)

/-- `niceClassKey`: a number without leading zeros. -/
def niceClassKey (c : String) : String :=
  let t := (Text.trim c).toList
  if t ≠ [] ∧ t.all Char.isDigit then
    let digits := t.dropWhile (· = '0')
    if digits = [] then "0" else String.ofList digits
  else String.ofList t

/-- The goods of a run: the statements the test reads of a record, and what it finds in them. -/
structure Goods where
  of : ShapeRecord → Option (List String)
  hits : List String → Option ℕ
  matched : List String → Option (List String)
  /-- is a body on file that a lookup can open? -/
  held : Option (ShapeRecord → Bool)

/-- What a record's line and its owner are known by. -/
structure LineKeys where
  line : Option String
  owner : Option String

/-- The territories: the code of a territory or register as it is written, which codes are known,
and the offices of the registers that bind one. -/
structure Territories where
  code : String → String
  known : String → Bool
  binding : String → List String

structure BandOptions where
  targets : List String
  inScopeClasses : List String
  goods : Option Goods
  dominantTerm : String
  keysOf : Option (ShapeRecord → LineKeys)
  markets : List String
  territories : List String

inductive BandGroup
  | a
  | b
  | c
  | d
  | rest
deriving DecidableEq

namespace BandGroup

/-- The place of a group in `BAND_GROUPS`. -/
def rank : BandGroup → ℕ
  | a => 0
  | b => 1
  | c => 2
  | d => 3
  | rest => 4

/-- The better of two groups. -/
def best (x y : BandGroup) : BandGroup := if y.rank < x.rank then y else x

theorem rank_best_le_left (x y : BandGroup) : (best x y).rank ≤ x.rank := by
  unfold best
  split <;> omega

theorem rank_best_le_right (x y : BandGroup) : (best x y).rank ≤ y.rank := by
  unfold best
  split <;> omega

end BandGroup

/-- The group of a record by itself. -/
def recordGroup (tier : Tier) (live inScope : Bool) (hits : Option ℕ) (dominant : Bool) :
    BandGroup :=
  let ident := tier.isClose
  let forGoods : Bool := hits ≠ some 0
  if ident && live && inScope && forGoods then .a
  else if ident && inScope then .b
  else if (tier = .sameFamily || dominant) && forGoods then .c
  else if live && inScope && forGoods then .d
  else .rest

/-- `FLOOR_GOODS_SHOWN`. -/
def floorGoodsShown : ℕ := 140

/-- `goodsReadText`. -/
def goodsReadText (g : Option (List String)) : Option String :=
  let text := Text.tidy ("; ".intercalate ((g.getD []).filter fun t => Text.trim t ≠ ""))
  if text = "" then none else some text

/-- The goods text cut short for a line. -/
def cutGoods (t : String) : String :=
  if t.toList.length ≤ floorGoodsShown then t
  else
    let head := t.toList.take floorGoodsShown
    let upToSpace := (head.reverse.dropWhile (· ≠ ' ')).drop 1
    let kept := if floorGoodsShown < 2 * upToSpace.length then upToSpace.reverse else head
    let cut (c : Char) : Bool := Text.isSpace c || c ∈ [',', ';', ':', '.']
    String.ofList (kept.reverse.dropWhile cut).reverse ++ "…"

/-- A record as the groups place it. -/
structure Placed where
  r : ShapeRecord
  tier : Tier
  hits : Option ℕ
  words : Option (List String)
  live : Bool
  inScope : Bool
  group : BandGroup
  outside : Bool
  floor : Bool
  onFile : Bool
  territories : List String
  inMarket : Bool
  read : Option String

/-- A line as it is served. -/
structure LineRow where
  key : String
  ownerKey : String
  ownerName : Option String
  mark : Option String
  group : BandGroup
  records : ℕ
  groupRecords : ℕ
  live : ℕ
  liveInScope : ℕ
  goodsLiveInScope : Bool
  bestTier : Tier
  goodsHits : Option ℕ
  goodsWords : Option (List String)
  inMarket : Bool
  inScope : Bool
  territories : List String
  classes : List String
  recordId : Option String
  floors : ℕ
  floorGoods : Option String
  goodsOnFile : Option Bool
  outside : Bool

/-- The lines of a group, with its counts. -/
structure GroupLines where
  records : ℕ
  setRecords : ℕ
  lines : List LineRow

structure BandOut where
  dominantTerm : Option String
  goodsOnFile : Bool
  markets : List String
  territories : List String
  territoriesUnread : List String
  outsideLines : ℕ
  outsideRecords : ℕ
  byGroup : BandGroup → GroupLines
  noGoods : List LineRow

/-- The rest never holds a floor. -/
def assertRestHoldsNoFloor (restLines : List LineRow) : Except String Unit :=
  match restLines.find? (0 < ·.floors) with
  | some stray => .error ("band shape: the rest holds a floor (" ++ stray.recordId.getD stray.key ++
      "); a floor is listed in (a) or (b), never counted in the rest")
  | none => .ok ()

section

variable (T : MarkText) (W : Territories) (o : BandOptions)

def foldText (s : String) : String := T.lower (T.foldDiacritics s)

/-- Does a word stand in the text with no letter or number beside it? -/
def standsApart (word : List Char) : Option Char → List Char → Bool
  | _, [] => false
  | before, c :: rest =>
    (!before.any T.isLetterOrNumber && word.isPrefixOf (c :: rest) &&
      !((c :: rest).drop word.length).head?.any T.isLetterOrNumber) ||
    standsApart word (some c) rest

/-- `MIN_CONCAT_LEN`. -/
def minConcatLen : ℕ := 4

/-- `dominantElementBasis(…) === "concatenation"`: the element fused into a longer word. -/
def isConcatenation (mark : String) : Bool :=
  let dom := normalizeElement T o.dominantTerm
  let toks := tokensOf T mark
  dom ≠ "" && !toks.contains dom && !toks.any (· ∈ editNeighbourhood T dom) &&
    minConcatLen ≤ dom.length && toks.any (Text.includes · dom)

/-- Does the mark carry the searched dominant word? -/
def carriesDominant (mark : String) : Bool :=
  let dom := Text.trim (foldText T o.dominantTerm)
  (dom ≠ "" && standsApart T dom.toList none (foldText T mark).toList) || isConcatenation T o mark

def isLiveRecord (r : ShapeRecord) : Bool :=
  let ls := T.lower (Text.trim (r.screenLiveStatus.getD ""))
  let status := Text.trim ((r.screenStatus <|> r.status).getD "")
  if ls = "dead" then false
  else if ls = "live" then true
  else status = "" || !readsDead status

def classesOf (r : ShapeRecord) : List String := (r.classes.map niceClassKey).filter (· ≠ "")

/-- Is the record in the ordered classes? Without classes on either side it is. -/
def inScope (r : ShapeRecord) : Bool :=
  let scope := (o.inScopeClasses.map niceClassKey).filter (· ≠ "")
  scope = [] || classesOf r = [] || (classesOf r).any (· ∈ scope)

def tierOf (r : ShapeRecord) : Tier :=
  (classifyRecord T (r.markText.getD "") (prepareTargets T [] o.targets)).tier

/-- A close mark that is live and in the ordered classes. -/
def isFloor (r : ShapeRecord) : Bool := (tierOf T o r).isClose && isLiveRecord T r && inScope o r

def benelux : List String := ["BX", "NL", "BE", "LU"]

/-- Every register that binds any of these territories. -/
def bindingOffices (ts : List String) : List String :=
  let own := ts.flatMap fun t => t :: (W.binding t).map W.code
  let madrid := if "WO" ∈ own then own ++ ["IB"] else own
  if benelux.any (· ∈ madrid) then madrid ++ benelux ++ ["EU", "WO", "IB"] else madrid

/-- The codes of territories as they were given, each once. -/
def codesOf (ts : List String) : List String := ((ts.map W.code).filter (· ≠ "")).eraseDups

def unreadTerritories : List String := (codesOf W o.territories).filter (!W.known ·)

/-- The registers the order's list holds: all of them where a territory could not be read. -/
def offices : List String :=
  if unreadTerritories W o ≠ [] then [] else bindingOffices W (codesOf W o.territories)

def territoriesOf (r : ShapeRecord) : List String :=
  (r.jurisdictions.map W.code).filter fun t =>
    2 ≤ t.length && t.length ≤ 5 && t.toList.all Char.isUpper

def isOutside (r : ShapeRecord) : Bool :=
  !(offices W o = [] || territoriesOf W r = [] || (territoriesOf W r).any (· ∈ offices W o))

def place (r : ShapeRecord) : Placed :=
  let mark := r.markText.getD ""
  let tier := tierOf T o r
  let g := o.goods.bind (·.of r)
  let hits := o.goods.bind fun goods => g.bind goods.hits
  let live := isLiveRecord T r
  let s := inScope o r
  let floor := isFloor T o r
  { r := r
    tier := tier
    hits := hits
    words := o.goods.bind fun goods => g.bind goods.matched
    live := live
    inScope := s
    group :=
      -- a floor held only outside the order's territories is still listed
      if isOutside W o r && !floor then .rest
      else recordGroup tier live s hits (carriesDominant T o mark)
    outside := isOutside W o r
    floor := floor
    onFile :=
      match o.goods.bind (·.held) with
      | some held => held r
      | none => g.isSome
    territories := territoriesOf W r
    inMarket := (territoriesOf W r).any (· ∈ bindingOffices W (codesOf W o.markets))
    read := if floor then goodsReadText g else none }

/-- The set-aside key's fold of an owner. -/
def normKey (s : Option String) : String :=
  Text.collapseSpaces (T.lower (String.ofList
    (Placement.dropParenthetical (Text.trim (s.getD "")).toList)))

def idKey (r : ShapeRecord) : String := T.lower (Text.trim (r.recordId.getD ""))

def ownerKey (r : ShapeRecord) : String :=
  ((o.keysOf.map fun keysOf => keysOf r).bind (·.owner)).getD
    (if normKey T r.ownerName ≠ "" then "owner:" ++ normKey T r.ownerName
      else "record:" ++ idKey T r)

/-- The line of a record. -/
def lineKey (r : ShapeRecord) : String :=
  let mark := normalizeElement T (r.markText.getD "")
  ((o.keysOf.map fun keysOf => keysOf r).bind (·.line)).getD
    ("line:" ++ ownerKey T o r ++ "|" ++ if mark ≠ "" then mark else idKey T r)

/-- What is absent stands below nought. -/
def orBelow (n : Option ℕ) : ℕ := n.elim 0 (· + 1)

/-- The order of the records of a line, the one that shows it first. -/
def betterLe : Placed → Placed → Bool :=
  thenBy (fun x y => x.tier.rank ≤ y.tier.rank) <|
  thenBy (fun x y => orBelow y.hits ≤ orBelow x.hits) <|
  thenBy (fun x y => !y.live || x.live) fun x y =>
    T.localeLe (x.r.recordId.getD "") (y.r.recordId.getD "")

/-- Class numbers by value, others by their text. -/
def classLe (p q : String) : Bool :=
  match p.toNat?, q.toNat? with
  | some m, some n => if m = n then T.localeLe p q else m < n
  | _, _ => T.localeLe p q

/-- The group of a line: the best its records reach. -/
def lineGroup (line : Group ShapeRecord) : BandGroup :=
  (line.later.map fun r => (place T W o r).group).foldl BandGroup.best
    (place T W o line.first).group

def lineRow (key : String) (line : Group ShapeRecord) : LineRow :=
  let recs := line.members.map (place T W o)
  let group := lineGroup T W o line
  let inGroup := (recs.filter (·.group = group)).insertionSort fun x y => betterLe T x y
  let best := inGroup.head?.getD (place T W o line.first)
  let known := inGroup.any (·.words.isSome)
  let words := (recs.flatMap (·.words.getD [])).eraseDups
  let liveInScope := recs.filter fun x => x.live && x.inScope && !x.outside
  let shown := if known then best else (inGroup.find? (·.onFile)).getD best
  let named (s : Option String) : Option String := some (Text.trim (s.getD "")) |>.filter (· ≠ "")
  { key := key
    ownerKey := ownerKey T o line.first
    ownerName := named line.first.ownerName
    mark := named best.r.markText
    group := group
    records := recs.length
    groupRecords := inGroup.length
    live := recs.countP (·.live)
    liveInScope := liveInScope.length
    goodsLiveInScope := liveInScope.any fun x => 0 < x.hits.getD 0
    bestTier := best.tier
    goodsHits := if known then some words.length else none
    goodsWords := if known then some words else none
    inMarket := recs.any (·.inMarket)
    inScope := recs.any (·.inScope)
    territories := ((recs.flatMap (·.territories)).eraseDups).insertionSort fun a b =>
      Text.utf16 a ≤ Text.utf16 b
    classes :=
      ((recs.flatMap fun x => classesOf x.r).eraseDups).insertionSort fun p q => classLe T p q
    recordId := shown.r.recordId
    floors := recs.countP (·.floor)
    floorGoods :=
      if group = .b ∧ known then
        ((recs.find? fun x => x.floor && x.read.isSome).bind (·.read)).map cutGoods
      else none
    goodsOnFile := if known then none else some (inGroup.any (·.onFile))
    outside := offices W o ≠ [] && recs.all (·.outside) }

namespace LineRow

variable (l : LineRow)

/-- Was the line placed by a goods test whose goods could not be read? -/
def apart : Bool := l.goodsWords.isNone && (l.group = .a || l.group = .c || l.group = .d)

end LineRow

def byName : LineRow → LineRow → Bool :=
  thenBy (fun x y => T.localeLe (x.ownerName.getD x.ownerKey) (y.ownerName.getD y.ownerKey)) <|
  thenBy (fun x y => T.localeLe (x.mark.getD "") (y.mark.getD "")) fun x y => T.localeLe x.key y.key

/-- The ruled order of a group. -/
def herOrder : LineRow → LineRow → Bool :=
  thenBy (fun x y => !y.goodsLiveInScope || x.goodsLiveInScope) <|
  thenBy (fun x y => y.liveInScope ≤ x.liveInScope) <|
  thenBy (fun x y => orBelow y.goodsHits ≤ orBelow x.goodsHits) <|
  thenBy (fun x y => !y.inMarket || x.inMarket) <|
  thenBy (fun x y => y.records ≤ x.records) (byName T)

def restOrder : LineRow → LineRow → Bool :=
  thenBy (fun x y => orBelow y.goodsHits ≤ orBelow x.goodsHits) <|
  thenBy (fun x y => y.liveInScope ≤ x.liveInScope) (byName T)

def noGoodsOrder : LineRow → LineRow → Bool :=
  thenBy (fun x y => !(0 < y.floors) || (0 < x.floors)) <|
  thenBy (fun x y => y.liveInScope ≤ x.liveInScope) <|
  thenBy (fun x y => y.records ≤ x.records) (byName T)

def groupOrder (g : BandGroup) : LineRow → LineRow → Bool :=
  if g = .rest then restOrder T else herOrder T

/-- The lines of a band, as they come. -/
def bandLines (records : List ShapeRecord) : List LineRow :=
  (groupsBy (lineKey T o) records).entries.map fun e => lineRow T W o e.1 e.2

/-- The lines listed in a group. -/
def listed (rows : List LineRow) (g : BandGroup) : List LineRow :=
  rows.filter fun l => !l.apart && l.group = g

def groupLines (rows : List LineRow) (g : BandGroup) : GroupLines :=
  let ls := listed rows g
  ⟨(ls.map (·.groupRecords)).sum, (ls.map (·.records)).sum,
    ls.insertionSort fun x y => groupOrder T g x y⟩

def bandGroups (records : List ShapeRecord) : Except String BandOut := do
  let rows := bandLines T W o records
  let outside := (listed rows .rest).filter (·.outside)
  assertRestHoldsNoFloor (listed rows .rest)
  return {
    dominantTerm := some o.dominantTerm |>.filter (· ≠ "")
    goodsOnFile := o.goods.isSome
    markets := codesOf W o.markets
    territories := codesOf W o.territories
    territoriesUnread := unreadTerritories W o
    outsideLines := outside.length
    outsideRecords := (outside.map (·.records)).sum
    byGroup := groupLines T rows
    noGoods := (rows.filter (·.apart)).insertionSort fun x y => noGoodsOrder T x y }

end

end Clearotron.Shape
