import Mathlib.Data.Finset.Card
import Clearotron.Library.Walk
import Clearotron.Library.Tokens
import Clearotron.Register.Text

/-!
# Register positions

The records of a band are folded into positions: along the numbers that bind one
registration to another, as long as the position has one owner, and then where mark and
owner are the same. What the runtime knows of letters is a parameter.
-/

namespace Clearotron

structure OwnerText where
  /-- diacritics folded, and lower case -/
  foldLower : String → String
  lower : String → String
  letterOrDigit : Char → Bool

/-- `OWNER_FORMS`. -/
def ownerForms : List (String × String) :=
  [("incorporated", "inc"), ("inc", "inc"), ("corporation", "corp"), ("corp", "corp"),
   ("company", "co"), ("co", "co"), ("limited", "ltd"), ("ltd", "ltd"), ("llc", "llc"),
   ("llp", "llp"), ("plc", "plc"), ("gmbh", "gmbh"), ("ag", "ag"), ("sa", "sa"), ("srl", "srl"),
   ("sro", "sro"), ("bv", "bv"), ("nv", "nv"), ("oy", "oy"), ("ab", "ab"), ("as", "as"),
   ("aps", "aps"), ("kk", "kk"), ("sarl", "sarl"), ("spa", "spa"), ("pty", "pty"),
   ("group", "group"), ("holding", "holdings"), ("holdings", "holdings")]

/-- The words of the core, which the code joins with blanks, and the legal forms. -/
structure OwnerIdentity where
  core : List String
  forms : Finset String
  deriving DecidableEq

/-- Equal cores, and one side's forms among the other's. -/
def OwnerIdentity.identical (x y : OwnerIdentity) : Bool :=
  x.core ≠ [] && y.core ≠ [] && x.core = y.core &&
    if x.forms.card ≤ y.forms.card then x.forms ⊆ y.forms else y.forms ⊆ x.forms

section

variable (T : OwnerText)

def ownerIdentity (s : String) : OwnerIdentity :=
  let words := (tokens T.letterOrDigit (T.foldLower s).toList).map String.ofList
  { core := words.filter fun w => (ownerForms.lookup w).isNone
    forms := (words.filterMap fun w => ownerForms.lookup w).toFinset }

def ownerIdentical (a b : String) : Bool := (ownerIdentity T a).identical (ownerIdentity T b)

/-- The key of the mark and owner edge: no key for an owner without a core. -/
def ownerKey (s : String) : Option OwnerIdentity :=
  if (ownerIdentity T s).core = [] then none else some (ownerIdentity T s)

/-- The owners of two components, one for each identity. -/
def keepOwners (kept more : List String) : List String :=
  more.foldl (fun keep o => if keep.any fun k => ownerIdentical T k o then keep else keep ++ [o]) kept

/-- `normalizeElement`. -/
def normMark (s : String) : String :=
  String.ofList ((T.foldLower s).toList.filter fun c => c.isLower || c.isDigit)

end

structure BandRecord where
  recordId : String
  markText : String := ""
  ownerName : String := ""
  deriving DecidableEq, Repr

/-- What a record's body says of its numbers. -/
structure RecordDetail where
  registrationNumber : String := ""
  applicationNumber : String := ""
  basicRegistrationNumbers : List String := []
  deriving DecidableEq, Repr

def numKey (n : String) : String := Text.trim n

/-- The eight digits of a number `UK009…`. -/
def uk009 (n : String) : Option String :=
  let digits := n.toList.drop 5
  if (n.toList.take 5).map Char.toUpper = "UK009".toList ∧ digits.length = 8 ∧
      digits.all Char.isDigit then some (String.ofList digits)
  else none

/-- A number that binds two records. -/
structure NumberEdge where
  base : Nat
  clone : Nat
  kind : String
  detail : String
  deriving DecidableEq, Repr

structure Bridge where
  kind : String
  base : String
  clone : String
  detail : String
  deriving DecidableEq, Repr

structure CrossReference where
  bridge : Bridge
  ownerDivergence : String × String
  deriving DecidableEq, Repr

/-- The records, by their place. -/
def recAt (recs : List BandRecord) (i : Nat) : BandRecord := recs.getD i { recordId := "" }

/-- The components so far. -/
structure Grouping where
  root : Nat → Nat := id
  /-- one owner for each identity of a component -/
  ownersOf : Nat → List String
  bridges : List Bridge := []
  crossRefs : List CrossReference := []

section

variable (T : OwnerText) (recs : List BandRecord) (detailByUri : String → RecordDetail)

def detailAt (i : Nat) : RecordDetail := detailByUri (T.lower (recAt recs i).recordId)

def markAt (i : Nat) : String := normMark T (recAt recs i).markText

def ownerAt (i : Nat) : String := (recAt recs i).ownerName

/-- The owner a component starts with: one that has a core. -/
def startOwners (i : Nat) : List String :=
  if (ownerKey T (ownerAt recs i)).isSome then [ownerAt recs i] else []

namespace Grouping

variable (g : Grouping)

def merged (a b : Nat) : Grouping :=
  if g.root a = g.root b then g
  else
    { g with
      root := joinRoots g.root a b
      ownersOf := Function.update (Function.update g.ownersOf (g.root a)
        (keepOwners T (g.ownersOf (g.root a)) (g.ownersOf (g.root b)))) (g.root b) [] }

/-- The bridge of an edge. -/
def bridgeOf (e : NumberEdge) : Bridge where
  kind := e.kind
  base := (recAt recs e.base).recordId
  clone := (recAt recs e.clone).recordId
  detail := e.detail

/-- Would the two components hold different owners together? -/
def spansDistinctOwners (a b : Nat) : Bool :=
  let all := g.ownersOf (g.root a) ++ g.ownersOf (g.root b)
  all.any fun x => all.any fun y => !ownerIdentical T x y

/-- The owner a side stands for: its own, or its component's first. -/
def bridgeOwner (i : Nat) : String :=
  if (ownerKey T (ownerAt recs i)).isSome then ownerAt recs i
  else ((g.ownersOf (g.root i)).head?).getD (ownerAt recs i)

/-- One cross-reference for a kind and a pair of records, in either order. -/
def crossRef (e : NumberEdge) : Grouping :=
  let b := bridgeOf recs e
  if g.crossRefs.any fun c => c.bridge.kind = b.kind &&
      ((c.bridge.base = b.base && c.bridge.clone = b.clone) ||
        (c.bridge.base = b.clone && c.bridge.clone = b.base)) then g
  else
    { g with crossRefs := g.crossRefs ++
        [{ bridge := b, ownerDivergence := (g.bridgeOwner T recs e.base, g.bridgeOwner T recs e.clone) }] }

/-- A number edge between two components. -/
def numberEdge (e : NumberEdge) : Grouping :=
  if g.root e.base = g.root e.clone then g
  else if g.spansDistinctOwners T e.base e.clone then g.crossRef T recs e
  else { g.merged T e.base e.clone with bridges := g.bridges ++ [bridgeOf recs e] }

end Grouping

/-- The first record of the mark with the number. -/
def byRegNum (mark number : String) : Option Nat :=
  if mark = "" ∨ number = "" then none
  else (List.range recs.length).find? fun i =>
    markAt T recs i = mark &&
      (numKey (detailAt T recs detailByUri i).registrationNumber = number ||
        numKey (detailAt T recs detailByUri i).applicationNumber = number)

def cloneDetail (digits : String) : String := "UK009" ++ digits ++ " = EM " ++ digits

def irDetail (i : Nat) (base : String) : String :=
  let own := numKey (detailAt T recs detailByUri i).registrationNumber
  "IR " ++ (if own = "" then (recAt recs i).recordId else own) ++ " basic registration " ++ base

/-- The number edges of a record: as a clone, and as an international registration. -/
def numberEdgesAt (i : Nat) : List NumberEdge :=
  let d := detailAt T recs detailByUri i
  let mark := markAt T recs i
  let clones := [d.registrationNumber, d.applicationNumber].filterMap fun n =>
    (uk009 (numKey n)).bind fun digits =>
      (byRegNum T recs detailByUri mark digits).map fun j =>
        { base := j, clone := i, kind := "uk009-clone", detail := cloneDetail digits }
  let irs := d.basicRegistrationNumbers.filterMap fun base =>
    (byRegNum T recs detailByUri mark (numKey base)).map fun j =>
      { base := j, clone := i, kind := "ir-base"
        detail := irDetail T recs detailByUri i (numKey base) }
  clones ++ irs

def numberEdges : List NumberEdge :=
  (List.range recs.length).flatMap (numberEdgesAt T recs detailByUri)

/-- The bucket of a record: its mark and its owner, where it has both. -/
def bucketAt (i : Nat) : Option (String × OwnerIdentity) :=
  if markAt T recs i = "" then none
  else (ownerKey T (ownerAt recs i)).map fun k => (markAt T recs i, k)

/-- `byMarkOwner`: the buckets, in the order of their first records. -/
def buckets : List (String × OwnerIdentity) :=
  ((List.range recs.length).filterMap (bucketAt T recs)).eraseDups

def firstOf (key : String × OwnerIdentity) : Nat :=
  ((List.range recs.length).find? fun i => bucketAt T recs i = some key).getD 0

/-- Records of one bucket, and an owner without a form with the one bucket of its core that has
one. -/
def markOwnerEdges : List (Nat × Nat) :=
  ((List.range recs.length).filterMap fun i =>
    (bucketAt T recs i).map fun key => (firstOf T recs key, i)) ++
  (buckets T recs).filterMap fun key =>
    if key.2.forms = ∅ then
      match (buckets T recs).filter fun k => k ≠ key ∧ k.1 = key.1 ∧ k.2.core = key.2.core with
      | [peer] => some (firstOf T recs peer, firstOf T recs key)
      | _ => none
    else none

/-- The components of the records, after all edges. -/
def groupRecords : Grouping :=
  let numbered := (numberEdges T recs detailByUri).foldl (fun g e => g.numberEdge T recs e)
    { ownersOf := startOwners T recs }
  (markOwnerEdges T recs).foldl (fun g e => g.merged T e.1 e.2) numbered

structure RegisterPosition where
  records : List BandRecord
  bridges : List Bridge
  crossReferences : List CrossReference
  deriving Repr

structure DerivedPositions where
  positions : List RegisterPosition
  crossReferences : List CrossReference
  deriving Repr

/-- The positions, in the order of their first records. -/
def positionsOf (g : Grouping) : List RegisterPosition :=
  (((List.range recs.length).map g.root).eraseDups).map fun r =>
    let records := ((List.range recs.length).filter fun i => g.root i = r).map (recAt recs)
    let touches (b : Bridge) := records.any fun x => x.recordId = b.base || x.recordId = b.clone
    { records
      bridges := g.bridges.filter touches
      crossReferences := g.crossRefs.filter fun c => touches c.bridge }

end

def deriveRegisterPositions (T : OwnerText) (records : List BandRecord)
    (detailByUri : String → RecordDetail) : DerivedPositions :=
  let recs := records.filter fun r => r.recordId ≠ ""
  let g := groupRecords T recs detailByUri
  { positions := positionsOf recs g, crossReferences := g.crossRefs }

end Clearotron
