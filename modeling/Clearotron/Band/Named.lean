import Clearotron.Library.Each
import Clearotron.Library.Json
import Clearotron.Register.Text

/-!
# The named band

A band document is a list of blocks: a slice that was enumerated with its records, or one that
was not, described. Reading it gives the records, each with where it came from, and the
descriptors of the rest.
-/

namespace Clearotron

namespace Band

/-- What `Number(s)` makes of a text. -/
inductive Numeral where
  | nan
  | infinite
  | finite (q : Rat)
  deriving DecidableEq

/-- What the code takes from the runtime of texts and numbers. -/
structure Runtime where
  /-- `JSON.parse`, none where it throws -/
  parse : String → Option Json
  numberText : Rat → String
  /-- `Number(s)` -/
  number : String → Numeral
  /-- `toLowerCase` -/
  lower : String → String
  lower_lowercase : ∀ s : String, s.toList.all (fun c => 97 ≤ c.toNat && c.toNat ≤ 122) = true →
    lower s = s

/-- A runtime for documents whose numbers are no texts. -/
def plainRuntime : Runtime where
  parse _ := none
  numberText _ := ""
  number _ := .nan
  lower s := s
  lower_lowercase _ _ := rfl

section

variable (R : Runtime)

/-- `String(v ?? "")`. -/
def textOf : Option Json → String
  | none | some .null => ""
  | some v => v.text R.numberText

def truthy : Option Json → Bool
  | none | some .null => false
  | some (.bool b) => b
  | some (.num q) => q ≠ 0
  | some (.str s) => s ≠ ""
  | some _ => true

/-- `Number(v)`. -/
def numberOf : Option Json → Numeral
  | none => .nan
  | some .null => .finite 0
  | some (.bool b) => .finite (if b then 1 else 0)
  | some (.num q) => .finite q
  | some (.str s) => R.number s
  | some (.arr items) => R.number ((Json.arr items).text R.numberText)
  | some (.obj _) => .nan

/-- `Number(v) || 0`, as it is written out: a number that is not finite is written as null. -/
def numberOrZero (v : Option Json) : Json :=
  match numberOf R v with
  | .nan => .num 0
  | .infinite => .null
  | .finite q => .num q

/-- A number, or a text that is one; everything else is unknown. -/
def countOrNull : Option Json → Option Rat
  | some (.num q) => some q
  | some (.str s) =>
    if Text.trim s = "" then none
    else match R.number s with
      | .finite q => some q
      | _ => none
  | _ => none

end

abbrev Block := Keyed String Json

/-- A member of a document, where it is an object. -/
def asBlock (v : Json) : Option Block := v.asObject

def bandStates : List String := ["enumerated", "incomplete"]

section

variable (R : Runtime)

def Block.state (b : Block) : String := R.lower (Text.trim (textOf R (b.get "state")))

def Block.query (b : Block) : String := Text.trim (textOf R (b.get "query"))

def Block.hasQid (b : Block) : Bool := truthy (b.get "qid")

/-- The list a field holds. -/
def Block.list? (b : Block) (k : String) : Option (List Json) :=
  match b.get k with
  | some (.arr items) => some items
  | _ => none

inductive BandError where
  | unparseable
  | blockInvalid
  | stateInvalid (state : String)
  deriving DecidableEq

/-- The blocks of a document: a list, or the list an object holds as `blocks`. -/
def blocksOf (raw : Json) : Except BandError (List Json) :=
  let parsed := match raw with
    | .str s => R.parse s
    | v => some v
  match parsed with
  | some (.arr blocks) => .ok blocks
  | some v =>
    match v.asObject.bind (·.get "blocks") with
    | some (.arr blocks) => .ok blocks
    | _ => .error .unparseable
  | none => .error .unparseable

/-- A record of the band. -/
structure BandRecord where
  /-- its own fields, as the block had them -/
  fields : Keyed String Json
  query : String
  /-- `_qid`: the qid of the block, or what the record itself states where the block has none -/
  qid : Option String
  /-- the qid of the block, kept to speak of -/
  block : Option String

structure Crowd where
  query : String
  totalHits : Option Rat
  fetched : Json
  sample : List Json
  reason : String
  qid : Option String
  termCounts : Option Json
  classCounts : Option Json
  coveredBy : Option (List Json)
  totalCounts : Option String
  totalFloor : Option Rat
  error : Bool
  deferred : Bool

structure NamedBand where
  enumerated : List BandRecord := []
  crowds : List Crowd := []

/-- The qid a block is stamped with. -/
def Block.qid? (b : Block) : Option String :=
  if b.hasQid then some (textOf R (b.get "qid")) else none

/-- The members of a block's list that are objects. -/
def Block.records (b : Block) : List (Keyed String Json) :=
  ((b.list? "records").getD []).filterMap Json.asObject

/-- What a record itself states as its `_qid`. -/
def ownQid (r : Keyed String Json) : Option String :=
  if truthy (r.get "_qid") then some (textOf R (r.get "_qid")) else none

/-- `{ ...r, ...prov }`. -/
def Block.record (b : Block) (r : Keyed String Json) : BandRecord :=
  { fields := r, query := b.query R, qid := (b.qid? R).or (ownQid R r), block := b.qid? R }

def plain? (v : Option Json) : Option Json := v.filter Json.isPlainObject

def Block.crowd (b : Block) : Crowd where
  query := b.query R
  totalHits := countOrNull R (b.get "total_hits")
  fetched := numberOrZero R (b.get "fetched")
  sample := (b.list? "sample").getD []
  reason := Text.slice 400 (textOf R (b.get "reason"))
  qid := match b.get "qid" with
    | some (.str s) => if s = "" then none else some s
    | _ => none
  termCounts := plain? (b.get "term_counts")
  classCounts := plain? (b.get "class_counts")
  coveredBy := (b.list? "covered_by").filter (· ≠ [])
  totalCounts := match b.get "total_counts" with
    | some (.str s) => some s
    | _ => none
  totalFloor := (b.get "total_floor").bind Json.number?
  error := b.get "error" matches some (.bool true)
  deferred := b.get "deferred" matches some (.bool true)

/-- One block read. -/
def readBlock (band : NamedBand) (v : Json) : Except BandError NamedBand :=
  match asBlock v with
  | none => .error .blockInvalid
  | some b =>
    if b.state R ∈ bandStates then
      let enumerated := band.enumerated ++ b.records.map (b.record R)
      if b.state R = "enumerated" then .ok { band with enumerated }
      else .ok { enumerated, crowds := band.crowds ++ [b.crowd R] }
    else .error (.stateInvalid (Text.slice 30 (textOf R (b.get "state"))))

def parseNamedBand (raw : Json) : Except BandError NamedBand :=
  (blocksOf R raw).bind (·.foldlM (readBlock R) {})

/-- A block of a state nobody knows. -/
def Block.isUnknown (b : Block) : Bool := b.state R ∉ bandStates

end

def stateOf (R : Runtime) (v : Json) : Option String := (asBlock v).map (Block.state R)

/-- The count a block is read with. -/
def totalOf (R : Runtime) (v : Json) : Option Rat :=
  countOrNull R ((asBlock v).bind (·.get "total_hits"))

section

variable {R : Runtime} {blocks : List Json}

theorem readBlock_ok {v : Json} {band band' : NamedBand} (ok : readBlock R band v = .ok band') :
    ∃ b, asBlock v = some b ∧ b.isUnknown R = false ∧
      band'.enumerated = band.enumerated ++ b.records.map (b.record R) ∧
      band'.crowds = band.crowds ++
        if stateOf R v = some "incomplete" then [b.crowd R] else [] := by
  unfold readBlock at ok
  cases is : asBlock v with
  | none => simp [is] at ok
  | some b =>
    simp only [is] at ok
    split at ok
    · rename_i known
      have known' : b.isUnknown R = false := by simpa [Block.isUnknown] using known
      refine ⟨b, rfl, known', ?_⟩
      split at ok
      · rename_i state
        obtain rfl := Except.ok.inj ok
        simp [stateOf, is, state]
      · rename_i state
        obtain rfl := Except.ok.inj ok
        have other : b.state R = "incomplete" := by simpa [bandStates, state] using known
        simp [stateOf, is, other]
    · cases ok

/-- A band that is read has no block of a state nobody knows. -/
theorem foldlM_readBlock {band band' : NamedBand}
    (ok : blocks.foldlM (readBlock R) band = .ok band') :
    (∀ v ∈ blocks, ∃ b, asBlock v = some b ∧ b.isUnknown R = false) ∧
      band'.enumerated = band.enumerated ++
        (blocks.filterMap asBlock).flatMap (fun b => (Block.records b).map (Block.record R b)) ∧
      band'.crowds = band.crowds ++
        ((blocks.filter (stateOf R · = some "incomplete")).filterMap asBlock).map
          (Block.crowd R) := by
  induction blocks generalizing band with
  | nil =>
    obtain rfl := Except.ok.inj ok
    simp
  | cons v blocks ih =>
    rw [List.foldlM_cons] at ok
    cases first : readBlock R band v with
    | error e => simp [first, bind, Except.bind] at ok
    | ok mid =>
      rw [first] at ok
      change blocks.foldlM (readBlock R) mid = .ok band' at ok
      obtain ⟨b, is, known, records, crowds⟩ := readBlock_ok first
      obtain ⟨all, records', crowds'⟩ := ih ok
      refine ⟨List.forall_mem_cons.mpr ⟨⟨b, is, known⟩, all⟩, ?_, ?_⟩
      · rw [records', records]
        simp [is]
      · rw [crowds', crowds]
        by_cases state : stateOf R v = some "incomplete" <;> simp [state, is]

theorem crowd_totals {band : NamedBand} (ok : parseNamedBand R (.arr blocks) = .ok band) :
    band.crowds.map Crowd.totalHits =
      (blocks.filter (stateOf R · = some "incomplete")).map (totalOf R) := by
  have crowds := (foldlM_readBlock (ok : blocks.foldlM (readBlock R) {} = .ok band)).2.2
  rw [crowds, List.nil_append, List.map_map]
  clear ok crowds
  induction blocks with
  | nil => rfl
  | cons v blocks ih =>
    by_cases state : stateOf R v = some "incomplete"
    · obtain ⟨b, is, -⟩ := Option.map_eq_some_iff.mp state
      rw [List.filter_cons_of_pos (by simpa using state), List.filterMap_cons, is]
      simpa [totalOf, is, Block.crowd] using ih
    · rwa [List.filter_cons_of_neg (by simpa using state)]

/-- A record of a block that is stamped carries the block's qid. -/
theorem qid_of_block {doc : Json} {band : NamedBand} (ok : parseNamedBand R doc = .ok band) :
    ∀ r ∈ band.enumerated, ∀ qid, r.block = some qid → r.qid = some qid := by
  rw [parseNamedBand] at ok
  cases are : blocksOf R doc with
  | error e => simp [are, Except.bind] at ok
  | ok blocks =>
    rw [are] at ok
    rw [(foldlM_readBlock (ok : blocks.foldlM (readBlock R) {} = .ok band)).2.1]
    intro r mem qid stamped
    obtain ⟨b, -, mem⟩ := List.mem_flatMap.mp mem
    obtain ⟨fields, -, rfl⟩ := List.mem_map.mp mem
    have stamp : b.qid? R = some qid := stamped
    simp [Block.record, stamp]

end

end Band

end Clearotron
