import Clearotron.Executor.FollowUps
import Clearotron.Library.Each
import Clearotron.Library.Walk
import Clearotron.Plan.Products

/-!
# What was retrieved under a crowd

A crowd is a question that counted more than it read. A narrowing asks the same question within
tighter limits, and the lists that were retrieved in full through narrowings, at any depth, are
what a crowd has. The crowd of the identical mark is read where they cover every class it asks, in
every main market, and a list covers no market that it did not ask.
-/

namespace Clearotron.Crowds

/-- A question of a plan, with the one it narrows. -/
structure PlanQuestion extends Entry where
  narrows : Option String := none

structure NarrowedPlan where
  regions : List String := []
  entries : List PlanQuestion

/-- A block of a band, of what the crowds' record reads. -/
structure BandBlock where
  qid : String
  state : Option String := none
  error : Bool := false
  totalHits : Option Int := none
  officesWithoutGoodsField : List String := []

/-- `blocksByQidOf`: the last block of a question stands. -/
def blocksByQidOf (blocks : List BandBlock) (qid : String) : Option BandBlock :=
  (blocks.filter fun b => b.qid = qid ∧ b.qid ≠ "").getLast?

/-- `normalize`, `toLowerCase` and `toUpperCase`, and the territories of the runtime. -/
structure CrowdText where
  locale : Locale
  forms : TermForms

namespace CrowdText

variable (T : CrowdText)

def strs (v : List String) : List String := (v.map Text.trim).filter (· ≠ "")

/-- Territories by the key that makes two spellings one place. -/
def marketsOf (v : List String) : List String :=
  ((strs v).map fun t =>
    if T.locale.territoryKey t = "" then T.locale.upper t else T.locale.territoryKey t).eraseDups

def fold (s : String) : String := normTerm T.forms (some s)

end CrowdText

section

variable (T : CrowdText) (plan : NarrowedPlan)

def NarrowedPlan.toPlan : Plan :=
  { regions := plan.regions, entries := plan.entries.map (·.toEntry) }

/-- A question's own markets, the plan's where it names none. -/
def regionsOf (e : PlanQuestion) : List String :=
  if CrowdText.strs e.regions = [] then T.marketsOf plan.regions else T.marketsOf e.regions

def classesOf (e : PlanQuestion) : List String := (CrowdText.strs e.niceClasses).eraseDups

def termsOf (e : PlanQuestion) : List String :=
  let stated := if e.terms.getD [] = [] then [e.term.getD ""] else e.terms.getD []
  sortedSet ((stated.map T.fold).filter (· ≠ ""))

def goodsOf (e : PlanQuestion) : List String :=
  ((e.goodsTermsList.map T.fold).filter (· ≠ "")).eraseDups

/-- The client's goods words, as the plan's own goods questions carry them. -/
def clientGoods : List String :=
  ((plan.entries.filter fun e => e.provenance = some .mark).flatMap (goodsOf T)).eraseDups

/-- An empty list asks everything: all is within it, and it is within no other. -/
def isWithin (inner outer : List String) : Bool :=
  outer = [] || (inner ≠ [] && inner.all (· ∈ outer))

def narrows (parent child : PlanQuestion) : Bool :=
  if child.predicate.text ≠ parent.predicate.text ∨ termsOf T child ≠ termsOf T parent then false
  else if !isWithin (classesOf child) (classesOf parent) ||
      !isWithin (regionsOf T plan child) (regionsOf T plan parent) then false
  else if Text.trim (parent.owner.getD "") ≠ Text.trim (child.owner.getD "") then false
  else if goodsOf T parent ≠ [] then
    goodsOf T child ≠ [] && (goodsOf T child).all (· ∈ goodsOf T parent)
  else goodsOf T child = [] || clientGoods T plan = [] ||
    (goodsOf T child).all (· ∈ clientGoods T plan)

/-- `childrenOf`: the questions that say they narrow this one. -/
def childrenOf (parent : PlanQuestion) : List PlanQuestion :=
  plan.entries.filter fun c =>
    Text.trim (c.narrows.getD "") ≠ "" ∧ Text.trim (c.narrows.getD "") = parent.qid ∧ c.qid ≠ ""

/-- The narrowings below a question, each with the question it narrows. -/
def narrowingsBelow (fuel : ℕ) (e : PlanQuestion) : Option (List (PlanQuestion × PlanQuestion)) :=
  (Walk.walk (fun c => c.qid) (narrows T plan) (childrenOf plan) fuel e [e.qid]).map Prod.fst

def asksIdentical (e : PlanQuestion) : Bool :=
  asksIdenticalMark T.forms e.toEntry (identicalMarkTerms T.forms plan.toPlan)

/-- The markets a narrowing used, where it asks fewer than the question it narrows. -/
def marketsUsed (x : PlanQuestion × PlanQuestion) : List String :=
  let pr := regionsOf T plan x.1
  let cr := regionsOf T plan x.2
  if cr ≠ [] ∧ (pr = [] ∨ cr.length < pr.length) then cr else []

def marketStepMarkets (fuel : ℕ) : Option (List String) := do
  let walks ← (plan.entries.filter fun e => e.qid ≠ "" && asksIdentical T plan e).mapM
    (narrowingsBelow T plan fuel)
  some (walks.flatten.flatMap (marketsUsed T plan)).eraseDups

end

inductive Narrowing where
  | listRetrieved
  | noList
  | requiredCovered
  | requiredNotCovered
  deriving DecidableEq, Repr

structure NarrowingRow where
  qid : String
  axis : Axis
  totalHits : Option Int
  narrowing : Narrowing
  lists : List String
  notCovered : List String := []

structure CrowdNarrowing where
  listRetrieved : ℕ
  noList : ℕ
  requiredCovered : ℕ
  requiredNotCovered : ℕ
  rows : List NarrowingRow

section

variable (T : CrowdText) (plan : NarrowedPlan) (byQid : String → Option BandBlock)

/-- The state of a question's block, none where there is none or it is an error. -/
def stateOf (qid : String) : Option String :=
  match byQid qid with
  | none => none
  | some b => if b.error then none else some (T.forms.toLowerCase (b.state.getD ""))

/-- The lists retrieved in full through narrowings, at any depth. -/
def retrievedUnder (fuel : ℕ) (e : PlanQuestion) : Option (List PlanQuestion) :=
  (narrowingsBelow T plan fuel e).map fun found =>
    (found.map Prod.snd).filter fun c => stateOf T byQid c.qid = some "enumerated"

/-- The offices that a list's answer left out. -/
def leftOutOf (d : PlanQuestion) : List String :=
  T.marketsOf ((byQid d.qid).map BandBlock.officesWithoutGoodsField |>.getD [])

/-- A class of a cell, none where the question asks none; a market of one, none for the world. -/
abbrev Cell := Option String × Option String

def Cell.text (x : Cell) : String :=
  match x.1 with
  | none => x.2.getD "worldwide"
  | some c => c ++ "/" ++ x.2.getD "worldwide"

def cellMarkets (main : List String) (e : PlanQuestion) : List (Option String) :=
  let scope := regionsOf T plan e
  let inScope := if main = [] then [] else
    if scope = [] then main else main.filter (· ∈ scope)
  if inScope ≠ [] then inScope.map some else if scope ≠ [] then scope.map some else [none]

def cellClasses (e : PlanQuestion) : List (Option String) :=
  if classesOf e = [] then [none] else (classesOf e).map some

def cells (main : List String) (e : PlanQuestion) : List Cell :=
  (cellClasses e).flatMap fun c => (cellMarkets T plan main e).map fun m => (c, m)

def coversClass (d : PlanQuestion) : Option String → Bool
  | none => classesOf d = []
  | some c => classesOf d = [] || c ∈ classesOf d

def coversMarket (d : PlanQuestion) : Option String → Bool
  | none => regionsOf T plan d = [] && leftOutOf T byQid d = []
  | some m => (regionsOf T plan d = [] || m ∈ regionsOf T plan d) && m ∉ leftOutOf T byQid d

def covers (lists : List PlanQuestion) (x : Cell) : Bool :=
  lists.any fun d => coversClass d x.1 && coversMarket T plan byQid d x.2

/-- Is a question a crowd? -/
def isCrowd (e : PlanQuestion) : Bool :=
  e.qid ≠ "" && e.expectedKind ≠ .count && stateOf T byQid e.qid = some "incomplete"

/-- The row of a crowd. -/
def crowdRow (main : List String) (fuel : ℕ) (e : PlanQuestion) : Option NarrowingRow := do
  let lists ← retrievedUnder T plan byQid fuel e
  let row : NarrowingRow :=
    { qid := e.qid, axis := e.axis, totalHits := (byQid e.qid).bind BandBlock.totalHits
      narrowing := if lists = [] then .noList else .listRetrieved
      lists := (lists.map fun c => c.qid).take 12 }
  if !asksIdentical T plan e then some row
  else
    let open_ := (cells T plan main e).filter fun x => !covers T plan byQid lists x
    if open_ ≠ [] then
      some { row with
        narrowing := .requiredNotCovered
        notCovered := (open_.map Cell.text).take 40 }
    else some { row with narrowing := .requiredCovered }

def crowdNarrowing (mainMarkets : List String) (fuel : ℕ) : Option CrowdNarrowing := do
  let rows ← (plan.entries.filter (isCrowd T byQid)).mapM
    (crowdRow T plan byQid (T.marketsOf mainMarkets) fuel)
  let count (k : Narrowing) : ℕ := (rows.filter (·.narrowing = k)).length
  some
    { listRetrieved := count .listRetrieved
      noList := count .noList
      requiredCovered := count .requiredCovered
      requiredNotCovered := count .requiredNotCovered
      rows }

end

/-- All that `inner` asks is asked by `outer`, an empty `outer` asking everything. -/
def Within (inner outer : List String) : Prop := outer = [] ∨ (inner ≠ [] ∧ ∀ x ∈ inner, x ∈ outer)

section

variable (T : CrowdText) (plan : NarrowedPlan) (byQid : String → Option BandBlock)

/-- The same question, within tighter limits. -/
structure IsNarrowing (parent child : PlanQuestion) : Prop where
  of_plan : child ∈ plan.entries
  names : Text.trim (child.narrows.getD "") = parent.qid
  predicate : child.predicate.text = parent.predicate.text
  terms : termsOf T child = termsOf T parent
  classes : Within (classesOf child) (classesOf parent)
  markets : Within (regionsOf T plan child) (regionsOf T plan parent)
  owner : Text.trim (child.owner.getD "") = Text.trim (parent.owner.getD "")
  goods : Within (goodsOf T child) (goodsOf T parent)
  /-- a question without goods is narrowed by the client's -/
  client_goods : goodsOf T parent = [] →
    goodsOf T child = [] ∨ Within (goodsOf T child) (clientGoods T plan)

/-- A list retrieved in full, through narrowings one after another. -/
structure IsList (e d : PlanQuestion) : Prop where
  reached : Relation.TransGen (IsNarrowing T plan) e d
  enumerated : ∃ b, byQid d.qid = some b ∧ b.error = false ∧
    T.forms.toLowerCase (b.state.getD "") = "enumerated"

/-- A class that a question asks, none where it asks every class. -/
def AsksClass (e : PlanQuestion) : Option String → Prop
  | none => classesOf e = []
  | some c => c ∈ classesOf e

/-- A list of the crowd that asked this class, and this market without leaving it out. -/
def ReadIn (e : PlanQuestion) (cls : Option String) (market : String) : Prop :=
  ∃ d, IsList T plan byQid e d ∧ AsksClass d cls ∧
    (market ∈ regionsOf T plan d ∨ regionsOf T plan e = [] ∧ regionsOf T plan d = []) ∧
    market ∉ leftOutOf T byQid d

/-- A list of the crowd that asked this class, and every market with none left out. -/
def ReadWorldwide (e : PlanQuestion) (cls : Option String) : Prop :=
  ∃ d, IsList T plan byQid e d ∧ AsksClass d cls ∧ regionsOf T plan d = [] ∧
    leftOutOf T byQid d = []

/-- A main market that a question asks. -/
def InScope (main : List String) (e : PlanQuestion) (market : String) : Prop :=
  market ∈ main ∧ (regionsOf T plan e = [] ∨ market ∈ regionsOf T plan e)

/-- The required read of a crowd, done: in every main market of its scope, else in its whole
scope, else worldwide. -/
structure IsRead (main : List String) (e : PlanQuestion) : Prop where
  main_markets : ∀ cls, AsksClass e cls → ∀ m, InScope T plan main e m → ReadIn T plan byQid e cls m
  whole_scope : (∀ m, ¬ InScope T plan main e m) → ∀ cls, AsksClass e cls →
    ∀ m ∈ regionsOf T plan e, ReadIn T plan byQid e cls m
  worldwide : (∀ m, ¬ InScope T plan main e m) → regionsOf T plan e = [] →
    ∀ cls, AsksClass e cls → ReadWorldwide T plan byQid e cls

/-- What the record of a plan's crowds owes: a row that says the required read is covered is of a
crowd on the identical mark that is read. -/
structure ReadsOnlyLists (main : List String) (out : CrowdNarrowing) : Prop where
  covered : ∀ row ∈ out.rows, row.narrowing = .requiredCovered →
    ∃ e ∈ plan.entries, e.qid = row.qid ∧ asksIdentical T plan e = true ∧
      IsRead T plan byQid main e

variable {T plan byQid} {e d p c : PlanQuestion} {main : List String} {fuel : ℕ}
  {inner outer : List String} {cls : Option String} {lists : List PlanQuestion}

theorem within_of_isWithin (within : isWithin inner outer = true) : Within inner outer := by
  simpa [isWithin, Within] using within

theorem Within.ne_nil (within : Within inner outer) (stated : outer ≠ []) : inner ≠ [] :=
  (within.resolve_left stated).1

theorem Within.trans {middle : List String} (left : Within inner middle)
    (right : Within middle outer) : Within inner outer := by
  obtain all | ⟨stated, part⟩ := right
  · exact .inl all
  · obtain all | ⟨own, part'⟩ := left
    · exact absurd all stated
    · exact .inr ⟨own, fun x mem => part x (part' x mem)⟩

theorem isNarrowing_of_link (link : Walk.Link (narrows T plan) (childrenOf plan) p c) :
    IsNarrowing T plan p c := by
  obtain ⟨mem, tighter⟩ := link
  obtain ⟨mem, names⟩ := List.mem_filter.mp mem
  rw [decide_eq_true_eq] at names
  rw [narrows] at tighter
  split at tighter
  · cases tighter
  rename_i same
  rw [not_or, not_ne_iff, not_ne_iff] at same
  split at tighter
  · cases tighter
  rename_i limits
  rw [Bool.not_eq_true, Bool.or_eq_false_iff, Bool.not_eq_false', Bool.not_eq_false'] at limits
  split at tighter
  · cases tighter
  rename_i owned
  rw [not_ne_iff] at owned
  refine ⟨mem, names.2.1, same.1, same.2, within_of_isWithin limits.1,
    within_of_isWithin limits.2, owned.symm, ?_, fun none_asked => ?_⟩
  · split at tighter
    · exact .inr (by simpa using tighter)
    · rename_i none_asked
      exact .inl (not_ne_iff.mp none_asked)
  · rw [if_neg (not_ne_iff.mpr none_asked)] at tighter
    by_cases none_narrowed : goodsOf T c = []
    · exact .inl none_narrowed
    · refine .inr ?_
      by_cases client : clientGoods T plan = []
      · exact .inl client
      · exact .inr ⟨none_narrowed, by simpa [none_narrowed, client] using tighter⟩

theorem isList_of_mem (found : retrievedUnder T plan byQid fuel e = some lists)
    (mem : d ∈ lists) : IsList T plan byQid e d := by
  obtain ⟨taken, walked, rfl⟩ := Option.map_eq_some_iff.mp found
  obtain ⟨walk, made, rfl⟩ := Option.map_eq_some_iff.mp walked
  obtain ⟨mem, state⟩ := List.mem_filter.mp mem
  obtain ⟨x, taken, rfl⟩ := List.mem_map.mp mem
  obtain ⟨above, link⟩ := Walk.chained_walk made x taken
  have chain : Relation.ReflTransGen (IsNarrowing T plan) e x.1 :=
    Relation.ReflTransGen.mono (fun _ _ => isNarrowing_of_link) _ _ above
  refine ⟨.tail' chain (isNarrowing_of_link link), ?_⟩
  rw [decide_eq_true_eq, stateOf] at state
  split at state
  · cases state
  · rename_i b block
    split at state
    · cases state
    · rename_i sound
      exact ⟨b, block, by simpa using sound, Option.some_injective _ state⟩

/-- What a list asks is within what its crowd asks. -/
theorem within_of_reached (reached : Relation.TransGen (IsNarrowing T plan) e d) :
    Within (classesOf d) (classesOf e) ∧ Within (regionsOf T plan d) (regionsOf T plan e) := by
  induction reached with
  | single step => exact ⟨step.classes, step.markets⟩
  | tail _ step ih => exact ⟨step.classes.trans ih.1, step.markets.trans ih.2⟩

theorem asksClass_of_covers (list : IsList T plan byQid e d) (asks : AsksClass e cls)
    (covers : coversClass d cls = true) : AsksClass d cls := by
  cases cls with
  | none => simpa [coversClass, AsksClass] using covers
  | some c =>
    have narrower := (within_of_reached list.reached).1.ne_nil (List.ne_nil_of_mem asks)
    rw [AsksClass]
    simpa [coversClass, narrower] using covers

theorem mem_cells {m : Option String} (asks : AsksClass e cls)
    (mem : m ∈ cellMarkets T plan main e) :
    (cls, m) ∈ cells T plan main e := by
  refine List.mem_flatMap.mpr ⟨cls, ?_, List.mem_map.mpr ⟨m, mem, rfl⟩⟩
  rw [cellClasses]
  cases cls with
  | none =>
    rw [AsksClass] at asks
    rw [if_pos asks]
    exact List.mem_singleton_self _
  | some c =>
    rw [if_neg (List.ne_nil_of_mem asks)]
    exact List.mem_map.mpr ⟨c, asks, rfl⟩

/-- The main markets of a scope. -/
def mainInScope (T : CrowdText) (plan : NarrowedPlan) (main : List String) (e : PlanQuestion) :
    List String :=
  if main = [] then [] else
    if regionsOf T plan e = [] then main else main.filter (· ∈ regionsOf T plan e)

theorem mem_mainInScope {m : String} : m ∈ mainInScope T plan main e ↔ InScope T plan main e m := by
  unfold mainInScope InScope
  by_cases none_named : main = []
  · simp [none_named]
  · by_cases everywhere : regionsOf T plan e = [] <;> simp [none_named, everywhere]

theorem cellMarkets_eq : cellMarkets T plan main e =
    if mainInScope T plan main e ≠ [] then (mainInScope T plan main e).map some
    else if regionsOf T plan e ≠ [] then (regionsOf T plan e).map some else [none] := rfl

theorem mainInScope_eq_nil (outside : ∀ m, ¬ InScope T plan main e m) :
    mainInScope T plan main e = [] :=
  List.eq_nil_iff_forall_not_mem.mpr fun m mem => outside m (mem_mainInScope.mp mem)

/-- Where every cell is covered, the required read is done. -/
theorem isRead_of_covers (found : retrievedUnder T plan byQid fuel e = some lists)
    (every : ∀ x ∈ cells T plan main e, covers T plan byQid lists x = true) :
    IsRead T plan byQid main e := by
  have read {cls : Option String} {m : Option String} (asks : AsksClass e cls)
      (mem : m ∈ cellMarkets T plan main e) : ∃ d, IsList T plan byQid e d ∧ AsksClass d cls ∧
        coversMarket T plan byQid d m = true := by
    obtain ⟨d, mem, covers⟩ := List.any_eq_true.mp (every _ (mem_cells asks mem))
    rw [Bool.and_eq_true] at covers
    have list := isList_of_mem found mem
    exact ⟨d, list, asksClass_of_covers list asks covers.1, covers.2⟩
  have readIn {cls : Option String} {m : String} (asks : AsksClass e cls)
      (mem : some m ∈ cellMarkets T plan main e) : ReadIn T plan byQid e cls m := by
    obtain ⟨d, list, asked, covers⟩ := read asks mem
    rw [coversMarket, Bool.and_eq_true, Bool.or_eq_true, decide_eq_true_eq, decide_eq_true_eq,
      decide_eq_true_eq] at covers
    refine ⟨d, list, asked, covers.1.symm.imp_right fun worldwide => ⟨?_, worldwide⟩, covers.2⟩
    by_contra narrower
    exact (within_of_reached list.reached).2.ne_nil narrower worldwide
  refine ⟨fun cls asks m inScope => readIn asks ?_, fun outside cls asks m mem => readIn asks ?_,
    fun outside everywhere cls asks => ?_⟩
  · have mem := mem_mainInScope.mpr inScope
    rw [cellMarkets_eq, if_pos (List.ne_nil_of_mem mem)]
    exact List.mem_map.mpr ⟨m, mem, rfl⟩
  · rw [cellMarkets_eq, mainInScope_eq_nil outside, if_neg (not_not.mpr rfl),
      if_pos (List.ne_nil_of_mem mem)]
    exact List.mem_map.mpr ⟨m, mem, rfl⟩
  · obtain ⟨d, list, asked, covers⟩ := read (m := none) asks (by
      rw [cellMarkets_eq, mainInScope_eq_nil outside, if_neg (not_not.mpr rfl),
        if_neg (not_not.mpr everywhere)]
      exact List.mem_singleton_self _)
    rw [coversMarket, Bool.and_eq_true, decide_eq_true_eq, decide_eq_true_eq] at covers
    exact ⟨d, list, asked, covers.1, covers.2⟩

theorem crowdRow_spec {row : NarrowingRow} (made : crowdRow T plan byQid main fuel e = some row) :
    row.qid = e.qid ∧ (row.narrowing = .requiredCovered →
      asksIdentical T plan e = true ∧ IsRead T plan byQid main e) := by
  obtain ⟨lists, found, made⟩ := Option.bind_eq_some_iff.mp made
  simp only at made
  split at made
  · rw [Option.some_inj] at made
    subst made
    refine ⟨rfl, fun covered => ?_⟩
    simp only at covered
    split at covered <;> cases covered
  · rename_i identical
    split at made
    · rw [Option.some_inj] at made
      subst made
      exact ⟨rfl, fun covered => nomatch covered⟩
    · rename_i none_open
      rw [Option.some_inj] at made
      subst made
      refine ⟨rfl, fun _ => ⟨by simpa using identical, isRead_of_covers found fun x mem => ?_⟩⟩
      have closed := List.filter_eq_nil_iff.mp (not_ne_iff.mp none_open) x mem
      simpa using closed

theorem narrowingsBelow_isSome (enough : plan.entries.length < fuel) :
    (narrowingsBelow T plan fuel e).isSome = true := by
  rw [narrowingsBelow, Option.isSome_map]
  have known : ∀ e, ∀ c ∈ childrenOf plan e, c.qid ∈ (plan.entries.map fun c => c.qid).toFinset :=
    fun e c mem => List.mem_toFinset.mpr (List.mem_map.mpr ⟨c, List.mem_of_mem_filter mem, rfl⟩)
  refine (Walk.ends_walk known (lt_of_le_of_lt ?_ enough)).ends
  · refine (Finset.card_le_card Finset.sdiff_subset).trans ?_
    exact (List.toFinset_card_le _).trans (List.length_map _).le

theorem crowdRow_isSome (enough : plan.entries.length < fuel) :
    (crowdRow T plan byQid main fuel e).isSome = true := by
  obtain ⟨found, below⟩ :=
    Option.isSome_iff_exists.mp (narrowingsBelow_isSome (T := T) (e := e) enough)
  simp only [crowdRow, retrievedUnder, below, Option.map_some, Option.bind_eq_bind,
    Option.bind_some]
  split
  · rfl
  · split <;> rfl

end

section

variable (T : CrowdText) (plan : NarrowedPlan)

/-- However the questions of a plan narrow one another, the record of its crowds and the markets of
its market step are worked out, and a crowd counts as read only where complete lists of it read
every class it asks in every market it owes. -/
theorem crowds_read_only_by_lists (blocks : List BandBlock) (mainMarkets : List String) (n : ℕ) :
    (∃ used, marketStepMarkets T plan (plan.entries.length + 1 + n) = some used) ∧
    ∃ out, crowdNarrowing T plan (blocksByQidOf blocks) mainMarkets
        (plan.entries.length + 1 + n) = some out ∧
      ReadsOnlyLists T plan (blocksByQidOf blocks) (T.marketsOf mainMarkets) out := by
  have enough : plan.entries.length < plan.entries.length + 1 + n := by omega
  constructor
  · obtain ⟨walks, made, -⟩ := mapM_isSome
      (plan.entries.filter fun e => e.qid ≠ "" && asksIdentical T plan e)
      (f := narrowingsBelow T plan (plan.entries.length + 1 + n))
      fun _ _ => narrowingsBelow_isSome enough
    exact ⟨_, by rw [marketStepMarkets, made]; rfl⟩
  · obtain ⟨rows, made, own⟩ := mapM_isSome
      (plan.entries.filter (isCrowd T (blocksByQidOf blocks)))
      (f := crowdRow T plan (blocksByQidOf blocks) (T.marketsOf mainMarkets)
        (plan.entries.length + 1 + n))
      fun _ _ => crowdRow_isSome enough
    refine ⟨_, by rw [crowdNarrowing, made]; rfl, ⟨fun row mem covered => ?_⟩⟩
    obtain ⟨e, mem, is⟩ := own row mem
    obtain ⟨qid, read⟩ := crowdRow_spec is
    exact ⟨e, List.mem_of_mem_filter mem, qid.symm, read covered⟩

end

end Clearotron.Crowds
