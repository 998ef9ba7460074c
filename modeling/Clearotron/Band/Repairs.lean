import Clearotron.Band.Named
import Mathlib.Data.List.Forall2

/-!
# Repairs of a band

A block whose state nobody knows is made a descriptor, and so is a clean that a pass killed at
its time limit may have written by hand. After any run of both, each block is what it was or
the descriptor one of them put in its place.
-/

namespace Clearotron

namespace Band

section

variable (R : Runtime)

/-- A descriptor in place of a block of unknown state. -/
def Block.quarantined (b : Block) : Json := .obj [
  ("state", .str "incomplete"),
  ("query", .str (b.query R)),
  ("total_hits", match countOrNull R (b.get "total_hits") with
    | some q => .num q
    | none => .null),
  ("fetched", match b.list? "records" with
    | some records => .num records.length
    | none => numberOrZero R (b.get "fetched")),
  ("sample", .arr (match b.list? "records" with
    | some records => records.take 20
    | none => (b.list? "sample").getD [])),
  ("reason", .str ("QUARANTINED unknown state '" ++ Text.slice 30 (textOf R (b.get "state")) ++
    "' — vocabulary miss on a model-authored judgment block; treat as a descriptor for " ++
    "judgment, never a clean" ++
    (if truthy (b.get "reason") then
      ". Original reason: " ++ Text.slice 200 (textOf R (b.get "reason")) else "")))]

def quarantineBlock (v : Json) : Except BandError Json :=
  match asBlock v with
  | none => .ok v
  | some b =>
    if b.isUnknown R then
      if b.hasQid then .error (.stateInvalid (Text.slice 30 (textOf R (b.get "state"))))
      else .ok (b.quarantined R)
    else .ok v

/-- What a repair set aside: the state it did not know, where that is the reason, and the query. -/
structure SetAside where
  state : Option String
  query : String

structure Repaired where
  blocks : List Json
  quarantined : List SetAside

def quarantineUnknownStates (raw : Json) : Except BandError Repaired :=
  (blocksOf R raw).bind fun blocks => (blocks.mapM (quarantineBlock R)).map fun out =>
    { blocks := out
      quarantined := ((blocks.filterMap asBlock).filter (Block.isUnknown R)).map fun b =>
        ⟨some (Text.slice 30 (textOf R (b.get "state"))), Block.query R b⟩ }

/-- A clean that no record and no machine stands behind. -/
def Block.claimsClean (b : Block) : Bool :=
  !b.hasQid && b.state R = "enumerated" && ((b.list? "records").getD []).isEmpty

/-- A descriptor in place of such a clean. -/
def Block.tainted (b : Block) : Json := .obj [
  ("state", .str "incomplete"),
  ("query", .str (b.query R)),
  ("total_hits", numberOrZero R (b.get "total_hits")),
  ("fetched", .num 0),
  ("sample", .arr []),
  ("reason", .str ("authored in a timeout-tainted pass — self-reported clean unverified; " ++
    "re-run required (taint)"))]

def taintBlock (v : Json) : Json :=
  match asBlock v with
  | none => v
  | some b => if b.claimsClean R then b.tainted R else v

def taintQuarantineCleanBlocks (raw : Json) : Except BandError Repaired :=
  (blocksOf R raw).map fun blocks =>
    { blocks := blocks.map (taintBlock R)
      quarantined := ((blocks.filterMap asBlock).filter (Block.claimsClean R)).map fun b =>
        ⟨none, Block.query R b⟩ }

/-- A repair of a band. -/
inductive Pass where
  | quarantineUnknown
  | taintClean
  deriving DecidableEq

/-- One repair, read and written as a document. -/
def Pass.apply : Pass → Json → Except BandError Json
  | .quarantineUnknown, raw => (quarantineUnknownStates R raw).map fun out => .arr out.blocks
  | .taintClean, raw => (taintQuarantineCleanBlocks R raw).map fun out => .arr out.blocks

/-- Repairs one after the other. -/
def runPasses (passes : List Pass) (raw : Json) : Except BandError Json :=
  passes.foldlM (fun raw pass => pass.apply R raw) raw

end

section

variable {R : Runtime} {v w : Json} {b : Block}

theorem asBlock_obj {fields : List (String × Json)} (nodup : (fields.map Prod.fst).Nodup)
    (k : String) : (asBlock (.obj fields)).bind (·.get k) = fields.lookup k :=
  congrArg (Keyed.get · k) (Keyed.ofList_entries ⟨fields, nodup⟩)

theorem state_incomplete (is : b.get "state" = some (.str "incomplete")) :
    Block.state R b = "incomplete" := by
  have trimmed : Text.trim "incomplete" = "incomplete" := by decide
  rw [Block.state, is]
  exact (congrArg R.lower trimmed).trans (R.lower_lowercase _ (by decide))

theorem stateOf_obj {fields : List (String × Json)} (nodup : (fields.map Prod.fst).Nodup)
    (is : fields.lookup "state" = some (.str "incomplete")) :
    stateOf R (.obj fields) = some "incomplete" :=
  congrArg some (state_incomplete ((asBlock_obj nodup "state").trans is))

@[simp] theorem stateOf_quarantined : stateOf R (b.quarantined R) = some "incomplete" :=
  stateOf_obj (by simp) rfl

@[simp] theorem stateOf_tainted : stateOf R (b.tainted R) = some "incomplete" :=
  stateOf_obj (by simp) rfl

@[simp] theorem totalOf_quarantined :
    totalOf R (b.quarantined R) = countOrNull R (b.get "total_hits") := by
  rw [totalOf, Block.quarantined, asBlock_obj (by simp)]
  cases known : countOrNull R (b.get "total_hits") <;> rfl

/-- A tainted block is given a number wherever `Number` gives one. -/
theorem totalOf_tainted : totalOf R (b.tainted R) =
    match numberOf R (b.get "total_hits") with
    | .nan => some 0
    | .infinite => none
    | .finite q => some q := by
  rw [totalOf, Block.tainted, asBlock_obj (by simp)]
  change countOrNull R (some (numberOrZero R (b.get "total_hits"))) = _
  rw [numberOrZero]
  cases numberOf R (b.get "total_hits") <;> rfl

/-- A block that states nothing unknown and claims no clean is left by both repairs. -/
theorem quarantineBlock_of_known (known : stateOf R v = some "incomplete") :
    quarantineBlock R v = .ok v := by
  obtain ⟨b, is, state⟩ := Option.map_eq_some_iff.mp known
  have known' : Block.isUnknown R b = false := by simp [Block.isUnknown, state, bandStates]
  simp [quarantineBlock, is, known']

theorem taintBlock_of_incomplete (known : stateOf R v = some "incomplete") :
    taintBlock R v = v := by
  obtain ⟨b, is, state⟩ := Option.map_eq_some_iff.mp known
  have unclaimed : Block.claimsClean R b = false := by simp [Block.claimsClean, state]
  simp [taintBlock, is, unclaimed]

/-- A clean is in a state that is known. -/
theorem claimsClean_known (clean : Block.claimsClean R b = true) : Block.isUnknown R b = false := by
  simp only [Block.claimsClean, Bool.and_eq_true, decide_eq_true_eq] at clean
  simp [Block.isUnknown, clean.1.2, bandStates]

end

section

variable (R : Runtime)

/-- What repairs leave of a block: itself, or the descriptor one of them put in its place. -/
inductive Outcome (passes : List Pass) (v : Json) : Json → Prop where
  | kept
      (known : Pass.quarantineUnknown ∈ passes → ∀ b, asBlock v = some b → b.isUnknown R = false)
      (unclaimed : Pass.taintClean ∈ passes → ∀ b, asBlock v = some b → b.claimsClean R = false) :
      Outcome passes v v
  | quarantined (b : Block) (is : asBlock v = some b) (unknown : b.isUnknown R = true)
      (unstamped : b.hasQid = false) (ran : Pass.quarantineUnknown ∈ passes) :
      Outcome passes v (b.quarantined R)
  | tainted (b : Block) (is : asBlock v = some b) (clean : b.claimsClean R = true)
      (ran : Pass.taintClean ∈ passes) : Outcome passes v (b.tainted R)

variable {R} {passes : List Pass} {v w w' : Json}

/-- What a second quarantine finds. -/
theorem Outcome.quarantine (outcome : Outcome R passes v w)
    (ok : quarantineBlock R w = .ok w') : Outcome R (passes ++ [.quarantineUnknown]) v w' := by
  cases outcome with
  | kept known unclaimed =>
    rw [quarantineBlock] at ok
    cases is : asBlock v with
    | none =>
      rw [is] at ok
      obtain rfl := Except.ok.inj ok
      exact .kept (fun _ b is' => by simp [is] at is') (fun _ b is' => by simp [is] at is')
    | some b =>
      rw [is] at ok
      dsimp only at ok
      cases unknown : b.isUnknown R with
      | false =>
        rw [if_neg (by simp [unknown])] at ok
        obtain rfl := Except.ok.inj ok
        refine .kept (fun _ b' is' => ?_) (fun ran b' is' => unclaimed (by simpa using ran) b' is')
        obtain rfl : b = b' := Option.some.inj (is.symm.trans is')
        exact unknown
      | true =>
        rw [if_pos unknown] at ok
        cases stamped : b.hasQid with
        | true => simp [stamped] at ok
        | false =>
          rw [if_neg (by simp [stamped])] at ok
          obtain rfl := Except.ok.inj ok
          exact .quarantined b is unknown stamped (by simp)
  | quarantined b is unknown unstamped ran =>
    rw [quarantineBlock_of_known stateOf_quarantined] at ok
    obtain rfl := Except.ok.inj ok
    exact .quarantined b is unknown unstamped (List.mem_append_left _ ran)
  | tainted b is clean ran =>
    rw [quarantineBlock_of_known stateOf_tainted] at ok
    obtain rfl := Except.ok.inj ok
    exact .tainted b is clean (List.mem_append_left _ ran)

theorem Outcome.taint (outcome : Outcome R passes v w) :
    Outcome R (passes ++ [.taintClean]) v (taintBlock R w) := by
  cases outcome with
  | kept known unclaimed =>
    rw [taintBlock]
    cases is : asBlock v with
    | none => exact .kept (fun _ b is' => by simp [is] at is') (fun _ b is' => by simp [is] at is')
    | some b =>
      dsimp only
      cases clean : b.claimsClean R with
      | true =>
        rw [if_pos rfl]
        exact .tainted b is clean (by simp)
      | false =>
        rw [if_neg (by simp)]
        refine .kept (fun ran b' is' => known (by simpa using ran) b' is') (fun _ b' is' => ?_)
        obtain rfl : b = b' := Option.some.inj (is.symm.trans is')
        exact clean
  | quarantined b is unknown unstamped ran =>
    rw [taintBlock_of_incomplete stateOf_quarantined]
    exact .quarantined b is unknown unstamped (List.mem_append_left _ ran)
  | tainted b is clean ran =>
    rw [taintBlock_of_incomplete stateOf_tainted]
    exact .tainted b is clean (List.mem_append_left _ ran)

/-- One repair of a document, block by block. -/
theorem Pass.apply_ok {pass : Pass} {raw out : Json} (ok : pass.apply R raw = .ok out) :
    ∃ blocks blocks', blocksOf R raw = .ok blocks ∧ out = .arr blocks' ∧ match pass with
      | .quarantineUnknown => List.Forall₂ (fun v w => quarantineBlock R v = .ok w) blocks blocks'
      | .taintClean => List.Forall₂ (fun v w => taintBlock R v = w) blocks blocks' := by
  cases are : blocksOf R raw with
  | error e =>
    cases pass <;> simp [Pass.apply, quarantineUnknownStates, taintQuarantineCleanBlocks, are,
      Except.bind, Except.map] at ok
  | ok blocks =>
    cases pass with
    | quarantineUnknown =>
      simp only [Pass.apply, quarantineUnknownStates, are, Except.bind] at ok
      cases each : blocks.mapM (quarantineBlock R) with
      | error e => simp [each, Except.map] at ok
      | ok blocks' =>
        rw [each] at ok
        obtain rfl := Except.ok.inj ok
        exact ⟨blocks, blocks', rfl, rfl, forall₂_of_mapM each⟩
    | taintClean =>
      simp only [Pass.apply, taintQuarantineCleanBlocks, are, Except.map] at ok
      obtain rfl := Except.ok.inj ok
      exact ⟨blocks, _, rfl, rfl,
        List.forall₂_map_right_iff.mpr (List.forall₂_same.mpr fun _ _ => rfl)⟩

theorem forall₂_trans {r s t : Json → Json → Prop} (both : ∀ a b c, r a b → s b c → t a c)
    {l₁ l₂ l₃ : List Json} (first : List.Forall₂ r l₁ l₂) (second : List.Forall₂ s l₂ l₃) :
    List.Forall₂ t l₁ l₃ := by
  induction first generalizing l₃ with
  | nil =>
    cases second
    exact .nil
  | cons ab _ ih =>
    cases second with
    | cons bc rest => exact .cons (both _ _ _ ab bc) (ih rest)

theorem runPasses_concat (passes : List Pass) (pass : Pass) (raw : Json) :
    runPasses R (passes ++ [pass]) raw = (runPasses R passes raw).bind (pass.apply R) := by
  simp only [runPasses, List.foldlM_append, List.foldlM_cons, List.foldlM_nil, bind_pure]
  rfl

/-- What any run of repairs leaves of each block. -/
theorem runPasses_outcome {raw out : Json} {blocks blocks' : List Json}
    (are : blocksOf R raw = .ok blocks) (ran : runPasses R passes raw = .ok out)
    (left : blocksOf R out = .ok blocks') : List.Forall₂ (Outcome R passes) blocks blocks' := by
  induction passes using List.reverseRecOn generalizing out blocks' with
  | nil =>
    obtain rfl := Except.ok.inj ran
    obtain rfl := Except.ok.inj (are.symm.trans left)
    exact List.forall₂_same.mpr fun v _ => .kept (by simp) (by simp)
  | append_singleton passes pass ih =>
    rw [runPasses_concat] at ran
    cases before : runPasses R passes raw with
    | error e => simp [before, Except.bind] at ran
    | ok mid =>
      rw [before] at ran
      change pass.apply R mid = .ok out at ran
      obtain ⟨mids, outs, areMids, rfl, each⟩ := Pass.apply_ok ran
      obtain rfl := Except.ok.inj left
      have ih := ih before areMids
      cases pass with
      | quarantineUnknown =>
        exact forall₂_trans (fun _ _ _ outcome ok => outcome.quarantine ok) ih each
      | taintClean =>
        refine forall₂_trans (fun _ _ _ outcome is => ?_) ih each
        rw [← is]
        exact outcome.taint

end

section

variable {R : Runtime} {blocks blocks' : List Json} {passes : List Pass} {raw out : Json}

/-- What repairs may do to a document, for whoever reads it after them. -/
structure ReadsHonestly (R : Runtime) (passes : List Pass) (blocks blocks' : List Json) : Prop where
  /-- a total that is unknown stays unknown -/
  totals : ∀ (i : Nat) (v w : Json), blocks[i]? = some v → blocks'[i]? = some w →
    totalOf R v = none → totalOf R w = none
  /-- a block of unknown state is no answer, and where the band is read it is a descriptor -/
  states : ∀ (i : Nat) (v w : Json) (b : Block), blocks[i]? = some v → blocks'[i]? = some w →
    asBlock v = some b → b.isUnknown R = true → stateOf R w ≠ some "enumerated" ∧
      ∀ band, parseNamedBand R (.arr blocks') = .ok band → stateOf R w = some "incomplete"
  /-- any other block is passed through -/
  others : ∀ (i : Nat) (v w : Json), blocks[i]? = some v → blocks'[i]? = some w → w = v ∨
    ∃ b, asBlock v = some b ∧
      (b.isUnknown R = true ∧ Pass.quarantineUnknown ∈ passes ∧ w = b.quarantined R ∨
        b.claimsClean R = true ∧ Pass.taintClean ∈ passes ∧ w = b.tainted R)
  /-- the descriptors are read with the totals of their blocks -/
  crowds : ∀ band, parseNamedBand R (.arr blocks') = .ok band →
    band.crowds.map Crowd.totalHits =
      (blocks'.filter (stateOf R · = some "incomplete")).map (totalOf R)

theorem outcome_at {i : Nat} {v w : Json} (each : List.Forall₂ (Outcome R passes) blocks blocks')
    (here : blocks[i]? = some v) (there : blocks'[i]? = some w) : Outcome R passes v w := by
  obtain ⟨bound, rfl⟩ := List.getElem?_eq_some_iff.mp here
  obtain ⟨bound', rfl⟩ := List.getElem?_eq_some_iff.mp there
  exact (List.forall₂_iff_get.mp each).2 i bound bound'

/-- Repairs read honestly exactly where no clean they take back has an unknown total: of such a
total `Number` makes a number, and the descriptor is read as counted. -/
theorem unknown_never_counted (are : blocksOf R raw = .ok blocks)
    (ran : runPasses R passes raw = .ok out) (left : blocksOf R out = .ok blocks') :
    ReadsHonestly R passes blocks blocks' ↔
      (Pass.taintClean ∈ passes → ∀ v ∈ blocks, ∀ b, asBlock v = some b → b.claimsClean R = true →
        countOrNull R (b.get "total_hits") = none →
          numberOf R (b.get "total_hits") = .infinite) := by
  have each := runPasses_outcome are ran left
  constructor
  · intro honest taints v mem b is clean unknown
    obtain ⟨i, here⟩ := List.getElem?_of_mem mem
    obtain ⟨w, there⟩ : ∃ w, blocks'[i]? = some w := by
      obtain ⟨bound, -⟩ := List.getElem?_eq_some_iff.mp here
      exact ⟨_, List.getElem?_eq_getElem (each.length_eq ▸ bound)⟩
    have total : totalOf R w = none :=
      honest.totals i v w here there (by rw [totalOf, is]; exact unknown)
    cases outcome_at each here there with
    | kept known unclaimed => simp [unclaimed taints b is] at clean
    | quarantined b' is' unknown' =>
      obtain rfl := Option.some.inj (is.symm.trans is')
      simp [claimsClean_known clean] at unknown'
    | tainted b' is' =>
      obtain rfl := Option.some.inj (is.symm.trans is')
      rw [totalOf_tainted] at total
      cases number : numberOf R (b.get "total_hits") with
      | nan => simp [number] at total
      | infinite => rfl
      | finite q => simp [number] at total
  · intro counted
    refine ⟨fun i v w here there unknown => ?_, fun i v w b here there is unknown => ?_,
      fun i v w here there => ?_, fun band ok => crowd_totals ok⟩
    · cases outcome_at each here there with
      | kept => exact unknown
      | quarantined b is =>
        rw [totalOf_quarantined]
        simpa [totalOf, is] using unknown
      | tainted b is clean ran =>
        have infinite := counted ran v (List.mem_of_getElem? here) b is clean
          (by simpa [totalOf, is] using unknown)
        rw [totalOf_tainted, infinite]
    · cases outcome_at each here there with
      | kept known =>
        refine ⟨fun state => ?_, fun band ok => ?_⟩
        · rw [stateOf, is, Option.map_some, Option.some.injEq] at state
          simp [Block.isUnknown, state, bandStates] at unknown
        · obtain ⟨b', is', known'⟩ :=
            (foldlM_readBlock (ok : blocks'.foldlM (readBlock R) {} = .ok band)).1 v
              (List.mem_of_getElem? there)
          obtain rfl := Option.some.inj (is.symm.trans is')
          simp [known'] at unknown
      | quarantined => simp
      | tainted => simp
    · cases outcome_at each here there with
      | kept => exact .inl rfl
      | quarantined b is unknown _ ran => exact .inr ⟨b, is, .inl ⟨unknown, ran, rfl⟩⟩
      | tainted b is clean ran => exact .inr ⟨b, is, .inr ⟨clean, ran, rfl⟩⟩

/-- A document with a clean the reader counted and a block of a state nobody knows. -/
def twoBlocks : List Json := [
  .obj [("state", .str "enumerated"), ("query", .str "wavo"), ("total_hits", .num 0)],
  .obj [("state", .str "verified"), ("query", .str "slush"), ("total_hits", .null)]]

theorem unknown_never_counted_twoBlocks : ∃ out blocks',
    runPasses plainRuntime [.quarantineUnknown, .taintClean] (.arr twoBlocks) = .ok out ∧
      blocksOf plainRuntime out = .ok blocks' ∧
      ReadsHonestly plainRuntime [.quarantineUnknown, .taintClean] twoBlocks blocks' := by
  have are : blocksOf plainRuntime (.arr twoBlocks) = .ok twoBlocks := rfl
  refine ⟨_, _, rfl, rfl, (unknown_never_counted are rfl rfl).mpr ?_⟩
  rintro - v mem b is clean unknown
  simp only [twoBlocks, List.mem_cons, List.not_mem_nil, or_false] at mem
  obtain rfl | rfl := mem
  · obtain rfl := Option.some.inj is
    cases unknown
  · obtain rfl := Option.some.inj is
    exact absurd clean (by decide)

/-- A clean with no total at all: after the taint repair it is read as a counted zero. -/
theorem unknown_total_becomes_zero : ¬ ∀ (R : Runtime) (passes : List Pass) (raw out : Json)
    (blocks blocks' : List Json), blocksOf R raw = .ok blocks → runPasses R passes raw = .ok out →
      blocksOf R out = .ok blocks' → ReadsHonestly R passes blocks blocks' := by
  intro all
  have honest := all plainRuntime [.taintClean]
    (.arr [.obj [("state", .str "enumerated"), ("total_hits", .null)]]) _ _ _ rfl rfl rfl
  have total := honest.totals 0 _ _ rfl rfl rfl
  cases total

end

end Band

end Clearotron
