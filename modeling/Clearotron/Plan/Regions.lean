import Clearotron.Plan.BindingLayers

/-!
# The regions of a plan

The jurisdictions a matter orders are put into the provider's vocabulary, those it does
not cover are set aside with a reason, and for each that is covered the offices of its
binding layers are added, as far as the provider reaches them and no region returns the
layer already.
-/

namespace Clearotron

structure DeferredJurisdiction where
  jurisdiction : String
  reason : String
  deriving DecidableEq, Repr

def uncoveredJurisdictionReason (jurisdictions : List String) (providerId : String) : String :=
  "jurisdiction " ++ ", ".intercalate jurisdictions ++
    " is not covered by the active register provider (" ++ providerId ++ ") — " ++
    "the office is outside the provider's coverage, so this search was never carried out. " ++
    "It is a deferred gap for judgment, never a clean negative."

/-- What `resolveRegions` returns. -/
structure ResolvedRegions where
  regions : List String
  deferred : List DeferredJurisdiction
  worldwide : Bool
  deriving DecidableEq, Repr

/-- The first pass under way. -/
structure Resolving (R : Locale) where
  regions : List String := []
  deferred : List DeferredJurisdiction := []
  resolvedTerritories : List (Territory R) := []
  worldwide : Bool := false

/-- `if (!list.includes(x)) list.push(x)`. -/
def pushNew (list : List String) (x : String) : List String :=
  if x ∈ list then list else list ++ [x]

/-- The provider's own name of an office, none where it does not reach it. -/
def reach (capabilities : Option OfficeCapabilities) (office : String) : Option String :=
  let t := match capabilities.bind (·.offices.translate) with
    | some translate => translate office
    | none => some office
  t.filter fun t => t ≠ "" ∧ ∀ covered ∈ capabilities.bind (·.offices.covered), t ∈ covered

namespace Resolving

variable {R : Locale} (capabilities : Option OfficeCapabilities)

def defer (s : Resolving R) (j : String) : Resolving R :=
  let name := R.upper j
  { s with deferred := s.deferred ++ [⟨name,
      uncoveredJurisdictionReason [name] ((capabilities.bind (·.id)).getD "unknown")⟩] }

/-- One ordered jurisdiction, put into the provider's vocabulary. -/
def jurisdiction (s : Resolving R) (j : String) : Resolving R :=
  match R.normalizeTerritory j with
  | none => s.defer capabilities j
  | some code =>
    if code = "" then { s with worldwide := true }
    else if known : R.isKnownJurisdictionCode code = true then
      match reach capabilities code with
      | none => s.defer capabilities j
      | some t =>
        { s with
          regions := pushNew s.regions t
          resolvedTerritories := s.resolvedTerritories ++ [⟨code, R.named_of_known known⟩] }
    else s.defer capabilities j

end Resolving

section

variable (R : Locale) (capabilities : Option OfficeCapabilities)

/-- Does a region return the layer? The national one is asked of its own office. -/
def layerReached (regions : List String) (b : BindingLayer) (t : String) : Bool :=
  if b.layer = .national then
    t ∈ regions ∧ layerCoverageFor R capabilities t .national = .returns
  else regions.any fun o => layerCoverageFor R capabilities o b.layer = .returns

/-- One binding layer of a resolved territory. -/
def addLayer (regions : List String) (b : BindingLayer) : List String :=
  match reach capabilities b.office with
  | none => regions
  | some t => if layerReached R capabilities regions b t then regions else pushNew regions t

/-- The jurisdictions of a matter in the provider's vocabulary. -/
def resolveRegions (jurisdictions : Option (List String)) : ResolvedRegions :=
  let raw := ((jurisdictions.getD []).map Text.trim).filter (· ≠ "")
  let first := raw.foldl (Resolving.jurisdiction capabilities) ({} : Resolving R)
  let regions :=
    if capabilities.isSome then
      (first.resolvedTerritories.flatMap bindingLayersFor).foldl (addLayer R capabilities)
        first.regions
    else first.regions
  let unrestricted : Bool := regions = [] ∧ first.deferred = []
  match capabilities.bind (·.offices.covered) with
  | some covered =>
    if unrestricted ∧ capabilities.any (·.regionsRequired) then ⟨covered, first.deferred, true⟩
    else if first.worldwide then ⟨[], first.deferred, true⟩
    else ⟨regions, first.deferred, unrestricted⟩
  | none =>
    if first.worldwide then ⟨[], first.deferred, true⟩
    else ⟨regions, first.deferred, unrestricted⟩

end

/-- The jurisdiction is a territory the provider reaches at `office`. -/
def ResolvesTo {R : Locale} (capabilities : Option OfficeCapabilities) (j : String)
    (territory : Territory R) (office : String) : Prop :=
  R.normalizeTerritory j = some territory.code ∧ territory.code ≠ "" ∧
    R.isKnownJurisdictionCode territory.code = true ∧
    reach capabilities territory.code = some office

theorem mem_pushNew {list : List String} {x y : String} :
    y ∈ pushNew list x ↔ y ∈ list ∨ y = x := by
  unfold pushNew
  split
  · constructor
    · exact .inl
    · rintro (mem | rfl)
      · exact mem
      · assumption
  · simp

theorem reach_ne_empty {capabilities : Option OfficeCapabilities} {office t : String}
    (reached : reach capabilities office = some t) : t ≠ "" := by
  obtain ⟨-, h⟩ := Option.filter_eq_some_iff.mp reached
  exact (of_decide_eq_true h).1

variable {R : Locale} {capabilities : Option OfficeCapabilities}

/-- A jurisdiction resolves to one office at most. -/
theorem ResolvesTo.unique {j : String} {territory territory' : Territory R} {office office' : String}
    (h : ResolvesTo capabilities j territory office)
    (h' : ResolvesTo capabilities j territory' office') :
    territory = territory' ∧ office = office' := by
  obtain ⟨code, -, -, reached⟩ := h
  obtain ⟨code', -, -, reached'⟩ := h'
  obtain ⟨c, _⟩ := territory
  obtain ⟨c', _⟩ := territory'
  obtain rfl : c = c' := Option.some.inj (code.symm.trans code')
  exact ⟨rfl, Option.some.inj (reached.symm.trans reached')⟩

namespace Resolving

/-- What one jurisdiction can do to the first pass. -/
theorem jurisdiction_cases (capabilities : Option OfficeCapabilities) (s : Resolving R) (j : String) :
    (R.normalizeTerritory j = some "" ∧
        s.jurisdiction capabilities j = { s with worldwide := true }) ∨
      (∃ territory office, ResolvesTo capabilities j territory office ∧
        s.jurisdiction capabilities j = { s with
          regions := pushNew s.regions office
          resolvedTerritories := s.resolvedTerritories ++ [territory] }) ∨
      (R.normalizeTerritory j ≠ some "" ∧
        (∀ (territory : Territory R) office, ¬ ResolvesTo capabilities j territory office) ∧
        s.jurisdiction capabilities j = s.defer capabilities j) := by
  unfold jurisdiction
  cases code_eq : R.normalizeTerritory j with
  | none =>
      refine .inr (.inr ⟨nofun, ?_, rfl⟩)
      rintro territory office ⟨code, -⟩
      rw [code_eq] at code
      cases code
  | some code =>
      by_cases blank : code = ""
      · subst blank
        exact .inl ⟨rfl, if_pos rfl⟩
      · by_cases known : R.isKnownJurisdictionCode code = true
        · cases reached : reach capabilities code with
          | none =>
              refine .inr (.inr ⟨by simpa using blank, ?_, by simp [blank, known, reached]⟩)
              rintro territory office ⟨same, -, -, reaches⟩
              obtain rfl : code = territory.code := Option.some.inj (code_eq.symm.trans same)
              rw [reached] at reaches
              cases reaches
          | some t =>
              refine .inr (.inl ⟨⟨code, R.named_of_known known⟩, t, ⟨code_eq, blank, known, reached⟩, ?_⟩)
              simp [blank, known, reached]
        · refine .inr (.inr ⟨by simpa using blank, ?_, by simp [blank, known]⟩)
          rintro territory office ⟨same, -, isKnown, -⟩
          obtain rfl : code = territory.code := Option.some.inj (code_eq.symm.trans same)
          exact known isKnown

/-- The state after the first pass over a list. -/
abbrev pass (R : Locale) (capabilities : Option OfficeCapabilities) (raw : List String) : Resolving R :=
  raw.foldl (jurisdiction capabilities) {}

theorem pass_concat (raw : List String) (j : String) :
    pass R capabilities (raw ++ [j]) =
      (pass R capabilities raw).jurisdiction capabilities j := by
  simp [pass]

theorem mem_regions {raw : List String} {o : String} :
    o ∈ (pass R capabilities raw).regions ↔
      ∃ j ∈ raw, ∃ territory : Territory R, ResolvesTo capabilities j territory o := by
  induction raw using List.reverseRecOn with
  | nil => simp [pass]
  | append_singleton raw j ih =>
      rw [pass_concat]
      simp only [List.mem_append, List.mem_singleton, or_and_right, exists_or, exists_eq_left, ← ih]
      obtain ⟨worldwide, after⟩ | ⟨territory, office, resolves, after⟩ | ⟨-, unresolved, after⟩ :=
        jurisdiction_cases capabilities (pass R capabilities raw) j
      · rw [after]
        have : ¬ ∃ territory : Territory R, ResolvesTo capabilities j territory o := by
          rintro ⟨territory, code, named, -⟩
          exact named (Option.some.inj (code.symm.trans worldwide))
        simp [this]
      · rw [after, mem_pushNew]
        refine or_congr_right ⟨?_, ?_⟩
        · rintro rfl
          exact ⟨territory, resolves⟩
        · rintro ⟨territory', resolves'⟩
          exact (resolves'.unique resolves).2
      · rw [after]
        simp [defer, unresolved]

theorem mem_resolvedTerritories {raw : List String} {territory : Territory R} :
    territory ∈ (pass R capabilities raw).resolvedTerritories ↔
      ∃ j ∈ raw, ∃ office, ResolvesTo capabilities j territory office := by
  induction raw using List.reverseRecOn with
  | nil => simp [pass]
  | append_singleton raw j ih =>
      rw [pass_concat]
      simp only [List.mem_append, List.mem_singleton, or_and_right, exists_or, exists_eq_left, ← ih]
      obtain ⟨worldwide, after⟩ | ⟨territory', office, resolves, after⟩ | ⟨-, unresolved, after⟩ :=
        jurisdiction_cases capabilities (pass R capabilities raw) j
      · rw [after]
        have : ¬ ∃ office, ResolvesTo capabilities j territory office := by
          rintro ⟨office, code, named, -⟩
          exact named (Option.some.inj (code.symm.trans worldwide))
        simp [this]
      · rw [after]
        simp only [List.mem_append, List.mem_singleton]
        refine or_congr_right ⟨?_, ?_⟩
        · rintro rfl
          exact ⟨office, resolves⟩
        · rintro ⟨office', resolves'⟩
          exact (resolves'.unique resolves).1
      · rw [after]
        simp [defer, unresolved]

/-- Nothing that was set aside is taken back. -/
theorem deferred_grows (s : Resolving R) (j : String) :
    s.deferred ⊆ (s.jurisdiction capabilities j).deferred := by
  obtain ⟨-, after⟩ | ⟨_, _, -, after⟩ | ⟨-, -, after⟩ :=
    jurisdiction_cases capabilities s j
  all_goals rw [after]; simp [defer]

theorem mem_deferred {raw : List String} {j : String} (mem : j ∈ raw)
    (bounded : R.normalizeTerritory j ≠ some "")
    (unresolved : ∀ (territory : Territory R) office, ¬ ResolvesTo capabilities j territory office) :
    ∃ d ∈ (pass R capabilities raw).deferred, d.jurisdiction = R.upper j := by
  induction raw using List.reverseRecOn with
  | nil => cases mem
  | append_singleton raw last ih =>
      rw [pass_concat]
      obtain mem | mem := List.mem_append.mp mem
      · obtain ⟨d, mem, name⟩ := ih mem
        exact ⟨d, deferred_grows _ _ mem, name⟩
      · obtain rfl := List.mem_singleton.mp mem
        obtain ⟨worldwide, -⟩ | ⟨territory, office, resolves, -⟩ | ⟨-, -, after⟩ :=
          jurisdiction_cases capabilities (pass R capabilities raw) j
        · exact absurd worldwide bounded
        · exact absurd resolves (unresolved territory office)
        · rw [after]
          simp [defer]

theorem not_worldwide {raw : List String} (bounded : ∀ j ∈ raw, R.normalizeTerritory j ≠ some "") :
    (pass R capabilities raw).worldwide = false := by
  induction raw using List.reverseRecOn with
  | nil => rfl
  | append_singleton raw j ih =>
      have before := ih fun j mem => bounded j (List.mem_append_left _ mem)
      rw [pass_concat]
      obtain ⟨worldwide, -⟩ | ⟨_, _, -, after⟩ | ⟨-, -, after⟩ :=
        jurisdiction_cases capabilities (pass R capabilities raw) j
      · exact absurd worldwide (bounded j (by simp))
      · rw [after]
        exact before
      · rw [after]
        exact before

end Resolving

/-- The layer is returned by a region, its own office's being one where it is national. -/
def LayerSettled (R : Locale) (capabilities : Option OfficeCapabilities) (regions : List String)
    (b : BindingLayer) : Prop :=
  ∀ t, reach capabilities b.office = some t → t ∈ regions ∨
    b.layer ≠ .national ∧ ∃ o ∈ regions, layerCoverageFor R capabilities o b.layer = .returns

theorem LayerSettled.mono {regions regions' : List String} {b : BindingLayer}
    (settled : LayerSettled R capabilities regions b) (sub : regions ⊆ regions') :
    LayerSettled R capabilities regions' b := by
  intro t reached
  obtain mem | ⟨above, o, mem, returned⟩ := settled t reached
  · exact .inl (sub mem)
  · exact .inr ⟨above, o, sub mem, returned⟩

theorem addLayer_grows (regions : List String) (b : BindingLayer) :
    regions ⊆ addLayer R capabilities regions b := by
  unfold addLayer
  intro o mem
  split
  · exact mem
  · split
    · exact mem
    · exact mem_pushNew.mpr (.inl mem)

theorem addLayer_settles (regions : List String) (b : BindingLayer) :
    LayerSettled R capabilities (addLayer R capabilities regions b) b := by
  intro t reached
  unfold addLayer
  rw [reached]
  by_cases already : layerReached R capabilities regions b t = true
  · simp only [already, ↓reduceIte]
    by_cases national : b.layer = .national
    · simp only [layerReached, national, ↓reduceIte, decide_eq_true_eq] at already
      exact .inl already.1
    · simp only [layerReached, national, ↓reduceIte, List.any_eq_true, decide_eq_true_eq] at already
      exact .inr ⟨national, already⟩
  · simp only [already]
    exact .inl (mem_pushNew.mpr (.inr rfl))

theorem mem_addLayer {regions : List String} {b : BindingLayer} {o : String}
    (mem : o ∈ addLayer R capabilities regions b) :
    o ∈ regions ∨ reach capabilities b.office = some o := by
  unfold addLayer at mem
  split at mem
  · exact .inl mem
  · rename_i t reached
    split at mem
    · exact .inl mem
    · obtain mem | rfl := mem_pushNew.mp mem
      · exact .inl mem
      · exact .inr reached

theorem addLayers_grows (layers : List BindingLayer) (regions : List String) :
    regions ⊆ layers.foldl (addLayer R capabilities) regions := by
  induction layers generalizing regions with
  | nil => exact fun _ mem => mem
  | cons b layers ih => exact fun o mem => ih _ (addLayer_grows regions b mem)

theorem addLayers_settles {layers : List BindingLayer} {b : BindingLayer} (mem : b ∈ layers)
    (regions : List String) :
    LayerSettled R capabilities (layers.foldl (addLayer R capabilities) regions) b := by
  induction layers generalizing regions with
  | nil => cases mem
  | cons first layers ih =>
      rw [List.foldl_cons]
      obtain rfl | mem := List.mem_cons.mp mem
      · exact (addLayer_settles regions b).mono (addLayers_grows layers _)
      · exact ih mem _

theorem mem_addLayers {layers : List BindingLayer} {regions : List String} {o : String}
    (mem : o ∈ layers.foldl (addLayer R capabilities) regions) :
    o ∈ regions ∨ ∃ b ∈ layers, reach capabilities b.office = some o := by
  induction layers generalizing regions with
  | nil => exact .inl mem
  | cons first layers ih =>
      obtain mem | ⟨b, mem, reached⟩ := ih mem
      · obtain mem | reached := mem_addLayer mem
        · exact .inl mem
        · exact .inr ⟨first, List.mem_cons_self .., reached⟩
      · exact .inr ⟨b, List.mem_cons_of_mem _ mem, reached⟩

/-- The jurisdictions of a list that name something. -/
def ordered (jurisdictions : List String) : List String :=
  (jurisdictions.map Text.trim).filter (· ≠ "")

theorem ordered_subset {jurisdictions more : List String} (sub : jurisdictions ⊆ more) :
    ordered jurisdictions ⊆ ordered more := by
  intro j mem
  obtain ⟨mem, named⟩ := List.mem_filter.mp mem
  obtain ⟨typed, listed, rfl⟩ := List.mem_map.mp mem
  exact List.mem_filter.mpr ⟨List.mem_map_of_mem (sub listed), named⟩

/-- The list orders territories, and not the whole world. -/
structure Bounded (R : Locale) (jurisdictions : List String) : Prop where
  named : ordered jurisdictions ≠ []
  listed : ∀ j ∈ ordered jurisdictions, R.normalizeTerritory j ≠ some ""

/-- The layers of the territories an order resolves to. -/
def orderedLayers (R : Locale) (c : OfficeCapabilities) (jurisdictions : List String) :
    List BindingLayer :=
  (Resolving.pass R (some c) (ordered jurisdictions)).resolvedTerritories.flatMap bindingLayersFor

theorem mem_orderedLayers {c : OfficeCapabilities} {jurisdictions : List String} {b : BindingLayer} :
    b ∈ orderedLayers R c jurisdictions ↔ ∃ j ∈ ordered jurisdictions,
      ∃ (territory : Territory R) (office : String), ResolvesTo (some c) j territory office ∧
        b ∈ bindingLayersFor territory := by
  unfold orderedLayers
  simp only [List.mem_flatMap, Resolving.mem_resolvedTerritories]
  constructor
  · rintro ⟨territory, ⟨j, mem, office, resolves⟩, layer⟩
    exact ⟨j, mem, territory, office, resolves, layer⟩
  · rintro ⟨j, mem, territory, office, resolves, layer⟩
    exact ⟨territory, ⟨j, mem, office, resolves⟩, layer⟩

/-- An order of territories is resolved by the two passes, one after the other. -/
theorem resolveRegions_of_bounded {c : OfficeCapabilities} {jurisdictions : List String}
    (bounded : Bounded R jurisdictions) :
    resolveRegions R (some c) (some jurisdictions) =
      ⟨(orderedLayers R c jurisdictions).foldl (addLayer R (some c))
          (Resolving.pass R (some c) (ordered jurisdictions)).regions,
        (Resolving.pass R (some c) (ordered jurisdictions)).deferred, false⟩ := by
  have worldwide : (Resolving.pass R (some c) (ordered jurisdictions)).worldwide = false :=
    Resolving.not_worldwide bounded.listed
  -- the first jurisdiction is a region or is set aside, so the order is not unrestricted
  have restricted : ¬ ((orderedLayers R c jurisdictions).foldl (addLayer R (some c))
      (Resolving.pass R (some c) (ordered jurisdictions)).regions = [] ∧
      (Resolving.pass R (some c) (ordered jurisdictions)).deferred = []) := by
    rintro ⟨noRegion, noDeferral⟩
    obtain ⟨j, mem⟩ := List.exists_mem_of_ne_nil (ordered jurisdictions) bounded.named
    by_cases resolved : ∃ (territory : Territory R) (office : String),
        ResolvesTo (some c) j territory office
    · obtain ⟨territory, office, resolves⟩ := resolved
      have region : office ∈ (orderedLayers R c jurisdictions).foldl (addLayer R (some c))
          (Resolving.pass R (some c) (ordered jurisdictions)).regions :=
        addLayers_grows _ _ (Resolving.mem_regions.mpr ⟨j, mem, territory, resolves⟩)
      rw [noRegion] at region
      cases region
    · have unresolved : ∀ (territory : Territory R) office,
          ¬ ResolvesTo (some c) j territory office :=
        fun territory office resolves => resolved ⟨territory, office, resolves⟩
      obtain ⟨d, aside, -⟩ := Resolving.mem_deferred mem (bounded.listed j mem) unresolved
      rw [noDeferral] at aside
      cases aside
  unfold resolveRegions
  simp only [Option.isSome_some, ↓reduceIte, Option.getD_some]
  simp only [orderedLayers, Resolving.pass, ordered] at restricted worldwide ⊢
  simp only [restricted, worldwide]
  split <;> simp

section

variable {c : OfficeCapabilities} {jurisdictions : List String}

/-- Every region is a name of the provider's. -/
theorem region_ne_empty (bounded : Bounded R jurisdictions) {o : String}
    (mem : o ∈ (resolveRegions R (some c) (some jurisdictions)).regions) : o ≠ "" := by
  rw [resolveRegions_of_bounded bounded] at mem
  obtain mem | ⟨b, -, reached⟩ := mem_addLayers mem
  · obtain ⟨j, -, territory, -, -, -, reached⟩ := Resolving.mem_regions.mp mem
    exact reach_ne_empty reached
  · exact reach_ne_empty reached

theorem layer_settled (bounded : Bounded R jurisdictions) {b : BindingLayer}
    (layer : b ∈ orderedLayers R c jurisdictions) :
    LayerSettled R (some c) (resolveRegions R (some c) (some jurisdictions)).regions b := by
  rw [resolveRegions_of_bounded bounded]
  exact addLayers_settles layer _

/-- The office the plan adds for a national layer is the one the report asks. -/
theorem nationalOffice_of_reach {b : BindingLayer} {t : String}
    (reached : reach (some c) b.office = some t) :
    nationalOffice R (some c) b = R.upper t := by
  have named := reach_ne_empty reached
  obtain ⟨given, -⟩ := Option.filter_eq_some_iff.mp reached
  unfold nationalOffice
  simp only [Option.bind_some] at given ⊢
  cases translate : c.offices.translate with
  | none =>
      rw [translate] at given
      exact congrArg R.upper (Option.some.inj given)
  | some f =>
      rw [translate] at given
      simp only at given
      simp [given, named, Option.filter_some]

/-- Every jurisdiction is set aside, or is a region. -/
theorem jurisdiction_placed (bounded : Bounded R jurisdictions) {j : String}
    (mem : j ∈ ordered jurisdictions) :
    (∃ d ∈ (resolveRegions R (some c) (some jurisdictions)).deferred,
        d.jurisdiction = R.upper j) ∨
      ∃ (territory : Territory R) (office : String), ResolvesTo (some c) j territory office ∧
        office ∈ (resolveRegions R (some c) (some jurisdictions)).regions := by
  rw [resolveRegions_of_bounded bounded]
  by_cases resolved : ∃ (territory : Territory R) (office : String),
      ResolvesTo (some c) j territory office
  · obtain ⟨territory, office, resolves⟩ := resolved
    exact .inr ⟨territory, office, resolves,
      addLayers_grows _ _ (Resolving.mem_regions.mpr ⟨j, mem, territory, resolves⟩)⟩
  · exact .inl (Resolving.mem_deferred mem (bounded.listed j mem)
      fun territory office resolves => resolved ⟨territory, office, resolves⟩)

/-- A layer is disclosed as unsearched only where its own office is out of reach or is not
known to return it. -/
theorem unsearched_layer (bounded : Bounded R jurisdictions) {territory : Territory R}
    (layers : ∀ b ∈ bindingLayersFor territory, b ∈ orderedLayers R c jurisdictions)
    {u : UnsearchedLayer} (unsearched : u ∈ (territoryLayerReport territory
      (resolveRegions R (some c) (some jurisdictions)).regions (some c)).unsearched)
    {t : String} (reached : reach (some c) u.binding.office = some t) :
    layerCoverageFor R (some c) t u.binding.layer ≠ .returns := by
  obtain ⟨binding, missed⟩ := LayerReport.of_unsearched unsearched
  obtain mem | ⟨above, o, mem, returned⟩ := layer_settled bounded (layers _ binding) t reached
  · exact missed t mem (reach_ne_empty reached) (.inr (nationalOffice_of_reach reached).symm)
  · exact absurd returned (missed o mem (region_ne_empty bounded mem) (.inl above))

/-- An office of the list is a region of every longer list, unless it was added for layers
that another region of the longer list returns. -/
theorem office_kept (bounded : Bounded R jurisdictions) {more : List String}
    (boundedMore : Bounded R more) (sub : jurisdictions ⊆ more) {o : String}
    (mem : o ∈ (resolveRegions R (some c) (some jurisdictions)).regions) :
    o ∈ (resolveRegions R (some c) (some more)).regions ∨
      (∀ j ∈ ordered jurisdictions, ∀ territory : Territory R,
        ¬ ResolvesTo (some c) j territory o) ∧
      (∃ b ∈ orderedLayers R c jurisdictions, reach (some c) b.office = some o) ∧
      ∀ b ∈ orderedLayers R c jurisdictions, reach (some c) b.office = some o →
        b.layer ≠ .national ∧ ∃ o' ∈ (resolveRegions R (some c) (some more)).regions,
          layerCoverageFor R (some c) o' b.layer = .returns := by
  by_cases lost : o ∈ (resolveRegions R (some c) (some more)).regions
  · exact .inl lost
  have added : ∀ j ∈ ordered jurisdictions, ∀ territory : Territory R,
      ¬ ResolvesTo (some c) j territory o := by
    intro j mem territory resolves
    apply lost
    rw [resolveRegions_of_bounded boundedMore]
    exact addLayers_grows _ _
      (Resolving.mem_regions.mpr ⟨j, ordered_subset sub mem, territory, resolves⟩)
  refine .inr ⟨added, ?_, ?_⟩
  · rw [resolveRegions_of_bounded bounded] at mem
    obtain first | layer := mem_addLayers mem
    · obtain ⟨j, mem, territory, resolves⟩ := Resolving.mem_regions.mp first
      exact absurd resolves (added j mem territory)
    · exact layer
  · intro b layer reached
    obtain ⟨j, mem, territory, office, resolves, binds⟩ := mem_orderedLayers.mp layer
    have layerMore : b ∈ orderedLayers R c more :=
      mem_orderedLayers.mpr ⟨j, ordered_subset sub mem, territory, office, resolves, binds⟩
    obtain kept | returned := layer_settled boundedMore layerMore o reached
    · exact absurd kept lost
    · exact returned

end

/-- Every jurisdiction is a region or is set aside; what the report discloses the provider
cannot search; and an office drops out of a permuted or longer list only where it stood in
for a layer that another region returns. -/
theorem plan_and_disclosure_agree (R : Locale) (c : OfficeCapabilities) (jurisdictions : List String)
    (bounded : Bounded R jurisdictions) :
    (∀ j ∈ ordered jurisdictions,
      (∃ d ∈ (resolveRegions R (some c) (some jurisdictions)).deferred,
        d.jurisdiction = R.upper j) ∨
      ∃ (territory : Territory R) (office : String), ResolvesTo (some c) j territory office ∧
        office ∈ (resolveRegions R (some c) (some jurisdictions)).regions) ∧
    (∀ j ∈ ordered jurisdictions, ∀ (territory : Territory R) (office : String),
      ResolvesTo (some c) j territory office →
        ∀ u ∈ (territoryLayerReport territory
            (resolveRegions R (some c) (some jurisdictions)).regions (some c)).unsearched,
          ∀ t, reach (some c) u.binding.office = some t →
            layerCoverageFor R (some c) t u.binding.layer ≠ .returns) ∧
    (∀ more, Bounded R more → jurisdictions ⊆ more →
      ∀ o ∈ (resolveRegions R (some c) (some jurisdictions)).regions,
        o ∈ (resolveRegions R (some c) (some more)).regions ∨
          (∀ j ∈ ordered jurisdictions, ∀ territory : Territory R,
            ¬ ResolvesTo (some c) j territory o) ∧
          (∃ b ∈ orderedLayers R c jurisdictions, reach (some c) b.office = some o) ∧
          ∀ b ∈ orderedLayers R c jurisdictions, reach (some c) b.office = some o →
            b.layer ≠ .national ∧ ∃ o' ∈ (resolveRegions R (some c) (some more)).regions,
              layerCoverageFor R (some c) o' b.layer = .returns) := by
  refine ⟨fun j mem => jurisdiction_placed bounded mem, ?_,
    fun more boundedMore sub o mem => office_kept bounded boundedMore sub mem⟩
  · intro j mem territory office resolves u unsearched t reached
    apply unsearched_layer bounded _ unsearched reached
    intro b binds
    exact mem_orderedLayers.mpr ⟨j, mem, territory, office, resolves, binds⟩

/-- A runtime that has no names for regions. -/
def plainLocale : Locale where
  foldMarks := id
  upper := id
  upper_upper := fun _ => rfl
  upper_ne_empty := fun _ h => h
  upper_fixed := fun _ _ => rfl
  lower := id
  lower_lower := fun _ => rfl
  lower_fixed := fun _ _ => rfl
  trim_lower := Text.trim_trim
  regionName := fun _ => none
  canonicalRegion := id

/-- A provider whose search of the EU-wide register returns the international one too. -/
def euWithMadrid : OfficeCapabilities where
  id := some "eu-with-madrid"
  offices :=
    { translate := some fun code => if code ∈ ["US", "DE", "EM", "WO"] then some code else none
      covered := some ["US", "DE", "EM", "WO"]
      layers := fun key =>
        if key = "EM" then some fun layer => if layer = .national then none else some .returns
        else if key = "WO" then some fun layer => if layer = .international then some .returns else none
        else if key = "*" then some fun layer => if layer = .national then some .returns else none
        else none }

def unitedStates : Territory plainLocale := ⟨"US", by decide⟩

theorem plan_and_disclosure_agree_usDe :
    (resolveRegions plainLocale (some euWithMadrid) (some ["US", "DE"])).regions =
      ["US", "DE", "WO", "EM"] ∧
    ∀ u ∈ (territoryLayerReport unitedStates (resolveRegions plainLocale (some euWithMadrid)
        (some ["US", "DE"])).regions (some euWithMadrid)).unsearched,
      ∀ t, reach (some euWithMadrid) u.binding.office = some t →
        layerCoverageFor plainLocale (some euWithMadrid) t u.binding.layer ≠ .returns := by
  have bounded : Bounded plainLocale ["US", "DE"] := ⟨by decide, by decide⟩
  refine ⟨by decide, ?_⟩
  exact (plan_and_disclosure_agree plainLocale euWithMadrid ["US", "DE"] bounded).2.1 "US" (by decide)
    unitedStates "US" ⟨by decide, by decide, by decide, by decide⟩

/-- Ordered the other way round, the same two territories lose an office. -/
theorem permuted_list_loses_an_office :
    ["US", "DE"].Perm ["DE", "US"] ∧ Bounded plainLocale ["US", "DE"] ∧
      Bounded plainLocale ["DE", "US"] ∧
      "WO" ∈ (resolveRegions plainLocale (some euWithMadrid) (some ["US", "DE"])).regions ∧
      "WO" ∉ (resolveRegions plainLocale (some euWithMadrid) (some ["DE", "US"])).regions := by
  exact ⟨by decide, ⟨by decide, by decide⟩, ⟨by decide, by decide⟩, by decide, by decide⟩

end Clearotron
