import Clearotron.Plan.Territories

/-!
# Binding layers

Which registers bind a territory is a fact about the territory. What a search of an office
returns is a fact about the provider, read from its contract, and what the contract does
not establish counts as not searched.
-/

namespace Clearotron

/-- `LAYERS`: the kinds of right that can bind a territory. -/
inductive Layer
  | national
  | regional
  | international
  deriving DecidableEq, Repr

/-- `LAYER_COVERAGE_STATES`. -/
inductive LayerCoverage
  | returns
  | excludes
  | unestablished
  deriving DecidableEq, Repr

structure BindingLayer where
  layer : Layer
  office : String
  why : String
  deriving DecidableEq, Repr

def beneluxMembers : List String := ["NL", "BE", "LU"]

def euMembers : List String :=
  ["AT", "BE", "BG", "CY", "CZ", "DE", "DK", "EE", "ES", "FI", "FR", "GR", "HR", "HU", "IE", "IT",
   "LT", "LU", "LV", "MT", "NL", "PL", "PT", "RO", "SE", "SI", "SK"]

def euOffice : String := "EM"
def woOffice : String := "WO"
def bxOffice : String := "BX"

/-- The layers over the national one. -/
def layersAbove (t : String) : List BindingLayer :=
  (if t ∈ euMembers then
    [⟨.regional, euOffice,
      "an EU trade mark blocks use in " ++ t ++ " without appearing in its national register"⟩]
  else []) ++
  [⟨.international, woOffice,
    if t ∈ euMembers then
      "an international registration designating " ++ t ++ " or the EU binds " ++ t
    else "an international registration designating " ++ t ++ " binds " ++ t⟩]

/-- The national register of each member state, Benelux once. -/
def euNationalLayers : List BindingLayer :=
  (euMembers.map fun m => if m ∈ beneluxMembers then bxOffice else m).eraseDups.map fun office =>
    ⟨.national, office,
      if office = bxOffice then "Benelux (BX) is the national register of three EU members"
      else "a national right in " ++ office ++
        " blocks use there without appearing in the EU-wide register"⟩

/-- The registers that legally bind a territory. -/
def bindingLayersFor {R : Locale} (territory : Territory R) : List BindingLayer :=
  let t := R.upper (Text.trim territory.code)
  if t ∈ beneluxMembers then
    ⟨.national, bxOffice,
      t ++ " has no separate national register — Benelux (BX) is the national register for it"⟩
      :: layersAbove t
  else if t = woOffice then
    [⟨.international, woOffice, "the international register, ordered directly"⟩]
  else if t = euOffice then
    [⟨.regional, euOffice, "the EU-wide register, named by its office code"⟩,
     ⟨.international, woOffice,
      "international registrations designating the EU bind it without a separate EU filing"⟩]
  else if t = "EU" then
    ⟨.regional, euOffice, "the EU-wide register, ordered directly"⟩ :: euNationalLayers ++
    [⟨.international, woOffice,
      "an international registration designating the EU or a member state binds it without a " ++
      "separate filing"⟩]
  else ⟨.national, t, "the national register of " ++ t⟩ :: layersAbove t

/-- The offices of a provider, as its contract has them. -/
structure Offices where
  /-- a code in the provider's vocabulary, where it publishes a translation -/
  translate : Option (String → Option String) := none
  covered : Option (List String) := none
  /-- what a search of an office returns; a state outside the vocabulary is absent -/
  layers : String → Option (Layer → Option LayerCoverage) := fun _ => none

structure OfficeCapabilities where
  id : Option String := none
  regionsRequired : Bool := false
  offices : Offices := {}

/-- What the contract says an office's search returns of a layer. -/
def layerCoverageFor (R : Locale) (capabilities : Option OfficeCapabilities) (officeCode : String)
    (layer : Layer) : LayerCoverage :=
  match capabilities with
  | none => .unestablished
  | some c =>
    let entry := c.offices.layers (R.upper officeCode) <|> c.offices.layers "*"
    (entry.bind (· layer)).getD .unestablished

/-- The office a layer is matched by, in the vocabulary of the offices searched. -/
def nationalOffice (R : Locale) (capabilities : Option OfficeCapabilities) (b : BindingLayer) : String :=
  match capabilities.bind (·.offices.translate) with
  | none => R.upper b.office
  | some translate => R.upper (((translate b.office).filter (· ≠ "")).getD b.office)

structure SearchedLayer where
  binding : BindingLayer
  searchedBy : String
  deriving DecidableEq, Repr

structure UnsearchedLayer where
  binding : BindingLayer
  state : LayerCoverage
  deriving DecidableEq, Repr

structure LayerReport where
  territory : String
  binding : List BindingLayer
  searched : List SearchedLayer
  unsearched : List UnsearchedLayer
  complete : Bool
  deriving Repr

namespace LayerReport

variable (R : Locale) (capabilities : Option OfficeCapabilities)

/-- The offices searched, each once. -/
def offices (searchedOffices : List String) : List String :=
  ((searchedOffices.map R.upper).filter (· ≠ "")).eraseDups

/-- The searched office that reaches a layer. -/
def reachedBy (offices : List String) (b : BindingLayer) : Option String :=
  offices.find? fun o =>
    layerCoverageFor R capabilities o b.layer = .returns ∧
      (b.layer ≠ .national ∨ o = nationalOffice R capabilities b)

/-- Why a layer no office reaches was not searched. -/
def missedState (offices : List String) (b : BindingLayer) : LayerCoverage :=
  if .excludes ∈ offices.map fun o => layerCoverageFor R capabilities o b.layer then .excludes
  else .unestablished

end LayerReport

/-- For one ordered territory: which binding layers the offices searched reach. -/
def territoryLayerReport {R : Locale} (territory : Territory R) (searchedOffices : List String)
    (capabilities : Option OfficeCapabilities) : LayerReport :=
  let binding := bindingLayersFor territory
  let offices := LayerReport.offices R searchedOffices
  let reachedBy := LayerReport.reachedBy R capabilities offices
  let unsearched := (binding.filter fun b => (reachedBy b).isNone).map fun b =>
    ⟨b, LayerReport.missedState R capabilities offices b⟩
  { territory := R.upper territory.code
    binding
    searched := binding.filterMap fun b => (reachedBy b).map fun o => ⟨b, o⟩
    unsearched
    complete := unsearched.isEmpty }

namespace LayerReport

variable {R : Locale} {capabilities : Option OfficeCapabilities} {searchedOffices : List String}

/-- Case does not matter to a contract. -/
theorem layerCoverageFor_upper (o : String) (layer : Layer) :
    layerCoverageFor R capabilities (R.upper o) layer = layerCoverageFor R capabilities o layer := by
  simp [layerCoverageFor, R.upper_upper]

theorem mem_offices {o : String} (mem : o ∈ searchedOffices) (named : o ≠ "") :
    R.upper o ∈ offices R searchedOffices := by
  simp only [offices, List.mem_eraseDups, List.mem_filter, List.mem_map]
  exact ⟨⟨o, mem, rfl⟩, by simpa using R.upper_ne_empty o named⟩

/-- A layer is unsearched only where no office searched is known to return it, the national
one only where its own office is not. -/
theorem of_unsearched {territory : Territory R} {u : UnsearchedLayer}
    (unsearched : u ∈ (territoryLayerReport territory searchedOffices capabilities).unsearched) :
    u.binding ∈ bindingLayersFor territory ∧
      ∀ o ∈ searchedOffices, o ≠ "" →
        u.binding.layer ≠ .national ∨ R.upper o = nationalOffice R capabilities u.binding →
          layerCoverageFor R capabilities o u.binding.layer ≠ .returns := by
  simp only [territoryLayerReport, List.mem_map, List.mem_filter] at unsearched
  obtain ⟨b, ⟨binding, missed⟩, rfl⟩ := unsearched
  refine ⟨binding, fun o mem named own returned => ?_⟩
  have none_found := List.find?_eq_none.mp (Option.isNone_iff_eq_none.mp missed) (R.upper o)
    (mem_offices mem named)
  apply none_found
  simp only [layerCoverageFor_upper, decide_eq_true_eq]
  exact ⟨returned, own⟩

end LayerReport

end Clearotron
