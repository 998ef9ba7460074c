import Clearotron.Plan.Regions

/-!
# The product of a list of territories

What a search is sold as follows from the places its list names, each counted once however
it is spelled. What is run over the same list is what `resolveRegions` makes of it, which
reads a worldwide token in another way: here it is no place and is dropped, there it
overrides the places beside it.
-/

namespace Clearotron

/-- The kind of place an entry names. -/
inductive TerritoryTier where
  | worldwide
  | region
  | country
  | unrecognized
  deriving DecidableEq, Repr

/-- `REGION_CODES`: one code for many countries. -/
def regionCodes : List String := ["EU", "WO", "AP", "OA", "BX", "EA", "IB"]

/-- `KNOWN_NON_COUNTRY_CODES`. -/
def knownNonCountryCodes : List String := ["ZZ"]

/-- The tier of a canonical code. -/
def canonicalTier (canonical : String) : TerritoryTier :=
  if canonical = "" then .unrecognized
  else if canonical ∈ regionCodes then .region
  else if canonical ∈ knownNonCountryCodes then .unrecognized
  else if canonical ∈ knownJurisdictionCodes then .country
  else .unrecognized

namespace Locale

variable (R : Locale)

def territoryTier (value : String) : TerritoryTier :=
  match R.normalizeTerritory value with
  | none => .unrecognized
  | some code =>
    if code = "" then .worldwide else canonicalTier (R.canonicalJurisdictionCode code)

/-- What makes two spellings the same place. -/
def territoryKey (value : String) : String :=
  let code := R.normalizeTerritory value
  if code = some "" then ""
  else
    let canonical := R.canonicalJurisdictionCode (code.getD "")
    if canonical = "" then R.upper (Text.trim value) else canonical

end Locale

/-- The scope by tier, each place once and as it was written. -/
structure ScopeTally where
  seen : List String := []
  named : List String := []
  countries : List String := []
  regions : List String := []
  unrecognized : List String := []

/-- One entry of the scope. -/
def ScopeTally.entry (R : Locale) (t : ScopeTally) (entry : String) : ScopeTally :=
  let tier := R.territoryTier entry
  if tier = .worldwide then t
  else if R.territoryKey entry ∈ t.seen then t
  else
    { seen := t.seen ++ [R.territoryKey entry]
      named := t.named ++ [entry]
      countries := if tier = .country then t.countries ++ [entry] else t.countries
      regions := if tier = .region then t.regions ++ [entry] else t.regions
      unrecognized := if tier = .unrecognized then t.unrecognized ++ [entry] else t.unrecognized }

def Locale.tally (R : Locale) (territories : List String) : ScopeTally :=
  territories.foldl (ScopeTally.entry R) {}

/-- The four products, lightest first. -/
inductive Product where
  | knockout
  | global
  | multi
  | full
  deriving DecidableEq, Repr

namespace Product

def id : Product → String
  | knockout => "knockout-search"
  | global => "global-preliminary-search"
  | multi => "multi-country-focus-search"
  | full => "full-country-search"

def name : Product → String
  | knockout => "Knockout search"
  | global => "Global preliminary search"
  | multi => "Multi-country focus search"
  | full => "Full country search"

def pipeline : Product → String
  | knockout => "knockout"
  | global => "clearance"
  | multi => "clearance"
  | full => "clearance"

def geography : Product → String
  | knockout => "worldwide, or any set of territories"
  | global => "worldwide, and nothing else"
  | multi => "a region, or two or more countries"
  | full => "exactly one country"

end Product

def products : List Product := [.knockout, .global, .multi, .full]

section

variable (R : Locale)

/-- The product of an id, none where the build does not know it. -/
def productSpec (id : Option String) : Option Product :=
  products.find? fun p => p.id = R.lower (Text.trim (id.getD ""))

/-- The id of the product a scope is. -/
def productFor (pipeline : Option String) (territories : List String) : Option String :=
  let p := R.lower (Text.trim (pipeline.getD ""))
  if p = "knockout" then some Product.knockout.id
  else if p ≠ "clearance" then none
  else
    let t := R.tally territories
    if t.named = [] then some Product.global.id
    else if t.named.length = 1 ∧ t.countries.length = 1 then some Product.full.id
    else some Product.multi.id

end

/-- `REFUSAL_REASONS`, those a scope is refused for. -/
inductive RefusalReason where
  | worldwideNotOffered
  | narrowingNotOffered
  | regionNotACountry
  | tooManyCountries
  | notEnoughCountries
  | territoryNotRecognized
  deriving DecidableEq, Repr

structure ScopeRefusal where
  reason : RefusalReason
  message : String
  deriving DecidableEq, Repr

/-- What the runtime writes of a text between quotes: `JSON.stringify`. -/
abbrev Stringify := String → String

section

variable (R : Locale) (stringify : Stringify)

def quoteTerritory (value : String) : String := stringify (Text.slice 40 value)

def listOf (entries : List String) : String :=
  ", ".intercalate (entries.map (quoteTerritory stringify))

/-- The product the scope would be. -/
def alternativeTo (spec : Product) (territories : List String) : Option Product :=
  productSpec R (productFor R (some spec.pipeline) territories)

def regionClause (regions : List String) : String :=
  if regions.length = 1 then "is a regional filing system covering many countries, not one country"
  else "are regional filing systems covering many countries, not one country"

def unrecognizedMessage (t : ScopeTally) : String :=
  listOf stringify t.unrecognized ++ " names no country or region this engine recognizes — " ++
    "check the spelling, or use the two-letter country code"

def narrowingMessage (t : ScopeTally) (alt : Option Product) : String :=
  "a " ++ Product.global.name ++ " is worldwide and accepts no narrowing — this request names " ++
    listOf stringify t.named ++ ". Remove the territories to search worldwide, or order a " ++
    alt.elim "" Product.name ++ " over them"

/-- A multi-country search without a territory, or over one country. -/
def multiRefusal (t : ScopeTally) : Option ScopeRefusal :=
  let reads := "a " ++ Product.multi.name ++ " reads " ++ Product.multi.geography
  if t.named = [] then
    some ⟨.worldwideNotOffered, reads ++ " — this request resolves to no territory (worldwide). " ++
      "Name the region or the countries in jurisdictions, or order a " ++ Product.global.name ++
      " to search worldwide"⟩
  else if t.named.length = 1 ∧ t.countries.length = 1 then
    some ⟨.notEnoughCountries, reads ++ " — this request names one country (" ++
      listOf stringify t.countries ++ "). Add another country or name a region, or order a " ++
      Product.full.name ++ " over it"⟩
  else none

/-- A full search over anything but one country. -/
def fullRefusal (t : ScopeTally) : Option ScopeRefusal :=
  let reads := "a " ++ Product.full.name ++ " reads " ++ Product.full.geography
  if t.named = [] then
    some ⟨.worldwideNotOffered, reads ++ " — this request resolves to no territory (worldwide). " ++
      "Name ONE country in jurisdictions (e.g. [\"United States\"]), or order a " ++
      Product.global.name ++ " to search worldwide"⟩
  else if t.regions ≠ [] then
    some ⟨.regionNotACountry, reads ++ ", and " ++ listOf stringify t.regions ++ " " ++
      regionClause t.regions ++ ". Name one of its countries, or order a " ++ Product.multi.name ++
      " over the region"⟩
  else if t.countries.length > 1 then
    some ⟨.tooManyCountries, reads ++ " — this request names " ++ toString t.countries.length ++
      " (" ++ listOf stringify t.countries ++ "). Keep ONE and run one search per country, " ++
      "or order a " ++ Product.multi.name ++ " over them"⟩
  else none

/-- Is the scope legal for the product? None where it is. -/
def checkProductScope (product : Option String) (territories : List String) :
    Option ScopeRefusal :=
  let t := R.tally territories
  -- an entry that names nowhere is refused whatever was bought
  if t.unrecognized ≠ [] then some ⟨.territoryNotRecognized, unrecognizedMessage stringify t⟩
  else
    match productSpec R product with
    | none => none
    | some .knockout => none
    | some .global =>
      if t.named = [] then none
      else some ⟨.narrowingNotOffered,
        narrowingMessage stringify t (alternativeTo R .global territories)⟩
    | some .multi => multiRefusal stringify t
    | some .full => fullRefusal stringify t

end

namespace Locale

variable {R : Locale} {value : String}

theorem territoryTier_worldwide :
    R.territoryTier value = .worldwide ↔ R.normalizeTerritory value = some "" := by
  have notWorldwide (canonical : String) : canonicalTier canonical ≠ .worldwide := by
    unfold canonicalTier
    repeat' split
    all_goals simp
  unfold territoryTier
  cases R.normalizeTerritory value with
  | none => simp
  | some code =>
      by_cases blank : code = ""
      · simp [blank]
      · simp [blank, notWorldwide]

/-- The tier of a place is the tier of its key. -/
theorem territoryTier_of_key (place : R.territoryTier value ≠ .worldwide)
    (recognized : R.territoryTier value ≠ .unrecognized) :
    R.territoryTier value = canonicalTier (R.territoryKey value) := by
  have typed := mt territoryTier_worldwide.mpr place
  unfold territoryTier at recognized ⊢
  unfold territoryKey
  cases found : R.normalizeTerritory value with
  | none => simp [found] at recognized
  | some code =>
      have named : code ≠ "" := by
        rintro rfl
        exact typed found
      have canonical : R.canonicalJurisdictionCode code ≠ "" := by
        intro blank
        simp [found, named, blank, canonicalTier] at recognized
      simp [named, canonical]

end Locale

/-- What a tally holds of the entries it has read. -/
structure ScopeTally.Holds (R : Locale) (territories : List String) (t : ScopeTally) : Prop where
  seen : t.seen = t.named.map R.territoryKey
  once : t.seen.Nodup
  places : ∀ k, k ∈ t.seen ↔
    ∃ e ∈ territories, R.territoryTier e ≠ .worldwide ∧ R.territoryKey e = k
  among : ∀ e ∈ t.named, e ∈ territories ∧ R.territoryTier e ≠ .worldwide
  countries : t.countries = t.named.filter (R.territoryTier · = .country)
  regions : t.regions = t.named.filter (R.territoryTier · = .region)
  unrecognized : t.unrecognized = t.named.filter (R.territoryTier · = .unrecognized)

section

variable {R : Locale} {territories : List String}

theorem ScopeTally.Holds.entry {t : ScopeTally} (holds : t.Holds R territories) (entry : String) :
    (t.entry R entry).Holds R (territories ++ [entry]) := by
  have grown (e : String) (mem : e ∈ t.named) :
      e ∈ territories ++ [entry] ∧ R.territoryTier e ≠ .worldwide :=
    ⟨List.mem_append_left _ (holds.among e mem).1, (holds.among e mem).2⟩
  unfold ScopeTally.entry
  by_cases worldwide : R.territoryTier entry = .worldwide
  · simp only [worldwide, ↓reduceIte]
    refine { holds with places := fun k => ?_, among := grown }
    simp [holds.places, or_and_right, exists_or, worldwide]
  by_cases already : R.territoryKey entry ∈ t.seen
  · simp only [worldwide, already, ↓reduceIte]
    refine { holds with places := fun k => ?_, among := grown }
    simp only [List.mem_append, List.mem_singleton, or_and_right, exists_or, exists_eq_left,
      ← holds.places]
    refine ⟨.inl, ?_⟩
    rintro (seen | ⟨-, rfl⟩)
    · exact seen
    · exact already
  · simp only [worldwide, already, ↓reduceIte]
    refine ⟨?_, ?_, fun k => ?_, ?_, ?_, ?_, ?_⟩
    · simp [holds.seen]
    · rw [List.nodup_append]
      refine ⟨holds.once, by simp, fun k mem last lone same => already ?_⟩
      exact (List.mem_singleton.mp lone) ▸ same ▸ mem
    · simp only [List.mem_append, List.mem_singleton, or_and_right, exists_or, exists_eq_left,
        ← holds.places]
      exact or_congr_right ⟨fun same => ⟨worldwide, same.symm⟩, fun h => h.2.symm⟩
    · intro e mem
      obtain mem | rfl : e ∈ t.named ∨ e = entry := by simpa using mem
      · exact grown e mem
      · exact ⟨by simp, worldwide⟩
    all_goals simp only [List.filter_append, holds.countries, holds.regions, holds.unrecognized]
    all_goals split <;> simp [*]

theorem scopeTally_holds (R : Locale) (territories : List String) :
    (R.tally territories).Holds R territories := by
  induction territories using List.reverseRecOn with
  | nil => exact ⟨rfl, .nil, by simp [Locale.tally], by simp [Locale.tally], rfl, rfl, rfl⟩
  | append_singleton territories entry ih =>
      have after : R.tally (territories ++ [entry]) = (R.tally territories).entry R entry := by
        simp [Locale.tally]
      rw [after]
      exact ih.entry entry

end

/-- A list the doors let through: every entry names something they recognize. -/
structure Accepted (R : Locale) (territories : List String) : Prop where
  named : ∀ e ∈ territories, Text.trim e ≠ ""
  recognized : ∀ e ∈ territories, R.territoryTier e ≠ .unrecognized

/-- The two lists name the same places, in whatever order and spelling. -/
def SamePlaces (R : Locale) (territories territories' : List String) : Prop :=
  ∀ k, (∃ e ∈ territories, R.territoryTier e ≠ .worldwide ∧ R.territoryKey e = k) ↔
    ∃ e ∈ territories', R.territoryTier e ≠ .worldwide ∧ R.territoryKey e = k

/-- The clearance product of a tally. -/
def ScopeTally.product (t : ScopeTally) : Product :=
  if t.named.length = 0 then .global
  else if t.named.length = 1 ∧ t.countries.length = 1 then .full
  else .multi

namespace Accepted

variable {R : Locale} {territories territories' : List String}

theorem unrecognized (accepted : Accepted R territories) :
    (R.tally territories).unrecognized = [] := by
  have holds := scopeTally_holds R territories
  rw [holds.unrecognized, List.filter_eq_nil_iff]
  intro e mem
  simpa using accepted.recognized e (holds.among e mem).1

theorem tier_of_key (accepted : Accepted R territories) {e : String}
    (mem : e ∈ (R.tally territories).named) :
    R.territoryTier e = canonicalTier (R.territoryKey e) := by
  obtain ⟨listed, place⟩ := (scopeTally_holds R territories).among e mem
  exact Locale.territoryTier_of_key place (accepted.recognized e listed)

/-- The entries of a tier are as many as the keys of it. -/
theorem length_filter (accepted : Accepted R territories) (tier : TerritoryTier) :
    ((R.tally territories).named.filter (R.territoryTier · = tier)).length =
      ((R.tally territories).seen.filter (canonicalTier · = tier)).length := by
  have alike : ∀ e ∈ (R.tally territories).named, decide (R.territoryTier e = tier) =
      ((fun k => decide (canonicalTier k = tier)) ∘ R.territoryKey) e :=
    fun e mem => by simp [accepted.tier_of_key mem]
  rw [(scopeTally_holds R territories).seen, List.filter_map, List.length_map, List.filter_congr alike]

theorem length_named (accepted : Accepted R territories) :
    (R.tally territories).named.length =
      (R.tally territories).countries.length + (R.tally territories).regions.length := by
  have holds := scopeTally_holds R territories
  have otherwise : ∀ e ∈ (R.tally territories).named,
      (!decide (R.territoryTier e = .country)) = decide (R.territoryTier e = .region) := by
    intro e mem
    obtain ⟨listed, place⟩ := holds.among e mem
    have recognized := accepted.recognized e listed
    cases tier : R.territoryTier e <;> simp_all
  rw [holds.countries, holds.regions, ← List.filter_congr otherwise]
  exact List.length_eq_length_filter_add _

/-- The same places are the same counts. -/
theorem counts_of_same (accepted : Accepted R territories) (accepted' : Accepted R territories')
    (same : SamePlaces R territories territories') :
    (R.tally territories').named.length = (R.tally territories).named.length ∧
      (R.tally territories').countries.length = (R.tally territories).countries.length ∧
      (R.tally territories').regions.length = (R.tally territories).regions.length := by
  have holds := scopeTally_holds R territories
  have holds' := scopeTally_holds R territories'
  have keys : (R.tally territories').seen.Perm (R.tally territories).seen := by
    rw [List.perm_ext_iff_of_nodup holds'.once holds.once]
    exact fun k => (holds'.places k).trans ((same k).symm.trans (holds.places k).symm)
  refine ⟨?_, ?_, ?_⟩
  · simpa [holds.seen, holds'.seen] using keys.length_eq
  · rw [holds.countries, holds'.countries, accepted.length_filter, accepted'.length_filter]
    exact (keys.filter _).length_eq
  · rw [holds.regions, holds'.regions, accepted.length_filter, accepted'.length_filter]
    exact (keys.filter _).length_eq

end Accepted

section

variable {R : Locale} {stringify : Stringify} {territories : List String}

/-- A text in plain small letters is not changed by lower-casing. -/
theorem Locale.lower_of_plain (R : Locale) {s : String}
    (plain : (s.toList.all fun c => c.toNat < 128 && !c.isUpper) = true) : R.lower s = s := by
  refine R.lower_fixed s fun c mem => ?_
  have each := List.all_eq_true.mp plain c mem
  simpa using each

theorem productSpec_id (R : Locale) (p : Product) : productSpec R (some p.id) = some p := by
  have fixed : R.lower (Text.trim p.id) = p.id := by
    have trimmed : Text.trim p.id = p.id := by cases p <;> decide +kernel
    rw [trimmed]
    exact R.lower_of_plain (by cases p <;> decide +kernel)
  unfold productSpec
  simp only [Option.getD_some, fixed]
  cases p <;> decide +kernel

theorem productFor_clearance (R : Locale) (territories : List String) :
    productFor R (some "clearance") territories = some (R.tally territories).product.id := by
  have fixed : R.lower (Text.trim "clearance") = "clearance" := by
    have trimmed : Text.trim "clearance" = "clearance" := by decide +kernel
    rw [trimmed]
    exact R.lower_of_plain (by decide +kernel)
  unfold productFor ScopeTally.product
  simp only [Option.getD_some, fixed, ← List.length_eq_zero_iff]
  split
  · rename_i other
    exact absurd other (by decide)
  · simp only [ne_eq, not_true_eq_false, ↓reduceIte]
    split
    · rfl
    · split <;> rfl

/-- Of the reasons, only the counts tell one list from another. -/
def refusalReason (named countries regions : Nat) : Product → Option RefusalReason
  | .knockout => none
  | .global => if named = 0 then none else some .narrowingNotOffered
  | .multi =>
    if named = 0 then some .worldwideNotOffered
    else if named = 1 ∧ countries = 1 then some .notEnoughCountries
    else none
  | .full =>
    if named = 0 then some .worldwideNotOffered
    else if regions ≠ 0 then some .regionNotACountry
    else if countries > 1 then some .tooManyCountries
    else none

theorem checkProductScope_reason (accepted : Accepted R territories) (p : Product) :
    (checkProductScope R stringify (some p.id) territories).map (·.reason) =
      refusalReason (R.tally territories).named.length (R.tally territories).countries.length
        (R.tally territories).regions.length p := by
  unfold checkProductScope
  simp only [accepted.unrecognized, productSpec_id, ne_eq, not_true_eq_false, ↓reduceIte,
    ← List.length_eq_zero_iff]
  cases p with
  | knockout => rfl
  | global =>
      simp only [refusalReason]
      split <;> rfl
  | multi =>
      simp only [multiRefusal, refusalReason, ← List.length_eq_zero_iff]
      split
      · rfl
      · split <;> rfl
  | full =>
      simp only [fullRefusal, refusalReason, ← List.length_eq_zero_iff, ne_eq]
      split
      · rfl
      · split
        · rfl
        · split <;> rfl

/-- The one clearance product a scope is accepted for is the one it is. -/
theorem checkProductScope_accepts (accepted : Accepted R territories) {p : Product}
    (clearance : p.pipeline = "clearance") :
    checkProductScope R stringify (some p.id) territories = none ↔
      p = (R.tally territories).product := by
  rw [← Option.map_eq_none_iff (f := (·.reason)), checkProductScope_reason accepted]
  have counts := accepted.length_named
  unfold ScopeTally.product
  cases p with
  | knockout => exact absurd clearance (by decide)
  | global =>
      simp only [refusalReason]
      grind
  | multi =>
      simp only [refusalReason]
      grind
  | full =>
      simp only [refusalReason]
      grind

end

/-- The runtime folds a name between blanks as it folds the name. -/
def FoldsTrimmed (R : Locale) : Prop :=
  ∀ s, Text.trim (R.upper (R.foldMarks (Text.trim s))) = Text.trim (R.upper (R.foldMarks s))

theorem FoldsTrimmed.normalizeTerritory {R : Locale} (folds : FoldsTrimmed R) (s : String) :
    R.normalizeTerritory (Text.trim s) = R.normalizeTerritory s := by
  let bare (c : Char) : Char := if c = '(' ∨ c = ')' ∨ c = '.' then ' ' else c
  have kept : ∀ c, Text.isSpace c = true → Text.isSpace (bare c) = true := by
    intro c blank
    by_cases token : c = '(' ∨ c = ')' ∨ c = '.'
    · simp only [bare, token, ↓reduceIte]
      decide
    · simpa only [bare, token, ↓reduceIte] using blank
  have strip (s : String) : R.strip s = Text.collapseSpaces (Text.trim (String.ofList
      ((Text.trim (R.upper (R.foldMarks s))).toList.map bare))) := by
    rw [Text.trim_map_trim kept, ← Text.trim_collapseSpaces]
    rfl
  have same : R.strip (Text.trim s) = R.strip s := by
    rw [strip, strip, folds]
  unfold Locale.normalizeTerritory
  rw [same]

/-- The list mixes a worldwide token with a named place. -/
def Mixed (R : Locale) (territories : List String) : Prop :=
  (∃ e ∈ territories, R.territoryTier e = .worldwide) ∧
    ∃ e ∈ territories, R.territoryTier e ≠ .worldwide

section

variable {R : Locale} {capabilities : Option OfficeCapabilities} {territories : List String}

/-- One worldwide token among the entries, and the pass is worldwide. -/
theorem Resolving.worldwide_of_token {raw : List String} {j : String} (mem : j ∈ raw)
    (token : R.normalizeTerritory j = some "") :
    (Resolving.pass R capabilities raw).worldwide = true := by
  induction raw using List.reverseRecOn with
  | nil => cases mem
  | append_singleton raw last ih =>
      rw [Resolving.pass_concat]
      obtain ⟨-, after⟩ | ⟨territory, office, resolves, after⟩ | ⟨bounded, -, after⟩ :=
        Resolving.jurisdiction_cases capabilities (Resolving.pass R capabilities raw) last
      · rw [after]
      · have other : j ≠ last := by
          rintro rfl
          obtain ⟨code, named, -⟩ := resolves
          exact absurd (Option.some.inj (code.symm.trans token)) named
        rw [after]
        exact ih (by simpa [other] using mem)
      · have other : j ≠ last := by
          rintro rfl
          exact bounded token
        rw [after]
        exact ih (by simpa [other] using mem)

theorem resolveRegions_worldwide (sweep : ordered territories = [] ∨
    ∃ j ∈ ordered territories, R.normalizeTerritory j = some "") :
    (resolveRegions R capabilities (some territories)).worldwide = true := by
  have given : (((some territories).getD []).map Text.trim).filter (· ≠ "") =
    ordered territories := rfl
  unfold resolveRegions
  rw [given]
  obtain none | ⟨j, mem, token⟩ := sweep
  · rw [none]
    simp only [List.foldl_nil, List.flatMap_nil, ite_self]
    split
    · split <;> simp
    · simp
  · have worldwide : ((ordered territories).foldl (Resolving.jurisdiction capabilities)
        ({} : Resolving R)).worldwide = true := Resolving.worldwide_of_token mem token
    simp only [worldwide, ↓reduceIte]
    repeat' split
    all_goals rfl

end

/-- The search that is sold is the search that is run. -/
structure SoldIsRun (R : Locale) (stringify : Stringify) (c : OfficeCapabilities)
    (territories : List String) : Prop where
  /-- one clearance product is accepted, and it is the one derived -/
  derived : ∃ p, p.pipeline = "clearance" ∧
    productFor R (some "clearance") territories = some p.id ∧
    ∀ q : Product, q.pipeline = "clearance" →
      (checkProductScope R stringify (some q.id) territories = none ↔ q = p)
  /-- in whatever order, number and spelling the places are named -/
  same : ∀ territories', Accepted R territories' → SamePlaces R territories territories' →
    productFor R (some "clearance") territories' = productFor R (some "clearance") territories ∧
      ∀ q : Product, (checkProductScope R stringify (some q.id) territories').map (·.reason) =
        (checkProductScope R stringify (some q.id) territories).map (·.reason)
  /-- the worldwide product is the worldwide sweep -/
  sweep : productFor R (some "clearance") territories = some Product.global.id ↔
    (resolveRegions R (some c) (some territories)).worldwide = true
  /-- a narrower product has a region or a deferral for every place -/
  placed : productFor R (some "clearance") territories ≠ some Product.global.id →
    ∀ e ∈ territories, R.territoryTier e ≠ .worldwide →
      (∃ d ∈ (resolveRegions R (some c) (some territories)).deferred,
        d.jurisdiction = R.upper (Text.trim e)) ∨
      ∃ (territory : Territory R) (office : String),
        ResolvesTo (some c) (Text.trim e) territory office ∧
          office ∈ (resolveRegions R (some c) (some territories)).regions

section

variable {R : Locale} {stringify : Stringify} {c : OfficeCapabilities} {territories : List String}

theorem product_global :
    productFor R (some "clearance") territories = some Product.global.id ↔
      ∀ e ∈ territories, R.territoryTier e = .worldwide := by
  have holds := scopeTally_holds R territories
  have nowhere : (R.tally territories).named = [] ↔
      ∀ e ∈ territories, R.territoryTier e = .worldwide := by
    constructor
    · intro none e mem
      by_contra place
      have seen := (holds.places _).mpr ⟨e, mem, place, rfl⟩
      simp [holds.seen, none] at seen
    · intro all
      refine List.eq_nil_iff_forall_not_mem.mpr fun e mem => ?_
      obtain ⟨listed, place⟩ := holds.among e mem
      exact place (all e listed)
  rw [productFor_clearance, ← nowhere, ← List.length_eq_zero_iff]
  unfold ScopeTally.product
  split
  · simp [*]
  · split <;> simp [*, Product.id]

/-- Every entry of an accepted list is ordered, as the code reads it. -/
theorem Accepted.mem_ordered (accepted : Accepted R territories) {j : String} :
    j ∈ ordered territories ↔ ∃ e ∈ territories, Text.trim e = j := by
  unfold ordered
  simp only [List.mem_filter, List.mem_map, decide_eq_true_eq]
  constructor
  · exact fun h => h.1
  · rintro ⟨e, mem, rfl⟩
    exact ⟨⟨e, mem, rfl⟩, accepted.named e mem⟩

/-- A list of places, and of nothing else, is a bounded order. -/
theorem Accepted.bounded (folds : FoldsTrimmed R) (accepted : Accepted R territories)
    (named : territories ≠ []) (places : ∀ e ∈ territories, R.territoryTier e ≠ .worldwide) :
    Bounded R territories := by
  refine ⟨?_, ?_⟩
  · obtain ⟨e, mem⟩ := List.exists_mem_of_ne_nil territories named
    exact List.ne_nil_of_mem (accepted.mem_ordered.mpr ⟨e, mem, rfl⟩)
  · intro j mem
    obtain ⟨e, listed, rfl⟩ := accepted.mem_ordered.mp mem
    rw [folds.normalizeTerritory]
    exact mt Locale.territoryTier_worldwide.mpr (places e listed)

/-- The plan sweeps the world where the list names no place, or mixes a token with places. -/
theorem Accepted.worldwide_iff (folds : FoldsTrimmed R) (accepted : Accepted R territories) :
    (resolveRegions R (some c) (some territories)).worldwide = true ↔
      territories = [] ∨ ∃ e ∈ territories, R.territoryTier e = .worldwide := by
  constructor
  · intro worldwide
    by_contra narrower
    simp only [not_or, not_exists, not_and] at narrower
    have bounded := accepted.bounded folds narrower.1 narrower.2
    rw [resolveRegions_of_bounded bounded] at worldwide
    cases worldwide
  · rintro (rfl | ⟨e, mem, token⟩)
    · exact resolveRegions_worldwide (.inl rfl)
    · refine resolveRegions_worldwide (.inr ⟨Text.trim e, accepted.mem_ordered.mpr ⟨e, mem, rfl⟩, ?_⟩)
      rw [folds.normalizeTerritory]
      exact Locale.territoryTier_worldwide.mp token

end

/-- The search that is sold is the one that is run, unless the list mixes a worldwide token
with named places: the product drops the token, and the plan drops the places. -/
theorem sold_is_run (R : Locale) (folds : FoldsTrimmed R) (stringify : Stringify)
    (c : OfficeCapabilities) (territories : List String) (accepted : Accepted R territories) :
    SoldIsRun R stringify c territories ↔ ¬ Mixed R territories := by
  constructor
  · rintro sold ⟨token, e, mem, place⟩
    have worldwide := (accepted.worldwide_iff (c := c) folds).mpr (.inr token)
    exact place (product_global.mp (sold.sweep.mpr worldwide) e mem)
  · intro pure
    -- all the entries are tokens, or all are places
    have tokens : (∀ e ∈ territories, R.territoryTier e = .worldwide) ↔
        territories = [] ∨ ∃ e ∈ territories, R.territoryTier e = .worldwide := by
      constructor
      · intro all
        by_cases none : territories = []
        · exact .inl none
        · obtain ⟨e, mem⟩ := List.exists_mem_of_ne_nil territories none
          exact .inr ⟨e, mem, all e mem⟩
      · rintro (rfl | token) e mem
        · cases mem
        · by_contra place
          exact pure ⟨token, e, mem, place⟩
    refine ⟨⟨(R.tally territories).product, ?_, productFor_clearance R territories, ?_⟩, ?_, ?_, ?_⟩
    · unfold ScopeTally.product
      split
      · rfl
      · split <;> rfl
    · exact fun q clearance => checkProductScope_accepts accepted clearance
    · intro territories' accepted' same
      obtain ⟨named, countries, regions⟩ := accepted.counts_of_same accepted' same
      refine ⟨?_, fun q => ?_⟩
      · rw [productFor_clearance, productFor_clearance, ScopeTally.product, ScopeTally.product, named, countries]
      · rw [checkProductScope_reason accepted', checkProductScope_reason accepted, named, countries,
          regions]
    · rw [product_global, accepted.worldwide_iff folds, tokens]
    · intro narrower e mem _
      have places : ¬ (territories = [] ∨ ∃ e ∈ territories, R.territoryTier e = .worldwide) :=
        fun sweep => narrower (product_global.mpr (tokens.mpr sweep))
      simp only [not_or, not_exists, not_and] at places
      have bounded := accepted.bounded folds places.1 places.2
      exact jurisdiction_placed bounded (accepted.mem_ordered.mpr ⟨e, mem, rfl⟩)

theorem plainLocale_folds : FoldsTrimmed plainLocale := Text.trim_trim

theorem sold_is_run_us :
    SoldIsRun plainLocale id euWithMadrid ["UNITED STATES", "US"] := by
  refine (sold_is_run plainLocale plainLocale_folds id euWithMadrid _ ?_).mpr ?_
  · exact ⟨by decide +kernel, by decide +kernel⟩
  · unfold Mixed
    decide +kernel

/-- Sold as a full search of one country, run over the whole world. -/
theorem worldwide_beside_a_country :
    Accepted plainLocale ["WORLDWIDE", "US"] ∧
      checkProductScope plainLocale id (some Product.full.id) ["WORLDWIDE", "US"] = none ∧
      productFor plainLocale (some "clearance") ["WORLDWIDE", "US"] = some Product.full.id ∧
      resolveRegions plainLocale (some euWithMadrid) (some ["WORLDWIDE", "US"]) = ⟨[], [], true⟩ ∧
      ¬ SoldIsRun plainLocale id euWithMadrid ["WORLDWIDE", "US"] := by
  have product : productFor plainLocale (some "clearance") ["WORLDWIDE", "US"] =
      some Product.full.id := by decide +kernel
  have run : resolveRegions plainLocale (some euWithMadrid) (some ["WORLDWIDE", "US"]) =
      ⟨[], [], true⟩ := by decide +kernel
  refine ⟨⟨by decide +kernel, by decide +kernel⟩, by decide +kernel, product, run, fun sold => ?_⟩
  have global := sold.sweep.mpr (by rw [run])
  rw [product] at global
  exact absurd global (by decide)

end Clearotron
