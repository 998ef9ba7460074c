import Clearotron.Neighbourhood.Seeds
import Clearotron.Placement.Run

/-!
# The seeds do not hang on the dominant element

Which elements are seeds is said once, for any choice of the dominant one: the dominant element
itself, and what is neither too short nor too long of the rest. The choice shows where an element
would not have been a seed on its own.
-/

namespace Clearotron.Neighbourhood

open Placement (PlacementText formKey)

/-- Neither too short nor too long for a seed. -/
def InBounds (n : String) : Prop := 2 ≤ n.length ∧ n.length ≤ maxSeedLength

/-- The elements that are seeds. -/
def Seeding.elements (s : Seeding) : List String := s.seeds.map Seed.element

variable {T : SeedText} {P : PlacementText} {s : Seeding} {role value n d root v : String}
  {guarded : Bool} {values mark : List String} {elements elements' : List NamedElement}
  {e : NamedElement}

theorem guardReason_eq_empty : guardReason T value = "" ↔ InBounds (seedOf T value) := by
  simp only [guardReason, InBounds]
  by_cases empty : seedOf T value = ""
  · rw [if_pos empty, empty]
    exact ⟨fun same => absurd same (by decide), fun bounds => absurd bounds.1 (by decide)⟩
  rw [if_neg empty]
  by_cases short : (seedOf T value).length < 2
  · rw [if_pos short]
    refine ⟨fun same => ?_, fun bounds => absurd bounds.1 (by omega)⟩
    simp at same
  rw [if_neg short]
  by_cases long : maxSeedLength < (seedOf T value).length
  · rw [if_pos long]
    refine ⟨fun same => ?_, fun bounds => absurd bounds.2 (by omega)⟩
    simp at same
  · rw [if_neg long]
    exact ⟨fun _ => ⟨by omega, by omega⟩, fun _ => rfl⟩

theorem InBounds.ne_empty (bounds : InBounds n) : n ≠ "" := by
  rintro rfl
  exact absurd bounds.1 (by decide)

theorem mem_addSeed : n ∈ (addSeed T role guarded s value).elements ↔
    n ∈ s.elements ∨ n = seedOf T value ∧ n ≠ "" ∧ (guarded = true → InBounds n) := by
  unfold addSeed Seeding.elements
  dsimp only
  split
  · rename_i passed
    refine ⟨.inl, ?_⟩
    rintro (old | ⟨rfl, filled, -⟩)
    · exact old
    · exact passed.resolve_left filled
  rename_i fresh
  rw [not_or] at fresh
  split
  · rename_i refused
    refine ⟨.inl, ?_⟩
    rintro (old | ⟨rfl, -, bounds⟩)
    · exact old
    · exact absurd (guardReason_eq_empty.mpr (bounds refused.1)) refused.2
  · rename_i taken
    rw [not_and, not_not] at taken
    rw [List.map_append, List.mem_append, List.map_singleton, List.mem_singleton]
    refine or_congr_right ⟨?_, fun own => own.1⟩
    rintro rfl
    exact ⟨rfl, fresh.1, fun guard => guardReason_eq_empty.mp (taken guard)⟩

theorem mem_addSeeds : n ∈ (values.foldl (addSeed T role true) s).elements ↔
    n ∈ s.elements ∨ InBounds n ∧ ∃ v ∈ values, n = seedOf T v := by
  induction values generalizing s with
  | nil => simp
  | cons v values ih =>
    rw [List.foldl_cons, ih, mem_addSeed]
    constructor
    · rintro ((old | ⟨same, -, bounds⟩) | ⟨bounds, v', mem, same⟩)
      · exact .inl old
      · exact .inr ⟨bounds rfl, v, List.mem_cons_self, same⟩
      · exact .inr ⟨bounds, v', List.mem_cons_of_mem _ mem, same⟩
    · rintro (old | ⟨bounds, v', mem, same⟩)
      · exact .inl (.inl old)
      · obtain rfl | mem := List.mem_cons.mp mem
        · exact .inl (.inr ⟨same, bounds.ne_empty, fun _ => bounds⟩)
        · exact .inr ⟨bounds, v', mem, same⟩

/-- What was rejected stays so. -/
theorem rejected_subset_addSeed :
    s.rejected ⊆ (addSeed T role guarded s value).rejected := by
  unfold addSeed
  dsimp only
  split
  · exact List.Subset.refl _
  split
  · exact List.subset_append_left _ _
  · exact List.Subset.refl _

theorem rejected_subset_addSeeds :
    s.rejected ⊆ (values.foldl (addSeed T role true) s).rejected := by
  induction values generalizing s with
  | nil => exact List.Subset.refl _
  | cons v values ih => exact List.Subset.trans rejected_subset_addSeed ih

/-- A value that something is left of is a seed, or is rejected with the reason. -/
theorem told_addSeed (role : String) (s : Seeding) (filled : seedOf T value ≠ "") :
    seedOf T value ∈ (addSeed T role true s value).elements ∨
      ⟨Text.slice 60 value, role, guardReason T value⟩ ∈
        (addSeed T role true s value).rejected := by
  by_cases bounds : InBounds (seedOf T value)
  · exact .inl (mem_addSeed.mpr (.inr ⟨rfl, filled, fun _ => bounds⟩))
  by_cases old : seedOf T value ∈ s.elements
  · exact .inl (mem_addSeed.mpr (.inl old))
  · right
    have fresh : ¬ (seedOf T value = "" ∨ seedOf T value ∈ s.seeds.map Seed.element) :=
      not_or.mpr ⟨filled, old⟩
    have reason : guardReason T value ≠ "" := fun none' => bounds (guardReason_eq_empty.mp none')
    simp only [addSeed, if_neg fresh, if_pos (And.intro trivial reason)]
    exact List.mem_append_right _ (List.mem_singleton.mpr rfl)

theorem told_addSeeds (role : String) (mem : v ∈ values) (filled : seedOf T v ≠ "") :
    seedOf T v ∈ (values.foldl (addSeed T role true) s).elements ∨
      ⟨Text.slice 60 v, role, guardReason T v⟩ ∈
        (values.foldl (addSeed T role true) s).rejected := by
  induction values generalizing s with
  | nil => cases mem
  | cons v' values ih =>
    rw [List.foldl_cons]
    obtain rfl | mem := List.mem_cons.mp mem
    · obtain seed | rejected := told_addSeed role s filled
      · exact .inl (mem_addSeeds.mpr (.inl seed))
      · exact .inr (rejected_subset_addSeeds rejected)
    · exact ih mem

/-- A reason ends in another letter than the one of a value that is left with nothing. -/
def EndsOtherwise (reason : String) : Prop := reason.toList.getLast? ≠ some 'n'

theorem EndsOtherwise.ne (ends : EndsOtherwise n) : n ≠ "empty after normalization" := by
  rintro rfl
  exact ends (by decide)

theorem endsOtherwise_ofList {l : List Char} (ends : l.getLast? ≠ some 'n') :
    EndsOtherwise (String.ofList l) := by rwa [EndsOtherwise, String.toList_ofList]

theorem endsOtherwise_append {a : String} {l : List Char} (filled : l ≠ [])
    (ends : l.getLast? ≠ some 'n') : EndsOtherwise (a ++ String.ofList l) := by
  rwa [EndsOtherwise, String.toList_append, String.toList_ofList,
    List.getLast?_append_of_ne_nil _ filled]

theorem endsOtherwise_guardReason (filled : seedOf T value ≠ "") :
    EndsOtherwise (guardReason T value) := by
  simp only [guardReason, if_neg filled]
  split
  · exact endsOtherwise_append (by decide) (by decide)
  split
  · exact endsOtherwise_append (by decide) (by decide)
  · exact endsOtherwise_ofList (by decide)

theorem endsOtherwise_noSeedReason (mark : List String) : EndsOtherwise (noSeedReason T mark) := by
  simp only [noSeedReason]
  split
  · exact endsOtherwise_ofList (by decide)
  split
  · exact endsOtherwise_append (by decide) (by decide)
  · exact endsOtherwise_append (by decide) (by decide)

theorem endsOtherwise_addSeed (all : ∀ r ∈ s.rejected, EndsOtherwise r.reason) :
    ∀ r ∈ (addSeed T role guarded s value).rejected, EndsOtherwise r.reason := by
  unfold addSeed
  dsimp only
  split
  · exact all
  rename_i fresh
  split
  · intro r mem
    obtain old | new := List.mem_append.mp mem
    · exact all r old
    · obtain rfl := List.mem_singleton.mp new
      exact endsOtherwise_guardReason (not_or.mp fresh).1
  · exact all

theorem endsOtherwise_addSeeds (all : ∀ r ∈ s.rejected, EndsOtherwise r.reason) :
    ∀ r ∈ (values.foldl (addSeed T role true) s).rejected, EndsOtherwise r.reason := by
  induction values generalizing s with
  | nil => exact all
  | cons v values ih => exact ih (endsOtherwise_addSeed all)

/-- The value of an element that the manifest calls distinctive. -/
theorem mem_distinctiveValues : v ∈ distinctiveValues T elements ↔
    v ≠ "" ∧ ∃ e ∈ elements, isDistinctive T e = true ∧ Text.trim e.value = v := by
  simp only [distinctiveValues, mem_sortedSet, List.mem_filter, List.mem_map, decide_eq_true_eq]
  constructor
  · rintro ⟨⟨e, ⟨mem, own⟩, same⟩, filled⟩
    exact ⟨filled, e, mem, own, same⟩
  · rintro ⟨filled, e, mem, own, same⟩
    exact ⟨⟨e, ⟨mem, own⟩, same⟩, filled⟩

theorem seedOf_trim (value : String) : seedOf T (Text.trim value) = seedOf T value := T.trims value

/-- The stem is measured against every element alike, the dominant one among them. -/
theorem isStem_iff (named : d ∈ distinctiveValues T elements) :
    isStemOfNamedElement T root d elements = true ↔ seedOf T root ≠ "" ∧
      ((∀ e ∈ elements, seedOf T e.value = "") ∨ ∃ e ∈ elements, seedOf T e.value ≠ "" ∧
        (seedOf T root).length ≤ (seedOf T e.value).length) := by
  obtain ⟨-, e₀, mem₀, -, rfl⟩ := mem_distinctiveValues.mp named
  simp only [isStemOfNamedElement, Bool.and_eq_true, Bool.or_eq_true, decide_eq_true_eq,
    List.any_eq_true, List.mem_filter, List.map_cons, List.mem_cons, List.map_map,
    List.filter_eq_nil_iff, List.mem_map, seedOf_trim]
  refine and_congr_right fun _ => or_congr ?_ ?_
  · constructor
    · intro none' e mem
      by_contra filled
      exact none' _ (.inr ⟨e, mem, rfl⟩) filled
    · rintro none' n (rfl | ⟨e, mem, rfl⟩)
      · exact fun filled => filled (none' e₀ mem₀)
      · exact fun filled => filled (none' e mem)
  · constructor
    · rintro ⟨n, ⟨rfl | ⟨e, mem, rfl⟩, filled⟩, fits⟩
      · exact ⟨e₀, mem₀, filled, fits⟩
      · exact ⟨e, mem, filled, fits⟩
    · rintro ⟨e, mem, filled, fits⟩
      exact ⟨seedOf T e.value, ⟨.inr ⟨e, mem, rfl⟩, filled⟩, fits⟩

/-- The seeds that the manifest names with this dominant element. -/
theorem mem_manifestSeeds (named : d ∈ distinctiveValues T elements) :
    n ∈ (manifestSeeds T d root false elements).elements ↔ (n = seedOf T d ∧ n ≠ "") ∨
      InBounds n ∧ ((n = seedOf T root ∧ isStemOfNamedElement T root d elements = true) ∨
        ∃ v ∈ distinctiveValues T elements, n = seedOf T v) := by
  have filled := (mem_distinctiveValues.mp named).1
  simp only [manifestSeeds, if_pos filled]
  rw [mem_addSeeds]
  have none' : n ∉ ({} : Seeding).elements := by simp [Seeding.elements]
  have first : n ∈ (addSeed T "dominant" false {} d).elements ↔ n = seedOf T d ∧ n ≠ "" := by
    rw [mem_addSeed]
    simp [none']
  split
  · rename_i rooted
    rw [mem_addSeed, first]
    constructor
    · rintro ((own | ⟨same, -, bounds⟩) | ⟨bounds, own⟩)
      · exact .inl own
      · exact .inr ⟨bounds rfl, .inl ⟨same, rooted.2.2.2⟩⟩
      · exact .inr ⟨bounds, .inr own⟩
    · rintro (own | ⟨bounds, ⟨same, -⟩ | own⟩)
      · exact .inl (.inl own)
      · exact .inl (.inr ⟨same, bounds.ne_empty, fun _ => bounds⟩)
      · exact .inr ⟨bounds, own⟩
  · rename_i unrooted
    rw [first]
    constructor
    · rintro (own | ⟨bounds, own⟩)
      · exact .inl own
      · exact .inr ⟨bounds, .inr own⟩
    · rintro (own | ⟨bounds, ⟨same, stem⟩ | own⟩)
      · exact .inl own
      · -- the root is the dominant element, or is no root
        refine .inl ⟨?_, bounds.ne_empty⟩
        by_contra other
        have rootFilled : seedOf T root ≠ "" := same ▸ bounds.ne_empty
        refine unrooted ⟨?_, rootFilled, fun same' => other (same.trans same'), stem⟩
        rintro rfl
        exact rootFilled (normalizeElement_plain (by simp))
      · exact .inr ⟨bounds, own⟩

/-- The seeds of a manifest with this dominant element. -/
def seedsWith (T : SeedText) (proseDominant root : String) (mark : List String)
    (elements : List NamedElement) (d : String) : FloorSeeds :=
  floorSeeds T proseDominant root (some ⟨d, elements⟩) mark

theorem elements_seedsWith (proseDominant root : String) (mark : List String)
    (named : d ∈ distinctiveValues T elements) {dominant : String} (same : Text.trim dominant = d)
    (filled : seedOf T d ≠ "") :
    (seedsWith T proseDominant root mark elements dominant).elements =
      (manifestSeeds T d root false elements).elements ∧
    (seedsWith T proseDominant root mark elements dominant).rejected =
      (manifestSeeds T d root false elements).rejected := by
  have some' := (mem_distinctiveValues.mp named).1
  have own : seedOf T d ∈ (manifestSeeds T d root false elements).elements :=
    (mem_manifestSeeds named).mpr (.inl ⟨rfl, filled⟩)
  have seeds : (manifestSeeds T d root false elements).seeds ≠ [] := by
    intro none'
    rw [Seeding.elements, none'] at own
    cases own
  simp only [seedsWith, floorSeeds, Option.map_some, Option.getD_some, same, if_pos some',
    decide_eq_false some', if_pos seeds, and_self]

/-- A seed is the dominant element, or neither too short nor too long. -/
theorem bounds_of_seed (named : d ∈ distinctiveValues T elements) {dominant proseDominant : String}
    (same : Text.trim dominant = d)
    (mem : n ∈ (seedsWith T proseDominant root mark elements dominant).elements) :
    n ≠ "" ∧ (n = seedOf T d ∨ InBounds n) := by
  have some' := (mem_distinctiveValues.mp named).1
  simp only [seedsWith, floorSeeds, Option.map_some, Option.getD_some, same, if_pos some',
    decide_eq_false some'] at mem
  have ofManifest : n ∈ (manifestSeeds T d root false elements).elements →
      n ≠ "" ∧ (n = seedOf T d ∨ InBounds n) := by
    intro mem
    obtain ⟨own, filled⟩ | ⟨bounds, -⟩ := (mem_manifestSeeds named).mp mem
    · exact ⟨filled, .inl own⟩
    · exact ⟨bounds.ne_empty, .inr bounds⟩
  split at mem
  · exact ofManifest mem
  split at mem
  · have mem' : n ∈ ((markSeedTokens T mark).foldl (addSeed T "mark-token" true)
        (manifestSeeds T d root false elements)).elements := mem
    obtain old | ⟨bounds, -⟩ := mem_addSeeds.mp mem'
    · exact ofManifest old
    · exact ⟨bounds.ne_empty, .inr bounds⟩
  · simp [Seeding.elements] at mem

theorem endsOtherwise_manifestSeeds :
    ∀ r ∈ (manifestSeeds T d root guarded elements).rejected, EndsOtherwise r.reason := by
  have none' : ∀ r ∈ ({} : Seeding).rejected, EndsOtherwise r.reason := fun _ mem => by cases mem
  simp only [manifestSeeds]
  refine endsOtherwise_addSeeds ?_
  split <;> split
  · exact endsOtherwise_addSeed (endsOtherwise_addSeed none')
  · exact endsOtherwise_addSeed none'
  · exact endsOtherwise_addSeed none'
  · exact none'

/-- No rejected element has the reason of a value that is left with nothing. -/
theorem endsOtherwise_seedsWith {dominant proseDominant : String} :
    ∀ r ∈ (seedsWith T proseDominant root mark elements dominant).rejected,
      EndsOtherwise r.reason := by
  simp only [seedsWith, floorSeeds]
  generalize is : manifestSeeds T _ _ _ _ = named
  have all : ∀ r ∈ named.rejected, EndsOtherwise r.reason := is ▸ endsOtherwise_manifestSeeds
  split
  · exact all
  split
  · exact endsOtherwise_addSeeds all
  · intro r mem
    obtain old | new := List.mem_append.mp mem
    · exact endsOtherwise_addSeeds all r old
    · obtain rfl := List.mem_singleton.mp new
      exact endsOtherwise_noSeedReason mark

/-- What is kept when the variants of a model are joined to the floor. -/
structure MergeKeeps (P : PlacementText) (families : List FloorFamily)
    (variants : Option (List Proposed)) (rejected : List RejectedSeed) : Prop where
  floor : (mergeVariantFloor P families variants rejected).floorFamilies = families
  /-- each variant is in one of the lists, and once -/
  placed : ∀ v ∈ variants.getD [], v.value ≠ "" →
    formKey P v.value ∈
      (mergeVariantFloor P families variants rejected).modelRestatements.map (formKey P ·.value) ++
      (mergeVariantFloor P families variants rejected).modelAdditions.map (formKey P ·.value)
  once : ((mergeVariantFloor P families variants rejected).modelRestatements.map
      (formKey P ·.value) ++
    (mergeVariantFloor P families variants rejected).modelAdditions.map (formKey P ·.value)).Nodup

theorem formKey_ne_empty (filled : Text.trim value ≠ "") : formKey P value ≠ "" := by
  unfold formKey
  dsimp only
  split
  · exact filled
  · rename_i some'
    intro none'
    exact some' (by simpa using congrArg String.toList none')

theorem Proposed.trim_value (v : Proposed) : Text.trim v.value = v.value := by
  cases v with
  | text s => exact Text.trim_trim s
  | entry value category => exact Text.trim_trim _

theorem firstProposed_spec (seen : List String) (vs : List Proposed) :
    (∀ v ∈ vs, v.value ≠ "" → formKey P v.value ∈ seen ∨
      ∃ u ∈ firstProposed P seen vs, formKey P u.value = formKey P v.value) ∧
    (∀ u ∈ firstProposed P seen vs, formKey P u.value ∉ seen) ∧
    ((firstProposed P seen vs).map (formKey P ·.value)).Nodup := by
  induction vs generalizing seen with
  | nil => simp [firstProposed]
  | cons v vs ih =>
    rw [firstProposed]
    split
    · rename_i passed
      obtain ⟨covers, fresh, once⟩ := ih seen
      refine ⟨fun u mem filled => ?_, fresh, once⟩
      obtain rfl | mem := List.mem_cons.mp mem
      · obtain empty | empty | old := passed
        · exact absurd empty filled
        · exact absurd empty (formKey_ne_empty (by rwa [Proposed.trim_value]))
        · exact .inl old
      · exact covers u mem filled
    · rename_i taken
      obtain ⟨covers, fresh, once⟩ := ih (formKey P v.value :: seen)
      simp only [not_or] at taken
      refine ⟨fun u mem filled => ?_, fun u mem => ?_, ?_⟩
      · obtain rfl | mem := List.mem_cons.mp mem
        · exact .inr ⟨u, List.mem_cons_self, rfl⟩
        · obtain old | ⟨w, there, same⟩ := covers u mem filled
          · obtain same | old := List.mem_cons.mp old
            · exact .inr ⟨v, List.mem_cons_self, same.symm⟩
            · exact .inl old
          · exact .inr ⟨w, List.mem_cons_of_mem _ there, same⟩
      · obtain rfl | mem := List.mem_cons.mp mem
        · exact taken.2.2
        · exact fun old => fresh u mem (List.mem_cons_of_mem _ old)
      · rw [List.map_cons, List.nodup_cons]
        refine ⟨fun again => ?_, once⟩
        obtain ⟨u, mem, same⟩ := List.mem_map.mp again
        exact fresh u mem (same ▸ List.mem_cons_self)

theorem mergeKeeps (P : PlacementText) (families : List FloorFamily)
    (variants : Option (List Proposed)) (rejected : List RejectedSeed) :
    MergeKeeps P families variants rejected := by
  obtain ⟨covers, -, once⟩ := firstProposed_spec (P := P) [] (variants.getD [])
  have restated : (mergeVariantFloor P families variants rejected).modelRestatements.map
      (formKey P ·.value) = ((firstProposed P [] (variants.getD [])).filter
        fun v => (floorHit P families v).isSome).map (formKey P ·.value) := by
    simp only [mergeVariantFloor]
    generalize firstProposed P [] (variants.getD []) = own
    induction own with
    | nil => rfl
    | cons v own ih =>
      cases hit : floorHit P families v with
      | none =>
        rw [List.filterMap_cons_none (by rw [hit, Option.map_none]),
          List.filter_cons_of_neg (by rw [hit]; decide), ih]
      | some f =>
        rw [List.filterMap_cons_some (by rw [hit, Option.map_some]),
          List.filter_cons_of_pos (by rw [hit]; rfl), List.map_cons, List.map_cons, ih]
  have added : (mergeVariantFloor P families variants rejected).modelAdditions.map
      (formKey P ·.value) = ((firstProposed P [] (variants.getD [])).filter
        fun v => !(floorHit P families v).isSome).map (formKey P ·.value) := by
    simp only [mergeVariantFloor, List.map_map]
    refine congrArg (List.map _) (List.filter_congr fun v _ => ?_)
    cases floorHit P families v <;> rfl
  have parted := List.filter_append_perm (fun v => (floorHit P families v).isSome)
    (firstProposed P [] (variants.getD []))
  refine ⟨rfl, fun v mem filled => ?_, ?_⟩
  · obtain old | ⟨u, there, same⟩ := covers v mem filled
    · cases old
    · rw [restated, added, ← List.map_append, ← same]
      exact List.mem_map_of_mem (parted.mem_iff.mpr there)
  · rw [restated, added, ← List.map_append]
    exact (parted.map _).nodup_iff.mpr once

/-- What the floor promises of a manifest, whichever of its distinctive elements is the dominant
one. -/
structure FloorSteady (T : SeedText) (P : PlacementText) (proseDominant root : String)
    (mark : List String) (elements : List NamedElement) : Prop where
  /-- the seeds are the same in any order and with any other dominant element -/
  same : ∀ elements', elements'.Perm elements → ∀ d d',
    Text.trim d ∈ distinctiveValues T elements → Text.trim d' ∈ distinctiveValues T elements →
    ∀ n, n ∈ (seedsWith T proseDominant root mark elements d).elements ↔
      n ∈ (seedsWith T proseDominant root mark elements' d').elements
  /-- an element that is no seed is rejected with its reason -/
  told : ∀ d, Text.trim d ∈ distinctiveValues T elements → ∀ v ∈ distinctiveValues T elements,
    seedOf T v ∈ (seedsWith T proseDominant root mark elements d).elements ∨
      ∃ r ∈ (seedsWith T proseDominant root mark elements d).rejected,
        r.value = Text.slice 60 v ∧ r.reason = guardReason T v
  merged : ∀ families variants rejected, MergeKeeps P families variants rejected

/-- Something is left of each distinctive element, and one that is too short or too long for a seed
is what every other one comes to. -/
def SeedsFit (T : SeedText) (elements : List NamedElement) : Prop :=
  ∀ v ∈ distinctiveValues T elements, seedOf T v ≠ "" ∧
    (¬ InBounds (seedOf T v) → ∀ v' ∈ distinctiveValues T elements, seedOf T v' = seedOf T v)

theorem mem_distinctiveValues_perm (same : elements'.Perm elements) :
    v ∈ distinctiveValues T elements' ↔ v ∈ distinctiveValues T elements := by
  simp only [mem_distinctiveValues, same.mem_iff]

theorem isStem_perm {d' : String} (same : elements'.Perm elements)
    (named : d ∈ distinctiveValues T elements) (named' : d' ∈ distinctiveValues T elements) :
    isStemOfNamedElement T root d elements = isStemOfNamedElement T root d' elements' := by
  rw [Bool.eq_iff_iff, isStem_iff named, isStem_iff ((mem_distinctiveValues_perm same).mpr named')]
  simp only [same.mem_iff]

/-- A seed of one choice is a seed of the other. -/
theorem seed_of_other_choice (fit : SeedsFit T elements) {d d' : String}
    (same : elements'.Perm elements) (named : d ∈ distinctiveValues T elements)
    (named' : d' ∈ distinctiveValues T elements)
    (mem : n ∈ (manifestSeeds T d root false elements).elements) :
    n ∈ (manifestSeeds T d' root false elements').elements := by
  rw [mem_manifestSeeds ((mem_distinctiveValues_perm same).mpr named'),
    ← isStem_perm same named named']
  simp only [mem_distinctiveValues_perm same]
  obtain ⟨rfl, filled⟩ | seed := (mem_manifestSeeds named).mp mem
  · by_cases bounds : InBounds (seedOf T d)
    · exact .inr ⟨bounds, .inr ⟨d, named, rfl⟩⟩
    · exact .inl ⟨((fit d named).2 bounds d' named').symm, filled⟩
  · exact .inr seed

/-- The floor does not hang on the dominant element exactly where each distinctive element fits as
a seed. -/
theorem floor_steady_iff (T : SeedText) (P : PlacementText) (proseDominant root : String)
    (mark : List String) (elements : List NamedElement) :
    FloorSteady T P proseDominant root mark elements ↔ SeedsFit T elements := by
  constructor
  · intro steady v named
    have trimmed : Text.trim v = v := by
      obtain ⟨-, e, -, -, rfl⟩ := mem_distinctiveValues.mp named
      exact Text.trim_trim _
    have own : Text.trim v ∈ distinctiveValues T elements := trimmed.symm ▸ named
    have filled : seedOf T v ≠ "" := by
      intro empty
      obtain seed | ⟨r, mem, -, reason⟩ := steady.told v own v named
      · exact (bounds_of_seed named trimmed seed).1 empty
      · refine (endsOtherwise_seedsWith r mem).ne (reason.trans ?_)
        simp only [guardReason, if_pos empty]
    refine ⟨filled, fun bounds v' named' => ?_⟩
    have trimmed' : Text.trim v' = v' := by
      obtain ⟨-, e, -, -, rfl⟩ := mem_distinctiveValues.mp named'
      exact Text.trim_trim _
    have seed : seedOf T v ∈ (seedsWith T proseDominant root mark elements v).elements := by
      rw [(elements_seedsWith _ _ _ named trimmed filled).1]
      exact (mem_manifestSeeds named).mpr (.inl ⟨rfl, filled⟩)
    have seed' := (steady.same elements (List.Perm.refl _) v v' own (trimmed'.symm ▸ named') _).mp
      seed
    exact ((bounds_of_seed named' trimmed' seed').2.resolve_right bounds).symm
  · intro fit
    refine ⟨fun elements' same d d' named named' n => ?_, fun d named v own => ?_,
      fun families variants rejected => mergeKeeps P families variants rejected⟩
    · rw [(elements_seedsWith _ _ _ named rfl (fit _ named).1).1,
        (elements_seedsWith _ _ _ ((mem_distinctiveValues_perm same).mpr named') rfl
          (fit _ named').1).1]
      have fit' : SeedsFit T elements' := by
        intro v mem
        simp only [mem_distinctiveValues_perm same] at mem ⊢
        exact fit v mem
      exact ⟨seed_of_other_choice fit same named named',
        seed_of_other_choice fit' same.symm ((mem_distinctiveValues_perm same).mpr named')
          ((mem_distinctiveValues_perm same).mpr named)⟩
    · obtain ⟨seeds, rejected⟩ :=
        elements_seedsWith proseDominant root mark named rfl (fit _ named).1
      rw [seeds, rejected]
      simp only [manifestSeeds]
      obtain seed | reject := told_addSeeds "distinctive-element" own (fit v own).1
      · exact .inl seed
      · exact .inr ⟨_, reject, rfl, rfl⟩

/-- A blank is folded to itself, and is no letter of a seed. -/
theorem blank_folds {c : Char} (blank : Text.isSpace c = true) :
    ((foldLetters [c]).map Char.toLower).filter Shape.isPlain = [] := by
  have kept : foldLetter c = [c] := by
    have none' : specialLetters.lookup c = none := by
      refine List.lookup_eq_none_iff.mpr fun p mem => bne_iff_ne.mpr ?_
      rintro rfl
      have apart : ∀ p ∈ specialLetters, Text.isSpace p.1 = false := by decide
      rw [apart p mem] at blank
      cases blank
    rw [foldLetter, none', Option.getD_none]
  have lower : c.toLower = c := by
    refine toLower_of_not_upper fun upper => ?_
    have range := isUpper_iff.mp upper
    simp only [Text.isSpace, Bool.or_eq_true, decide_eq_true_eq, Bool.and_eq_true, List.mem_cons,
      List.not_mem_nil, or_false] at blank
    omega
  have apart : Shape.isPlain c = false := by
    rw [Bool.eq_false_iff]
    intro plain
    have range := isPlain_iff.mp plain
    simp only [Text.isSpace, Bool.or_eq_true, decide_eq_true_eq, Bool.and_eq_true, List.mem_cons,
      List.not_mem_nil, or_false] at blank
    omega
  rw [foldLetters, List.filter_cons]
  split
  · rw [List.filter_nil, List.flatMap_singleton, kept, List.map_singleton, lower,
      List.filter_cons_of_neg (by simp [apart]), List.filter_nil]
  · rfl

theorem blanks_fold {l : List Char} (blank : ∀ c ∈ l, Text.isSpace c = true) :
    ((foldLetters l).map Char.toLower).filter Shape.isPlain = [] := by
  induction l with
  | nil => rfl
  | cons c l ih =>
    have split' : foldLetters (c :: l) = foldLetters [c] ++ foldLetters l := by
      simp only [foldLetters, ← List.flatMap_append, ← List.filter_append, List.singleton_append]
    rw [split', List.map_append, List.filter_append,
      blank_folds (blank c List.mem_cons_self),
      ih fun d mem => blank d (List.mem_cons_of_mem _ mem), List.append_nil]

/-- The letters of ASCII. -/
def plainSeedText : SeedText where
  toFormText := plainFormText
  trims s := by
    obtain ⟨front, back, blank, blank', whole⟩ := Text.exists_trim s
    have letters : ∀ t : String, normalizeElement plainFormText t =
        String.ofList (((foldLetters t.toList).map Char.toLower).filter Shape.isPlain) := by
      intro t
      simp [normalizeElement, Shape.normalizeElement, plainFormText]
    have split' : ∀ a b : List Char, foldLetters (a ++ b) = foldLetters a ++ foldLetters b := by
      simp [foldLetters]
    rw [letters, letters, whole]
    simp only [split', List.map_append, List.filter_append, blanks_fold blank, blanks_fold blank',
      List.nil_append, List.append_nil]

def shortAndLong : List NamedElement := [⟨"distinctive", "x"⟩, ⟨"distinctive", "veltris"⟩]

/-- As the dominant element a single letter is a seed, and beside another one it is not. -/
theorem short_dominant_is_a_seed :
    ¬ FloorSteady plainSeedText Placement.plainText "" "" [] shortAndLong := by
  intro steady
  have plain : ∀ v ∈ ["x", "veltris"], seedOf plainSeedText v = v := by
    intro v mem
    refine normalizeElement_plain fun c inside => ?_
    have all : ["x", "veltris"].all (fun v => v.toList.all Shape.isPlain) = true := by decide
    exact List.all_eq_true.mp (List.all_eq_true.mp all v mem) c inside
  have short : seedOf plainSeedText "x" = "x" := plain "x" (by decide)
  have long : seedOf plainSeedText "veltris" = "veltris" := plain "veltris" (by decide)
  have trims : ∀ v ∈ ["x", "veltris", "distinctive"], Text.trim v = v := by decide
  have distinctive : ∀ e ∈ shortAndLong, isDistinctive plainSeedText e = true := by decide +kernel
  have named : ∀ e ∈ shortAndLong, e.value ∈ distinctiveValues plainSeedText shortAndLong := by
    intro e mem
    refine mem_distinctiveValues.mpr ⟨?_, e, mem, distinctive e mem, ?_⟩
    · revert e
      decide
    · revert e
      decide
  have namedShort := named ⟨"distinctive", "x"⟩ List.mem_cons_self
  have namedLong := named ⟨"distinctive", "veltris"⟩
    (List.mem_cons_of_mem _ List.mem_cons_self)
  have trimShort : Text.trim "x" = "x" := trims "x" (by decide)
  have trimLong : Text.trim "veltris" = "veltris" := trims "veltris" (by decide)
  have seed : "x" ∈ (seedsWith plainSeedText "" "" [] shortAndLong "x").elements := by
    rw [(elements_seedsWith "" "" [] namedShort trimShort (by rw [short]; decide)).1]
    exact (mem_manifestSeeds namedShort).mpr (.inl ⟨short.symm, by decide⟩)
  have seed' := (steady.same shortAndLong (List.Perm.refl _) "x" "veltris"
    (trimShort.symm ▸ namedShort) (trimLong.symm ▸ namedLong) "x").mp seed
  obtain own | bounds := (bounds_of_seed namedLong trimLong seed').2
  · rw [long] at own
    exact absurd own (by decide)
  · exact absurd bounds.1 (by decide)

end Clearotron.Neighbourhood
