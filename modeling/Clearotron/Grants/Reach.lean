import Clearotron.Grants.Edit

/-!
# What an address reaches

A place is an organisation, or a company. The rows of the guest lists that match an address
give it places, and the person made of the address reaches these, or everything. What is
reached depends on the rows and on which organisation holds which company, and on nothing else
of the file.
-/

namespace Clearotron

inductive AccessPlace
  | organisation (key : String)
  | company (key : String)
  deriving DecidableEq, Repr

/-- The person sees the place. -/
def Person.sees (p : Person) : AccessPlace → Bool
  | .organisation t => t ∈ p.genericOrgs
  | .company k =>
    match p.accounts with
    | none => true
    | some keys => k ∈ keys

/-- The switches a person holds, and nobody holds none. -/
def heldBy : Option Person → Switches
  | some p => { run := p.run, manage := p.manage, everything := p.everything }
  | none => {}

namespace Grants

variable {low : LowerCase} {e key k t : String} {g g' : Grants} {x : AccessPlace}
  {holder : Keyed String String} {rows : List (String × UserEntry)}

/-- A row of a guest list gives a place: the organisation, or a company it holds. -/
def RowGives (holder : Keyed String String) (row : String × UserEntry) : AccessPlace → Prop
  | .organisation t => row = (t, .whole)
  | .company k => holder.get k = some row.1 ∧
      (row.2 = .whole ∨ ∃ keys, row.2 = .companies keys ∧ k ∈ keys)

def RowsGive (holder : Keyed String String) (rows : List (String × UserEntry)) (x : AccessPlace) : Prop :=
  ∃ row ∈ rows, RowGives holder row x

/-- Each organisation with its companies. -/
def tree (g : Grants) : List (String × List String) :=
  g.tenants.entries.map fun t => (t.1, t.2.accounts)

theorem covers_iff :
    covers low e key = true ↔ low.lower key = e ∨ low.lower key = "*@" ++ domainOf e := by
  unfold covers isPattern
  have split : (low.lower key).toList.take 2 = ['*', '@'] ∧
      String.ofList ((low.lower key).toList.drop 2) = domainOf e ↔
      low.lower key = "*@" ++ domainOf e := by
    constructor
    · rintro ⟨front, back⟩
      have whole := List.take_append_drop 2 (low.lower key).toList
      rw [front] at whole
      rw [← back]
      apply String.toList_injective
      rw [String.toList_append, String.toList_ofList, String.toList_ofList]
      exact whole.symm
    · intro same
      rw [same, String.toList_append]
      exact ⟨rfl, String.ofList_toList⟩
  simp only [Bool.or_eq_true, decide_eq_true_eq, Bool.and_eq_true, split]

theorem isPattern_append (d : String) : isPattern ("*@" ++ d) = true := by
  unfold isPattern
  rw [String.toList_append]
  rfl

/-- A key in lower case that names no domain covers one address. -/
theorem covers_of_plain (lower : low.lower key = key) (plain : isPattern key = false) :
    covers low e key = true ↔ key = e := by
  rw [covers_iff, lower]
  refine or_iff_left fun pattern => ?_
  rw [pattern, isPattern_append] at plain
  cases plain

theorem mem_rowsOf {entry : UserEntry} : (t, entry) ∈ rowsOf low e g ↔
    ∃ T key, (t, T) ∈ g.tenants.entries ∧ (key, entry) ∈ T.users.entries ∧
      covers low e key = true := by
  unfold rowsOf
  rw [List.mem_flatMap]
  constructor
  · rintro ⟨⟨t', T⟩, there, mem⟩
    obtain ⟨⟨key, entry'⟩, kept, same⟩ := List.mem_map.mp mem
    obtain ⟨row, isCovered⟩ := List.mem_filter.mp kept
    obtain ⟨rfl, rfl⟩ := Prod.mk.inj same
    exact ⟨T, key, there, row, isCovered⟩
  · rintro ⟨T, key, there, row, isCovered⟩
    exact ⟨(t, T), there, List.mem_map.mpr ⟨(key, entry), List.mem_filter.mpr ⟨row, isCovered⟩, rfl⟩⟩

theorem get_holders_foldl (entries : List (String × String)) (m : Keyed String String) :
    (entries.foldl (fun held a => if a.1 ∈ held.keys then held else held.set a.1 a.2) m).get k =
      (m.get k).or (entries.lookup k) := by
  induction entries generalizing m with
  | nil => simp
  | cons entry rest ih =>
    obtain ⟨a, t⟩ := entry
    rw [List.foldl_cons, ih]
    by_cases known : a ∈ m.keys
    · rw [if_pos known]
      by_cases same : k = a
      · subst same
        obtain ⟨v, mem⟩ := Keyed.exists_mem_of_mem_keys known
        rw [Keyed.get_eq_some.mpr mem]
        rfl
      · simp [List.lookup_cons, beq_false_of_ne same]
    · rw [if_neg known, Keyed.get_set]
      by_cases same : k = a
      · subst same
        have absent : m.get k = none := by
          cases found : m.get k with
          | none => rfl
          | some v => exact (known (Keyed.mem_keys_of_mem (Keyed.get_eq_some.mp found))).elim
        simp [absent]
      · simp [List.lookup_cons, beq_false_of_ne same, same]

theorem get_holders : (holders g).get k = (listed g).lookup k := by
  unfold holders
  rw [get_holders_foldl]
  rfl

theorem mem_listed : (k, t) ∈ listed g ↔
    ∃ T, (t, T) ∈ g.tenants.entries ∧ k ∈ T.accounts ∧ k ≠ "generic" := by
  unfold listed
  rw [List.mem_flatMap]
  constructor
  · rintro ⟨⟨t', T⟩, there, mem⟩
    obtain ⟨a, kept, same⟩ := List.mem_map.mp mem
    obtain ⟨rfl, rfl⟩ := Prod.mk.inj same
    obtain ⟨held, company⟩ := List.mem_filter.mp kept
    exact ⟨T, there, held, by simpa using company⟩
  · rintro ⟨T, there, held, company⟩
    refine ⟨(t, T), there, List.mem_map.mpr ⟨k, List.mem_filter.mpr ⟨held, ?_⟩, rfl⟩⟩
    simpa using company

/-- The organisation that holds a company lists it. -/
theorem holds_of_holder (holder : (holders g).get k = some t) :
    ∃ T, g.tenants.get t = some T ∧ k ∈ T.accounts := by
  rw [get_holders] at holder
  obtain ⟨front, back, split, -⟩ := List.lookup_eq_some_iff.mp holder
  obtain ⟨T, there, held, -⟩ := mem_listed.mp (by rw [split]; simp : (k, t) ∈ listed g)
  exact ⟨T, Keyed.get_eq_some.mpr there, held⟩

/-- A list without repeats has the same values. -/
theorem mem_mergeBy_nil {xs : List String} : k ∈ mergeBy id [] xs ↔ k ∈ xs := by
  have merged : k ∈ (mergeBy id [] xs).map id ↔ k ∈ [].map id ∨ k ∈ xs.map id := mem_map_mergeBy
  simpa using merged

theorem mem_orgsOf : t ∈ orgsOf rows ↔ (t, .whole) ∈ rows := by
  rw [orgsOf, mem_mergeBy_nil, List.mem_filterMap]
  constructor
  · rintro ⟨⟨t', entry⟩, mem, some'⟩
    obtain ⟨rfl, same⟩ : entry = .whole ∧ t' = t := by simpa using some'
    exact same ▸ mem
  · intro mem
    exact ⟨(t, .whole), mem, by simp⟩

theorem mem_companiesOf : k ∈ companiesOf holder rows ↔
    ∃ t keys, (t, .companies keys) ∈ rows ∧ k ∈ keys ∧ holder.get k = some t := by
  rw [companiesOf, mem_mergeBy_nil, List.mem_flatMap]
  constructor
  · rintro ⟨⟨t, entry⟩, mem, there⟩
    cases entry with
    | whole => cases there
    | companies keys =>
      obtain ⟨listed, holds⟩ := List.mem_filter.mp there
      exact ⟨t, keys, mem, listed, by simpa using holds⟩
  · rintro ⟨t, keys, mem, listed, holds⟩
    exact ⟨(t, .companies keys), mem, List.mem_filter.mpr ⟨listed, by simpa using holds⟩⟩

/-- The rows give nothing exactly when no organisation and no company comes of them. -/
theorem rowsGive_none : (orgsOf rows = [] ∧ companiesOf holder rows = []) ↔
    ∀ x, ¬ RowsGive holder rows x := by
  constructor
  · rintro ⟨orgs, companies⟩ x ⟨⟨t, entry⟩, mem, gives⟩
    have noOrg : (t, UserEntry.whole) ∉ rows := fun whole => by
      have := mem_orgsOf.mpr whole
      rw [orgs] at this
      cases this
    cases x with
    | organisation t' =>
      obtain ⟨rfl, rfl⟩ := Prod.mk.inj gives
      exact noOrg mem
    | company k =>
      obtain ⟨holds, rfl | ⟨keys, rfl, listed⟩⟩ := gives
      · exact noOrg mem
      · have := mem_companiesOf.mpr ⟨t, keys, mem, listed, holds⟩
        rw [companies] at this
        cases this
  · intro none
    refine ⟨List.eq_nil_iff_forall_not_mem.mpr fun t mem => ?_,
      List.eq_nil_iff_forall_not_mem.mpr fun k mem => ?_⟩
    · exact none (.organisation t) ⟨(t, .whole), mem_orgsOf.mp mem, rfl⟩
    · obtain ⟨t, keys, row, listed, holds⟩ := mem_companiesOf.mp mem
      exact none (.company k) ⟨_, row, holds, .inr ⟨keys, rfl, listed⟩⟩

variable {switches : Switches}

theorem personOf_eq_none : personOf e g switches rows = none ↔
    switches.everything = false ∧ ∀ x, ¬ RowsGive (holders g) rows x := by
  rw [← rowsGive_none]
  unfold personOf
  dsimp only
  split
  · rename_i isNone
    exact iff_of_true rfl isNone
  · rename_i isSome
    refine iff_of_false (fun none => ?_) isSome
    split at none <;> cases none

/-- The person holds the switches of the file. -/
theorem heldBy_personOf {p : Person} (is : personOf e g switches rows = some p) :
    heldBy (some p) = switches := by
  unfold personOf at is
  dsimp only at is
  split at is
  · cases is
  · split at is
    · rename_i all
      obtain rfl := Option.some.inj is
      cases switches
      simp_all [heldBy]
    · rename_i some'
      obtain rfl := Option.some.inj is
      cases switches
      simp_all [heldBy]

/-- A person without access to everything sees what the rows give. -/
theorem sees_personOf {p : Person} (is : personOf e g switches rows = some p)
    (bounded : switches.everything = false) :
    p.sees x = true ↔ RowsGive (holders g) rows x := by
  unfold personOf at is
  simp only [bounded, Bool.false_eq_true, if_false] at is
  split at is
  · cases is
  obtain rfl := Option.some.inj is
  cases x with
  | organisation t =>
    simp only [Person.sees, decide_eq_true_eq, mem_orgsOf]
    constructor
    · intro mem
      exact ⟨_, mem, rfl⟩
    · rintro ⟨row, mem, rfl⟩
      exact mem
  | company k =>
    simp only [Person.sees, decide_eq_true_eq, mem_mergeBy_nil, List.mem_append, List.mem_flatMap,
      List.mem_filter]
    constructor
    · rintro (⟨t, org, -, holds⟩ | ⟨company, -⟩)
      · exact ⟨_, mem_orgsOf.mp org, holds, .inl rfl⟩
      · obtain ⟨t, keys, row, listed, holds⟩ := mem_companiesOf.mp company
        exact ⟨_, row, holds, .inr ⟨keys, rfl, listed⟩⟩
    · rintro ⟨⟨t, entry⟩, mem, holds, rfl | ⟨keys, rfl, listed⟩⟩
      · obtain ⟨T, get, held⟩ := holds_of_holder holds
        exact .inl ⟨t, mem_orgsOf.mpr mem, by simpa [get] using held, by simpa using holds⟩
      · by_cases org : t ∈ orgsOf rows
        · obtain ⟨T, get, held⟩ := holds_of_holder holds
          exact .inl ⟨t, org, by simpa [get] using held, by simpa using holds⟩
        · exact .inr ⟨mem_companiesOf.mpr ⟨t, keys, mem, listed, holds⟩, by simp [holds, org]⟩

/-- The guest lists alone. -/
def guests (g : Grants) : Grants := { g with people := .empty }

/-- What the guest lists give an address. -/
def reaches (low : LowerCase) (email : String) (g : Grants) (x : AccessPlace) : Bool :=
  (resolvePerson low email g.guests).any (·.sees x)

theorem reaches_iff {email : String} : reaches low email g x = true ↔
    isOneAddress (addressOf low email) = true ∧
      RowsGive (holders g) (rowsOf low (addressOf low email) g) x := by
  unfold reaches resolvePerson
  dsimp only
  by_cases one : isOneAddress (addressOf low email) = true
  · rw [if_pos one]
    have same : rowsOf low (addressOf low email) g.guests = rowsOf low (addressOf low email) g := rfl
    have hold : holders g.guests = holders g := rfl
    cases is : personOf (addressOf low email) g.guests
        (switchesOf low (addressOf low email) g.guests.people)
        (rowsOf low (addressOf low email) g.guests) with
    | none =>
      refine iff_of_false (by simp) fun both => ?_
      exact (personOf_eq_none.mp is).2 x both.2
    | some p =>
      have sees := sees_personOf (x := x) is rfl
      rw [hold, same] at sees
      simp only [Option.any_some, sees, one, true_and]
  · simp [one]

end Grants

end Clearotron
