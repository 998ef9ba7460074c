import Clearotron.Grants.Reach

/-!
# What an edit of the grants file changes

An edit changes the rows and the switches of one address. Every other address resolves to the
same person, and the address itself gains or loses what the edit names, as far as the entry
the edit wrote or took away is the one the resolver reads.
-/

namespace Clearotron

namespace Grants

variable {low : LowerCase} {e f email key k t : String} {g g' : Grants} {x : AccessPlace}
  {T T' : Tenant} {entry : UserEntry} {pt : GrantPoint} {points : List GrantPoint}

theorem listed_eq_of_tree (same : g'.tree = g.tree) : listed g' = listed g := by
  have viaTree (g : Grants) : listed g = g.tree.flatMap fun t =>
      (t.2.filter (· ≠ "generic")).map fun a => (a, t.1) := by
    rw [tree, List.flatMap_map, listed]
  rw [viaTree, viaTree, same]

theorem holders_eq_of_tree (same : g'.tree = g.tree) : holders g' = holders g := by
  rw [holders, holders, listed_eq_of_tree same]

theorem keys_eq_of_tree (same : g'.tree = g.tree) : g'.tenants.keys = g.tenants.keys := by
  have viaTree (g : Grants) : g.tenants.keys = g.tree.map Prod.fst := by
    rw [tree, List.map_map, Keyed.keys]
    rfl
  rw [viaTree, viaTree, same]

theorem accounts_eq_of_tree (same : g'.tree = g.tree) (t : String) :
    (g'.tenants.get t).map Tenant.accounts = (g.tenants.get t).map Tenant.accounts := by
  have viaTree (entries : List (String × Tenant)) :
      (entries.lookup t).map Tenant.accounts =
        (entries.map fun t => (t.1, t.2.accounts)).lookup t := by
    induction entries with
    | nil => rfl
    | cons entry rest ih =>
      rw [List.map_cons, List.lookup_cons, List.lookup_cons]
      cases t == entry.1
      · exact ih
      · rfl
  have both := (viaTree g'.tenants.entries).trans ((congrArg (List.lookup t) same).trans
    (viaTree g.tenants.entries).symm)
  exact both

/-- The person of an address comes of the organisations, its switches and its rows. -/
theorem resolvePerson_congr (same : g'.tree = g.tree)
    (switches : switchesOf low (addressOf low email) g'.people =
      switchesOf low (addressOf low email) g.people)
    (rows : rowsOf low (addressOf low email) g' = rowsOf low (addressOf low email) g) :
    resolvePerson low email g' = resolvePerson low email g := by
  unfold resolvePerson
  dsimp only
  rw [switches, rows]
  unfold personOf
  simp only [holders_eq_of_tree same, keys_eq_of_tree same, accounts_eq_of_tree same]

theorem tree_setTenant (get : g.tenants.get t = some T) (accounts : T'.accounts = T.accounts) :
    (g.setTenant t T').tree = g.tree := by
  unfold tree setTenant
  rw [List.map_eq_flatMap, List.map_eq_flatMap]
  exact Keyed.flatMap_write get (by rw [accounts])

theorem rowsOf_setTenant (get : g.tenants.get t = some T)
    (users : T'.users.entries.filter (fun row => covers low f row.1) =
      T.users.entries.filter fun row => covers low f row.1) :
    rowsOf low f (g.setTenant t T') = rowsOf low f g := by
  unfold rowsOf setTenant
  exact Keyed.flatMap_write get (by rw [users])

theorem mem_rowsOf_setTenant {t' : String} : (t', entry) ∈ rowsOf low f (g.setTenant t T') ↔
    (t' ≠ t ∧ (t', entry) ∈ rowsOf low f g) ∨
      (t' = t ∧ ∃ key, (key, entry) ∈ T'.users.entries ∧ covers low f key = true) := by
  rw [mem_rowsOf, mem_rowsOf]
  constructor
  · rintro ⟨U, key, there, row, isCovered⟩
    obtain ⟨rfl, rfl⟩ | ⟨ne, there⟩ := Keyed.mem_set.mp there
    · exact .inr ⟨rfl, key, row, isCovered⟩
    · exact .inl ⟨ne, U, key, there, row, isCovered⟩
  · rintro (⟨ne, U, key, there, row, isCovered⟩ | ⟨rfl, key, row, isCovered⟩)
    · exact ⟨U, key, Keyed.mem_set.mpr (.inr ⟨ne, there⟩), row, isCovered⟩
    · exact ⟨T', key, Keyed.mem_set_self, row, isCovered⟩

/-- A point as a row of a guest list. -/
def pointRow (pt : GrantPoint) : String × UserEntry :=
  (pt.tenant, match pt.account with | none => .whole | some account => .companies [account])

/-- What one edit of the guest lists leaves of a file. -/
structure KeepsOthers (low : LowerCase) (e : String) (g g' : Grants) : Prop where
  tree : g'.tree = g.tree
  people : g'.people = g.people
  others : ∀ f, covers low f e = false → rowsOf low f g' = rowsOf low f g

theorem KeepsOthers.refl : KeepsOthers low e g g := ⟨rfl, rfl, fun _ _ => rfl⟩

theorem KeepsOthers.trans {g₁ : Grants} (first : KeepsOthers low e g g₁)
    (second : KeepsOthers low e g₁ g') : KeepsOthers low e g g' where
  tree := second.tree.trans first.tree
  people := second.people.trans first.people
  others f apart := (second.others f apart).trans (first.others f apart)

/-- A row that is written on a guest list in place of the address's own. -/
theorem setUser (get : g.tenants.get t = some T) :
    KeepsOthers low e g (g.setTenant t { T with users := T.users.set e entry }) where
  tree := tree_setTenant get rfl
  people := rfl
  others _ apart := rowsOf_setTenant get (Keyed.filter_write apart)

/-- What the rows give once a row is written: it says what it said, and more. -/
theorem rowsGive_setUser {holder : Keyed String String} (get : g.tenants.get t = some T)
    (mine : covers low f e = true)
    (adds : RowGives holder (t, entry) x ↔
      (∃ old, T.users.get e = some old ∧ RowGives holder (t, old) x) ∨ RowGives holder (pointRow pt) x) :
    RowsGive holder (rowsOf low f (g.setTenant t { T with users := T.users.set e entry })) x ↔
      RowsGive holder (rowsOf low f g) x ∨ RowGives holder (pointRow pt) x := by
  have there := Keyed.get_eq_some.mp get
  constructor
  · rintro ⟨⟨t', row⟩, mem, gives⟩
    obtain ⟨-, before⟩ | ⟨rfl, key, row', isCovered⟩ := mem_rowsOf_setTenant.mp mem
    · exact .inl ⟨_, before, gives⟩
    · obtain ⟨rfl, rfl⟩ | ⟨-, old⟩ := Keyed.mem_set.mp row'
      · obtain ⟨old, stands, gives⟩ | added := adds.mp gives
        · exact .inl ⟨_, mem_rowsOf.mpr ⟨T, key, there, Keyed.get_eq_some.mp stands, mine⟩, gives⟩
        · exact .inr added
      · exact .inl ⟨_, mem_rowsOf.mpr ⟨T, key, there, old, isCovered⟩, gives⟩
  · have written : (t, entry) ∈
        rowsOf low f (g.setTenant t { T with users := T.users.set e entry }) :=
      mem_rowsOf_setTenant.mpr (.inr ⟨rfl, e, Keyed.mem_set_self, mine⟩)
    rintro (⟨⟨t', row⟩, mem, gives⟩ | added)
    · obtain ⟨U, key, there', row', isCovered⟩ := mem_rowsOf.mp mem
      by_cases other : t' = t
      · subst other
        obtain rfl := Keyed.value_unique there there'
        by_cases own : key = e
        · subst own
          exact ⟨_, written, adds.mpr (.inl ⟨row, Keyed.get_eq_some.mpr row', gives⟩)⟩
        · refine ⟨_, mem_rowsOf_setTenant.mpr (.inr ⟨rfl, key, ?_, isCovered⟩), gives⟩
          exact Keyed.mem_set.mpr (.inr ⟨own, row'⟩)
      · exact ⟨_, mem_rowsOf_setTenant.mpr (.inl ⟨other, mem⟩), gives⟩
    · exact ⟨_, written, adds.mpr (.inr added)⟩

theorem rowGives_whole {holder : Keyed String String} (gives : RowGives holder (t, entry) x) :
    RowGives holder (t, .whole) x := by
  cases x with
  | organisation t' =>
    obtain ⟨rfl, rfl⟩ := Prod.mk.inj gives
    rfl
  | company k => exact ⟨gives.1, .inl rfl⟩

theorem rowGives_companies {holder : Keyed String String} {keys : List String} :
    RowGives holder (t, .companies keys) x ↔ ∃ k ∈ keys, x = .company k ∧ holder.get k = some t := by
  cases x with
  | organisation t' => simp [RowGives]
  | company k =>
    simp only [RowGives, reduceCtorEq, false_or, UserEntry.companies.injEq, AccessPlace.company.injEq]
    constructor
    · rintro ⟨holds, keys', rfl, mem⟩
      exact ⟨k, mem, rfl, holds⟩
    · rintro ⟨k', mem, rfl, holds⟩
      exact ⟨holds, keys, rfl, mem⟩

/-- A point is added and nothing else. -/
theorem givePoint_gives (gave : givePoint e g pt = .ok g') :
    KeepsOthers low e g g' ∧
      ∀ holder f x, covers low f e = true →
        (RowsGive holder (rowsOf low f g') x ↔
          RowsGive holder (rowsOf low f g) x ∨ RowGives holder (pointRow pt) x) := by
  obtain ⟨tenant, account⟩ := pt
  unfold givePoint at gave
  dsimp only at gave
  cases get : g.tenants.get tenant with
  | none =>
    rw [get] at gave
    cases gave
  | some T =>
  rw [get] at gave
  dsimp only at gave
  cases account with
  | none =>
    obtain rfl := Except.ok.inj gave
    refine ⟨setUser get, fun holder f x mine => rowsGive_setUser get mine ⟨.inr, ?_⟩⟩
    rintro (⟨old, -, gives⟩ | added)
    · exact rowGives_whole gives
    · exact added
  | some account =>
    dsimp only at gave
    split at gave
    · cases gave
    cases held : T.users.get e with
    | none =>
      rw [held] at gave
      obtain rfl := Except.ok.inj gave
      refine ⟨setUser get, fun holder f x mine => rowsGive_setUser get mine ⟨.inr, ?_⟩⟩
      rintro (⟨old, there, -⟩ | added)
      · rw [held] at there
        cases there
      · exact added
    | some old =>
    rw [held] at gave
    cases old with
    | whole =>
      obtain rfl := Except.ok.inj gave
      have same : KeepsOthers low e g (g.setTenant tenant T) :=
        ⟨tree_setTenant get rfl, rfl, fun f _ => rowsOf_setTenant get rfl⟩
      refine ⟨same, fun holder f x mine => ?_⟩
      rw [rowsOf_setTenant get rfl]
      refine ⟨.inl, fun either => either.elim id fun added => ?_⟩
      have row := mem_rowsOf.mpr
        ⟨T, e, Keyed.get_eq_some.mp get, Keyed.get_eq_some.mp held, mine⟩
      exact ⟨_, row, rowGives_whole added⟩
    | companies keys =>
      obtain rfl := Except.ok.inj gave
      refine ⟨setUser get, fun holder f x mine => rowsGive_setUser get mine ?_⟩
      have merged {k : String} : k ∈ mergeBy id [] (keys ++ [account]) ↔ k ∈ keys ∨ k = account := by
        rw [mem_mergeBy_nil, List.mem_append, List.mem_singleton]
      rw [rowGives_companies]
      constructor
      · rintro ⟨k, mem, is⟩
        obtain old | rfl := merged.mp mem
        · exact .inl ⟨_, held, rowGives_companies.mpr ⟨k, old, is⟩⟩
        · exact .inr (rowGives_companies.mpr ⟨k, List.mem_singleton_self k, is⟩)
      · rintro (⟨old, there, gives⟩ | added)
        · obtain rfl := Option.some.inj (held.symm.trans there)
          obtain ⟨k, mem, is⟩ := rowGives_companies.mp gives
          exact ⟨k, merged.mpr (.inl mem), is⟩
        · obtain ⟨k, mem, is⟩ := rowGives_companies.mp added
          exact ⟨k, merged.mpr (.inr (List.mem_singleton.mp mem)), is⟩

/-- The points are added and nothing else. -/
theorem givePoints_give (gave : points.foldlM (givePoint e) g = .ok g') :
    KeepsOthers low e g g' ∧
      ∀ holder f x, covers low f e = true →
        (RowsGive holder (rowsOf low f g') x ↔
          RowsGive holder (rowsOf low f g) x ∨ ∃ pt ∈ points, RowGives holder (pointRow pt) x) := by
  induction points generalizing g with
  | nil =>
    obtain rfl := Except.ok.inj gave
    exact ⟨.refl, fun holder f x _ => by simp⟩
  | cons pt rest ih =>
    rw [List.foldlM_cons] at gave
    cases one : givePoint e g pt with
    | error message =>
      rw [one] at gave
      cases gave
    | ok g₁ =>
    rw [one] at gave
    obtain ⟨kept, gives⟩ : KeepsOthers low e g g₁ ∧ _ := givePoint_gives one
    obtain ⟨kept', gives'⟩ := ih gave
    refine ⟨kept.trans kept', fun holder f x mine => ?_⟩
    rw [gives' holder f x mine, gives holder f x mine, or_assoc]
    refine or_congr_right ?_
    simp only [List.mem_cons, exists_eq_or_imp]

section Switches

variable {people : Keyed String Switches} {entry : Switches}

/-- An address's switches come of the entries whose keys cover it. -/
theorem switchesOf_congr {people' : Keyed String Switches} (apart : covers low f key = false)
    (same : ∀ p : String → Bool, p key = false →
      people'.entries.filter (fun kv => p kv.1) = people.entries.filter fun kv => p kv.1) :
    switchesOf low f people' = switchesOf low f people := by
  have not : ¬ (low.lower key = f ∨ low.lower key = "*@" ++ domainOf f) := fun either => by
    rw [covers_iff.mpr either] at apart
    cases apart
  have keep (p : String → Bool) (away : p key = false) :
      people'.entries.find? (fun kv => p kv.1) = people.entries.find? fun kv => p kv.1 := by
    rw [← List.head?_filter, ← List.head?_filter, same p away]
  unfold switchesOf spelled
  rw [keep (fun k => decide (low.lower k = f)) (by simpa using fun same => not (.inl same)),
    keep (fun k => decide (low.lower k = "*@" ++ domainOf f))
      (by simpa using fun same => not (.inr same))]

/-- Once an address's switches are written, its first spelling holds them. -/
theorem switchesOf_set_self (lower : low.lower e = e) :
    switchesOf low e (people.set e entry) =
      match spelled low e people with
      | some (k, old) => if k = e then entry else old
      | none => entry := by
  have found := Keyed.find?_write (fun k => decide (low.lower k = e)) people.entries e entry
  rw [lower, decide_eq_true rfl, if_pos rfl] at found
  unfold switchesOf
  have spells : spelled low e (people.set e entry) =
      match spelled low e people with
      | some (k, old) => if k = e then some (e, entry) else some (k, old)
      | none => some (e, entry) := by
    refine found.trans ?_
    unfold spelled
    cases people.entries.find? fun kv => decide (low.lower kv.1 = e) <;> rfl
  rw [spells]
  cases spelled low e people with
  | none => rfl
  | some first =>
    obtain ⟨k, old⟩ := first
    by_cases own : k = e
    · simp [own]
    · simp [own]

end Switches

/-- The resolver, at an address. -/
theorem resolvePerson_eq : resolvePerson low email g =
    if isOneAddress (addressOf low email) then
      personOf (addressOf low email) g (switchesOf low (addressOf low email) g.people)
        (rowsOf low (addressOf low email) g)
    else none := rfl

/-- Nobody: no access to everything, and nothing the guest lists give. -/
theorem resolvePerson_eq_none (one : isOneAddress (addressOf low email) = true) :
    resolvePerson low email g = none ↔
      (switchesOf low (addressOf low email) g.people).everything = false ∧
        ∀ x, reaches low email g x = false := by
  rw [resolvePerson_eq, if_pos one, personOf_eq_none]
  refine and_congr_right fun _ => forall_congr' fun x => ?_
  rw [← Bool.not_eq_true, reaches_iff, one, eq_self, true_and]

/-- An address holds its switches where it reaches something, and else none. -/
theorem heldBy_resolvePerson (one : isOneAddress (addressOf low email) = true)
    {switches : Switches} : heldBy (resolvePerson low email g) = switches ↔
      ((switchesOf low (addressOf low email) g.people).everything = true ∨
          (∃ x, reaches low email g x = true) →
        switchesOf low (addressOf low email) g.people = switches) ∧
      (¬ ((switchesOf low (addressOf low email) g.people).everything = true ∨
          ∃ x, reaches low email g x = true) → {} = switches) := by
  have nobody := resolvePerson_eq_none (g := g) one
  have somebody : resolvePerson low email g = none ↔
      ¬ ((switchesOf low (addressOf low email) g.people).everything = true ∨
        ∃ x, reaches low email g x = true) := by
    rw [nobody, not_or, not_exists, Bool.not_eq_true]
    simp only [Bool.not_eq_true]
  cases is : resolvePerson low email g with
  | none => simp only [somebody.mp is, heldBy, false_implies, not_false_eq_true, true_implies, true_and]
  | some p =>
    have there := not_not.mp (mt somebody.mpr (by rw [is]; simp))
    rw [resolvePerson_eq, if_pos one] at is
    rw [heldBy_personOf is]
    exact ⟨fun same => ⟨fun _ => same, fun none => (none there).elim⟩, fun both => both.1 there⟩

/-- A person without access to everything sees what the guest lists give. -/
theorem sees_resolvePerson {p : Person} (is : resolvePerson low email g = some p)
    (bounded : p.everything = false) : p.sees x = reaches low email g x := by
  have one : isOneAddress (addressOf low email) = true := by
    by_contra not
    rw [resolvePerson_eq, if_neg not] at is
    cases is
  rw [resolvePerson_eq, if_pos one] at is
  have held := heldBy_personOf is
  have bounded' : (switchesOf low (addressOf low email) g.people).everything = false := by
    rw [← held]
    exact bounded
  rw [Bool.eq_iff_iff, sees_personOf is bounded', reaches_iff, one, eq_self, true_and]

end Grants

end Clearotron
