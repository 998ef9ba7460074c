import Clearotron.Grants.OnePerson

/-!
# Taking access away

A removal takes the first entry of an address. What it leaves is the other entries that cover
the address: further spellings, and the domain's own.
-/

namespace Clearotron

namespace Grants

variable {low : LowerCase} {e f email other place key k t : String} {g g' : Grants} {x : AccessPlace}
  {T : Tenant} {entry : UserEntry} {pt : GrantPoint} {points : List GrantPoint}
  {users left : Keyed String UserEntry} {row : String × UserEntry}

theorem lower_of_spelled {ν : Type} {m : Keyed String ν} {first : String × ν}
    (found : spelled low e m = some first) : low.lower first.1 = e ∧ first ∈ m.entries := by
  unfold spelled at found
  have holds := List.find?_some found
  exact ⟨of_decide_eq_true holds, List.mem_of_find?_eq_some found⟩

/-- A key that is the address covers whom the address covers. -/
theorem covers_of_lower (lower : low.lower e = e) (same : low.lower key = e) :
    covers low f key = covers low f e := by
  rw [Bool.eq_iff_iff, covers_iff, covers_iff, same, lower]

theorem mem_strike {ν : Type} {m : Keyed String ν} {row : String × ν} :
    row ∈ (strike low e m).entries ↔
      row ∈ m.entries ∧ ∀ first, spelled low e m = some first → row.1 ≠ first.1 := by
  unfold strike
  cases found : spelled low e m with
  | none => simp
  | some first =>
    obtain ⟨key, v⟩ := first
    exact Keyed.mem_erase.trans (by simp)

theorem filter_strike {ν : Type} {m : Keyed String ν} {p : String → Bool}
    (away : ∀ key, low.lower key = e → p key = false) :
    (strike low e m).entries.filter (fun kv => p kv.1) = m.entries.filter fun kv => p kv.1 := by
  unfold strike
  split
  · rename_i key _ found
    exact Keyed.filter_erase (away key (lower_of_spelled found).1)
  · rfl

/-- What one point taken from a guest list leaves of it. -/
structure Takes (low : LowerCase) (e : String) (pt : GrantPoint)
    (users left : Keyed String UserEntry) : Prop where
  others : ∀ f, covers low f e = false →
    left.entries.filter (fun row => covers low f row.1) =
      users.entries.filter fun row => covers low f row.1
  spares : ∀ row ∈ (strike low e users).entries, row ∈ left.entries
  stays : ∀ row ∈ left.entries, row ∈ (strike low e users).entries ∨
    ∃ keys account, pt.account = some account ∧ (row.1, .companies keys) ∈ users.entries ∧
      row.2 = .companies (keys.filter (· ≠ account))
  loses : ∀ row ∈ users.entries, row ∈ left.entries ∨
    ∀ holder x, RowGives holder (pt.tenant, row.2) x → RowGives holder (pointRow pt) x ∨
      ∃ row' ∈ left.entries, low.lower row'.1 = e ∧ RowGives holder (pt.tenant, row'.2) x
  again : ∀ row ∈ (strike low e left).entries, row ∈ (strike low e users).entries

namespace Takes

/-- The address has no entry. -/
theorem absent (none : spelled low e users = none) : Takes low e pt users users := by
  have same : strike low e users = users := by
    unfold strike
    rw [none]
  exact ⟨fun _ _ => rfl, fun _ mem => same ▸ mem, fun _ mem => .inl (same.symm ▸ mem),
    fun _ mem => .inl mem, fun _ mem => mem⟩

/-- The entry is deleted, and the point names all it gave. -/
theorem erase (lower : low.lower e = e) {v : UserEntry} (found : spelled low e users = some (key, v))
    (all : ∀ holder x, RowGives holder (pt.tenant, v) x → RowGives holder (pointRow pt) x) :
    Takes low e pt users (users.erase key) := by
  obtain ⟨isE, mem⟩ := lower_of_spelled found
  have same : strike low e users = users.erase key := by
    unfold strike
    rw [found]
  constructor
  · intro f apart
    exact Keyed.filter_erase ((covers_of_lower lower isE).trans apart)
  · exact fun row mem => same ▸ mem
  · exact fun row mem => .inl (same.symm ▸ mem)
  · rintro ⟨key', v'⟩ there
    by_cases own : key' = key
    · subst own
      obtain rfl := Keyed.value_unique there mem
      exact .inr fun holder x gives => .inl (all holder x gives)
    · exact .inl (Keyed.mem_erase.mpr ⟨there, own⟩)
  · exact fun row mem => same.symm ▸ (mem_strike.mp mem).1

/-- The entry keeps its other companies. -/
theorem narrow (lower : low.lower e = e) {keys : List String} {account : String}
    (found : spelled low e users = some (key, .companies keys)) (named : pt.account = some account) :
    Takes low e pt users (users.set key (.companies (keys.filter (· ≠ account)))) := by
  obtain ⟨isE, mem⟩ := lower_of_spelled found
  have same : strike low e users = users.erase key := by
    unfold strike
    rw [found]
  have spells : spelled low e (users.set key (.companies (keys.filter (· ≠ account)))) =
      some (key, .companies (keys.filter (· ≠ account))) := by
    have written := Keyed.find?_write (fun k => decide (low.lower k = e)) users.entries key
      (.companies (keys.filter (· ≠ account)))
    unfold spelled at found ⊢
    rw [found] at written
    exact written.trans (if_pos rfl)
  constructor
  · intro f apart
    exact Keyed.filter_write ((covers_of_lower lower isE).trans apart)
  · intro row there
    rw [same] at there
    obtain ⟨there, ne⟩ := Keyed.mem_erase.mp there
    exact Keyed.mem_set.mpr (.inr ⟨ne, there⟩)
  · intro row there
    obtain ⟨isKey, isNew⟩ | ⟨ne, there⟩ := Keyed.mem_set.mp there
    · exact .inr ⟨keys, account, named, isKey ▸ mem, isNew⟩
    · exact .inl (same.symm ▸ Keyed.mem_erase.mpr ⟨there, ne⟩)
  · rintro ⟨key', v'⟩ there
    by_cases own : key' = key
    · subst own
      obtain rfl := Keyed.value_unique there mem
      refine .inr fun holder x gives => ?_
      obtain ⟨k, listed, isCompany, holds⟩ := rowGives_companies.mp gives
      by_cases taken : k = account
      · refine .inl ?_
        rw [pointRow, named]
        exact rowGives_companies.mpr ⟨k, by simp [taken], isCompany, holds⟩
      · refine .inr ⟨_, Keyed.mem_set_self, isE, rowGives_companies.mpr ⟨k, ?_, isCompany, holds⟩⟩
        simp [listed, taken]
    · exact .inl (Keyed.mem_set.mpr (.inr ⟨own, there⟩))
  · intro row there
    obtain ⟨there, ne⟩ := mem_strike.mp there
    rw [same]
    obtain ⟨isKey, -⟩ | ⟨ne', there⟩ := Keyed.mem_set.mp there
    · exact (ne _ spells isKey).elim
    · exact Keyed.mem_erase.mpr ⟨there, ne'⟩

end Takes

/-- A point is taken from one guest list. -/
theorem takePoint_takes (lower : low.lower e = e) (took : takePoint low e g pt = .ok g') :
    ∃ T left, g.tenants.get pt.tenant = some T ∧ Takes low e pt T.users left ∧
      g' = g.setTenant pt.tenant { T with users := left } := by
  unfold takePoint at took
  cases get : g.tenants.get pt.tenant with
  | none =>
    rw [get] at took
    cases took
  | some T =>
  rw [get] at took
  dsimp only at took
  cases found : spelled low e T.users with
  | none =>
    rw [found] at took
    obtain rfl := Except.ok.inj took
    refine ⟨T, T.users, rfl, .absent found, ?_⟩
    unfold setTenant
    rw [Keyed.set_self get]
  | some first =>
  obtain ⟨key, v⟩ := first
  rw [found] at took
  dsimp only at took
  cases named : pt.account with
  | none =>
    rw [named] at took
    refine ⟨T, _, rfl, .erase lower found fun holder x gives => ?_, (Except.ok.inj took).symm⟩
    rw [pointRow, named]
    exact rowGives_whole gives
  | some account =>
  rw [named] at took
  cases v with
  | whole => cases took
  | companies keys =>
    dsimp only at took
    obtain rfl := Except.ok.inj took
    by_cases none : keys.filter (· ≠ account) = []
    · refine ⟨T, T.users.erase key, rfl, .erase lower found fun holder x gives => ?_, ?_⟩
      · obtain ⟨k, listed, isCompany, holds⟩ := rowGives_companies.mp gives
        have taken : k = account := by
          by_contra ne
          have there : k ∈ keys.filter (· ≠ account) := by simp [listed, ne]
          rw [none] at there
          cases there
        rw [pointRow, named]
        exact rowGives_companies.mpr ⟨k, by simp [taken], isCompany, holds⟩
      · rw [if_pos none]
    · exact ⟨T, _, rfl, .narrow lower found named, by rw [if_neg none]⟩

/-- No entry but the first that is the address gives what the point names. -/
def Sole (low : LowerCase) (e : String) (g : Grants) (pt : GrantPoint) : Prop :=
  ∀ T, g.tenants.get pt.tenant = some T → ∀ row ∈ (strike low e T.users).entries,
    covers low e row.1 = true → ∀ x, PointGives g pt x → ¬ RowGives (holders g) (pt.tenant, row.2) x

/-- The same of any way to say who holds a company. -/
def SoleRow (low : LowerCase) (e : String) (holder : Keyed String String) (g : Grants)
    (pt : GrantPoint) : Prop :=
  ∀ T, g.tenants.get pt.tenant = some T → ∀ row ∈ (strike low e T.users).entries,
    covers low e row.1 = true → ∀ x, RowGives holder (pointRow pt) x →
      ¬ RowGives holder (pt.tenant, row.2) x

/-- A place is of one organisation. -/
theorem tenant_eq_of_gives {holder : Keyed String String} {v v' : UserEntry} {t t' : String}
    (gives : RowGives holder (t, v) x) (gives' : RowGives holder (t', v') x) : t = t' := by
  cases x with
  | organisation u => exact (Prod.mk.inj gives).1.trans (Prod.mk.inj gives').1.symm
  | company k => exact Option.some.inj (gives.1.symm.trans gives'.1)

section OnePoint

variable {holder : Keyed String String}

/-- What one point taken leaves of a file. -/
structure TakesPoint (low : LowerCase) (e : String) (pt : GrantPoint) (g g' : Grants) : Prop where
  keeps : KeepsOthers low e g g'
  fewer : ∀ holder x, RowsGive holder (rowsOf low e g') x → RowsGive holder (rowsOf low e g) x
  spares : ∀ holder x, RowsGive holder (rowsOf low e g) x → ¬ RowGives holder (pointRow pt) x →
    RowsGive holder (rowsOf low e g') x
  gone : ∀ holder x, SoleRow low e holder g pt → RowGives holder (pointRow pt) x →
    ¬ RowsGive holder (rowsOf low e g') x
  sole : ∀ holder q, SoleRow low e holder g q → SoleRow low e holder g' q
  leaves : ∀ T, g.tenants.get pt.tenant = some T → ∀ row ∈ (strike low e T.users).entries,
    covers low e row.1 = true → (pt.tenant, row.2) ∈ rowsOf low e g'

theorem takesPoint (lower : low.lower e = e) (took : takePoint low e g pt = .ok g') :
    TakesPoint low e pt g g' := by
  obtain ⟨T, left, get, takes, rfl⟩ := takePoint_takes lower took
  have there := Keyed.get_eq_some.mp get
  have mine {key : String} (is : low.lower key = e) : covers low e key = true :=
    covers_iff.mpr (.inl is)
  constructor
  · exact ⟨tree_setTenant get rfl, rfl, fun f apart => rowsOf_setTenant get (takes.others f apart)⟩
  · rintro holder x ⟨⟨t', v⟩, mem, gives⟩
    obtain ⟨-, before⟩ | ⟨rfl, key, row, isCovered⟩ := mem_rowsOf_setTenant.mp mem
    · exact ⟨_, before, gives⟩
    · obtain spared | ⟨keys, account, named, old, isNew⟩ := takes.stays _ row
      · exact ⟨_, mem_rowsOf.mpr ⟨T, key, there, (mem_strike.mp spared).1, isCovered⟩, gives⟩
      · dsimp only at isNew
        subst isNew
        obtain ⟨k, listed, is⟩ := rowGives_companies.mp gives
        exact ⟨_, mem_rowsOf.mpr ⟨T, key, there, old, isCovered⟩,
          rowGives_companies.mpr ⟨k, (List.mem_filter.mp listed).1, is⟩⟩
  · rintro holder x ⟨⟨t', v⟩, mem, gives⟩ unnamed
    obtain ⟨U, key, there', row, isCovered⟩ := mem_rowsOf.mp mem
    by_cases same : t' = pt.tenant
    · subst same
      obtain rfl := Keyed.value_unique there there'
      obtain stays | loses := takes.loses _ row
      · exact ⟨_, mem_rowsOf_setTenant.mpr (.inr ⟨rfl, key, stays, isCovered⟩), gives⟩
      · obtain named | ⟨⟨key', v'⟩, stays, is, gives'⟩ := loses holder x gives
        · exact (unnamed named).elim
        · exact ⟨_, mem_rowsOf_setTenant.mpr (.inr ⟨rfl, key', stays, mine is⟩), gives'⟩
    · exact ⟨_, mem_rowsOf_setTenant.mpr (.inl ⟨same, mem⟩), gives⟩
  · rintro holder x sole named ⟨⟨t', v⟩, mem, gives⟩
    obtain ⟨ne, -⟩ | ⟨rfl, key, row, isCovered⟩ := mem_rowsOf_setTenant.mp mem
    · exact ne (tenant_eq_of_gives gives named)
    · obtain spared | ⟨keys, account, isAccount, -, isNew⟩ := takes.stays _ row
      · exact sole T get _ spared isCovered x named gives
      · dsimp only at isNew
        subst isNew
        obtain ⟨k, listed, isCompany, -⟩ := rowGives_companies.mp gives
        rw [pointRow, isAccount] at named
        obtain ⟨k', isOne, isCompany', -⟩ := rowGives_companies.mp named
        have both := AccessPlace.company.inj (isCompany.symm.trans isCompany')
        simp [both, List.mem_singleton.mp isOne] at listed
  · intro holder q sole U get' row mem
    unfold setTenant at get'
    rw [Keyed.get_set] at get'
    split at get'
    · rename_i same
      obtain rfl := Option.some.inj get'
      exact sole T (same ▸ get) row (takes.again row mem)
    · exact sole U get' row mem
  · intro U get' row mem isCovered
    obtain rfl := Option.some.inj (get.symm.trans get')
    exact mem_rowsOf_setTenant.mpr (.inr ⟨rfl, row.1, takes.spares row mem, isCovered⟩)

/-- Points taken one after the other. -/
theorem takePoints (lower : low.lower e = e) (took : points.foldlM (takePoint low e) g = .ok g') :
    KeepsOthers low e g g' ∧
      (∀ holder x, RowsGive holder (rowsOf low e g') x → RowsGive holder (rowsOf low e g) x) ∧
      (∀ holder x, RowsGive holder (rowsOf low e g) x →
        (∀ pt ∈ points, ¬ RowGives holder (pointRow pt) x) → RowsGive holder (rowsOf low e g') x) ∧
      ∀ holder, (∀ pt ∈ points, SoleRow low e holder g pt) → ∀ pt ∈ points, ∀ x,
        RowGives holder (pointRow pt) x → ¬ RowsGive holder (rowsOf low e g') x := by
  induction points generalizing g with
  | nil =>
    obtain rfl := Except.ok.inj took
    exact ⟨.refl, fun _ _ gives => gives, fun _ _ gives _ => gives, fun _ _ pt mem => by cases mem⟩
  | cons pt rest ih =>
    rw [List.foldlM_cons] at took
    cases one : takePoint low e g pt with
    | error message =>
      rw [one] at took
      cases took
    | ok g₁ =>
    rw [one] at took
    have first := takesPoint lower one
    obtain ⟨keeps, fewer, spares, gone⟩ := ih took
    refine ⟨first.keeps.trans keeps, ?_, ?_, ?_⟩
    · exact fun holder x gives => first.fewer holder x (fewer holder x gives)
    · intro holder x gives unnamed
      have before := first.spares holder x gives (unnamed pt (by simp))
      exact spares holder x before fun q mem => unnamed q (by simp [mem])
    · intro holder sole q mem x named gives
      obtain rfl | later := List.mem_cons.mp mem
      · exact first.gone holder x (sole q (by simp)) named (fewer holder x gives)
      · refine gone holder (fun r mem' => ?_) q later x named gives
        exact first.sole holder r (sole r (by simp [mem']))

end OnePoint

end Grants

end Clearotron
