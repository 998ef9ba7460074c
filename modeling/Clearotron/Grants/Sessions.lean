import Clearotron.Grants.Authorize
import Clearotron.Grants.EditRuns

/-!
# No argument takes a session outside its grant

Whatever arguments a call carries, what the gate returns stays within the scope of the session:
the bound run of a report link, the companies and the Generic of a client, the verbs of an
operator's token. A cap on a key takes reach away and adds none.
-/

namespace Clearotron

namespace Grants

variable {low : LowerCase} {grants : Option Grants} {elsewhere : String → String}
  {sole : Option String} {session : Session} {scope : Scope} {tool : String}
  {args out : ToolArgs} {identity : Option String} {cap : List String}

theorem refuse_bind {α : Type} {bad : Bool} {message : String} {k : Unit → Except String α} {a : α} :
    (refuse bad message >>= k) = .ok a ↔ bad = false ∧ k () = .ok a := by
  cases bad with
  | false => simp [refuse, bind, Except.bind, pure, Except.pure]
  | true => simp [refuse, bind, Except.bind, throw, throwThe, MonadExceptOf.throw]

/-- A person has every company exactly when they have access to everything. -/
theorem accounts_of_resolvePerson {email : String} {g : Grants} {p : Person}
    (is : resolvePerson low email g = some p) : p.accounts = none ↔ p.everything = true := by
  unfold resolvePerson personOf at is
  dsimp only at is
  split at is
  · split at is
    · cases is
    · split at is
      · obtain rfl := Option.some.inj is
        simp
      · obtain rfl := Option.some.inj is
        simp
  · cases is

/-- A company of a person is not Generic. -/
theorem generic_not_mem {email : String} {g : Grants} {p : Person} {keys : List String}
    (is : resolvePerson low email g = some p) (bounded : p.accounts = some keys) :
    "generic" ∉ keys := by
  intro mem
  have part : p.everything = false := by
    rw [Bool.eq_false_iff, ne_eq, ← accounts_of_resolvePerson is, bounded]
    simp
  have sees : p.sees (.company "generic") = true := by
    rw [Person.sees, bounded]
    exact decide_eq_true mem
  rw [sees_resolvePerson is part, reaches_iff] at sees
  obtain ⟨-, row, -, holder, -⟩ := sees
  rw [get_holders] at holder
  obtain ⟨front, back, split, -⟩ := List.lookup_eq_some_iff.mp holder
  have there : ("generic", row.1) ∈ listed g := by
    rw [split]
    simp
  obtain ⟨-, -, -, company⟩ := mem_listed.mp there
  exact company rfl

/-- Whoever is not named is nobody. -/
theorem resolvePerson_empty {g : Grants} : resolvePerson low "" g = none := by
  unfold resolvePerson addressOf
  rw [show Text.trim "" = "" from rfl, low.empty]
  rfl

/-- What a client's session comes of. -/
theorem account_of_resolveScope (resolved : resolveScope low grants elsewhere session = .ok scope)
    (account : scope.kind = .account) :
    ∃ who cap p, personScope low grants (some who) cap = .ok p ∧
      scope = accountScope (some who) p := by
  unfold resolveScope at resolved
  split at resolved
  · split at resolved
    · split at resolved
      · cases resolved
      · cases email : session.email with
        | none =>
          rw [email] at resolved
          unfold personScope at resolved
          split at resolved
          · cases resolved
          · rw [Option.getD_none, resolvePerson_empty] at resolved
            cases resolved
        | some who =>
          rw [email] at resolved
          cases made : personScope low grants (some who) none with
          | error message =>
            rw [made] at resolved
            cases resolved
          | ok p =>
            rw [made] at resolved
            exact ⟨who, none, p, made, (Except.ok.inj resolved).symm⟩
    · rename_i payload _
      cases read : verifyToken payload with
      | error message =>
        rw [read] at resolved
        cases resolved
      | ok t =>
      rw [read] at resolved
      dsimp only [bind, Except.bind] at resolved
      split at resolved
      · rename_i isAccount
        obtain ⟨who, is, -⟩ := t.named isAccount
        rw [is] at resolved
        split at resolved
        · cases resolved
        · cases made : personScope low grants (some who) t.accounts with
          | error message =>
            rw [made] at resolved
            cases resolved
          | ok p =>
            rw [made] at resolved
            exact ⟨who, t.accounts, p, made, (Except.ok.inj resolved).symm⟩
      · obtain rfl := Except.ok.inj resolved
        cases account
      · cases resolved
  · split at resolved
    · obtain rfl := Except.ok.inj resolved
      cases account
    · split at resolved
      · rename_i payload _
        cases read : verifyToken payload with
        | error message =>
          rw [read] at resolved
          cases resolved
        | ok t =>
        rw [read] at resolved
        dsimp only [bind, Except.bind] at resolved
        split at resolved
        · cases resolved
        · obtain rfl := Except.ok.inj resolved
          cases account
        · obtain rfl := Except.ok.inj resolved
          cases account
      · split at resolved
        · split at resolved
          · obtain rfl := Except.ok.inj resolved
            cases account
          · split at resolved
            · obtain rfl := Except.ok.inj resolved
              cases account
            · obtain rfl := Except.ok.inj resolved
              cases account
        · cases resolved

/-- A client's reach, from the person of its identity. -/
theorem personScope_ok {cap : Option (List String)} {s : PersonScope}
    (made : personScope low grants identity cap = .ok s) :
    ∃ g person, grants = some g ∧ resolvePerson low (identity.getD "") g = some person ∧
      match cap.filter (· ≠ []) with
      | none => s = wholeScope person
      | some cap => s = { wholeScope person with
          accounts := .keys (narrowed person cap), everything := false, genericOrgs := [] } := by
  unfold personScope at made
  split at made
  · cases made
  rename_i g
  split at made
  · cases made
  rename_i person is
  refine ⟨g, person, rfl, is, ?_⟩
  generalize cap.filter (· ≠ []) = kept at made ⊢
  cases kept with
  | none => exact (Except.ok.inj made).symm
  | some cap' =>
    dsimp only at made
    split at made
    · cases made
    · exact (Except.ok.inj made).symm

theorem personScope_whole {g : Grants} {person : Person}
    (is : resolvePerson low (identity.getD "") g = some person) :
    personScope low (some g) identity none = .ok (wholeScope person) := by
  unfold personScope
  dsimp only
  rw [is]
  rfl

/-- A company that stays under a cap is the person's own. -/
theorem mem_narrowed {person : Person} {k : String} : k ∈ narrowed person cap ↔
    k ∈ cap ∧ ∀ keys, person.accounts = some keys → k ∈ keys := by
  unfold narrowed
  cases person.accounts with
  | none => simp
  | some keys => simp [and_comm]

/-- A session of every company sees every run. -/
theorem accountVisible_all (all : scope.accounts = .all) (key organisation : Option String) :
    accountVisible scope key organisation = true := by
  unfold accountVisible assertAccountAccess
  rw [all]
  rfl

theorem accountVisible_keys {keys : List String} (bounded : scope.accounts = .keys keys)
    {key organisation : Option String} : accountVisible scope key organisation = true ↔
      ∃ k, key = some k ∧
        ((k = "generic" ∧ organisation.any (· ∈ scope.genericOrgs) = true) ∨ k ∈ keys) := by
  unfold accountVisible assertAccountAccess
  rw [bounded]
  cases key with
  | none => simp [Except.isOk, Except.toBool, throw, throwThe, MonadExceptOf.throw]
  | some k =>
    dsimp only
    simp only [Option.some.injEq, exists_eq_left']
    split
    · rename_i generic
      exact iff_of_true rfl (.inl generic)
    · rename_i notGeneric
      rw [or_iff_right notGeneric]
      split
      · rename_i mem
        exact iff_of_true rfl mem
      · rename_i absent
        exact iff_of_false (by simp [Except.isOk, Except.toBool, throw, throwThe, MonadExceptOf.throw]) absent

/-- What a capped key sees, its person sees without the cap, and it orders no Generic. -/
theorem capped_within (named : cap ≠ []) {s : PersonScope} {sub : Option String}
    (made : personScope low grants identity (some cap) = .ok s) :
    ∃ whole, personScope low grants identity none = .ok whole ∧
      s.everything = false ∧ s.genericOrgs = [] ∧
      grantsGeneric (accountScope sub s) = false ∧
      (∀ key organisation, accountVisible (accountScope sub s) key organisation = true →
        accountVisible (accountScope sub whole) key organisation = true) ∧
      (("generic" ∈ cap → whole.everything = false) → ∀ organisation,
        accountVisible (accountScope sub s) (some "generic") organisation = false) := by
  obtain ⟨g, person, rfl, is, shape⟩ := personScope_ok made
  have filtered : (some cap).filter (· ≠ []) = some cap := by simp [Option.filter, named]
  rw [filtered] at shape
  dsimp only at shape
  subst shape
  refine ⟨_, personScope_whole is, rfl, rfl, by simp [grantsGeneric, accountScope], ?_, ?_⟩
  · intro key organisation visible
    obtain ⟨k, rfl, generic | mem⟩ := (accountVisible_keys rfl).mp visible
    · simp [accountScope] at generic
    · cases accounts : person.accounts with
      | none =>
        exact accountVisible_all (by simp [accountScope, wholeScope, accountsOf, accounts]) _ _
      | some keys =>
        have mine := (mem_narrowed.mp mem).2 keys accounts
        have bounded : (accountScope sub (wholeScope person)).accounts = ScopeAccounts.keys keys := by
          simp [accountScope, wholeScope, accountsOf, accounts]
        exact (accountVisible_keys bounded).mpr ⟨k, rfl, .inr mine⟩
  · intro unnamed organisation
    rw [← Bool.not_eq_true, accountVisible_keys rfl]
    rintro ⟨k, isGeneric, generic | mem⟩
    · simp [accountScope] at generic
    · obtain rfl := Option.some.inj isGeneric
      obtain ⟨inCap, mine⟩ := mem_narrowed.mp mem
      have part : person.everything = false := unnamed inCap
      cases accounts : person.accounts with
      | none =>
        rw [(accounts_of_resolvePerson is).mp accounts] at part
        cases part
      | some keys => exact generic_not_mem is accounts (mine keys accounts)

theorem tenantStamp_ok {asked : Option ArgValue} {t : Option String}
    (stamped : tenantStamp scope asked = .ok t) :
    (∃ u ∈ scope.genericOrgs, t = some u) ∨ (scope.everything = true ∧ t = none) := by
  unfold tenantStamp at stamped
  dsimp only at stamped
  split at stamped
  · rename_i u _
    split at stamped
    · rename_i mem
      exact .inl ⟨u, mem, (Except.ok.inj stamped).symm⟩
    · cases stamped
  · split at stamped
    · rename_i u one
      exact .inl ⟨u, by simp [one], (Except.ok.inj stamped).symm⟩
    · split at stamped
      · rename_i all
        exact .inr ⟨all, (Except.ok.inj stamped).symm⟩
      · cases stamped

/-- Where an order is placed: under a company, or under Generic of an organisation, or, by a
session that sees everything, under Generic of none. -/
def PlacedWithin (scope : Scope) (args out : ToolArgs) : Prop :=
  (profileKey args ≠ .text "generic" ∧ out.get "tenant" = none) ∨
    (profileKey args = .text "generic" ∧
      ((∃ t ∈ scope.genericOrgs, out.get "tenant" = some (.text t)) ∨
        (scope.everything = true ∧ out.get "tenant" = none)))

section Stamps

variable {k : String} {tenant : Option String}

theorem get_placeUnder : (placeUnder tenant args).get k =
    if k = "tenant" then (tenant.map ArgValue.text).or (args.get k) else args.get k := by
  unfold placeUnder
  cases tenant <;> simp [Keyed.get_set]

theorem get_stampCap (other : k ≠ "clientPrincipal") :
    (stampCap scope tool args).get k = args.get k := by
  unfold stampCap
  split <;> simp [Keyed.get_set, other]

theorem get_stampIdentity (other : k ≠ "forwarder") (other' : k ≠ "forwarderEmail") :
    (stampIdentity scope args).get k = args.get k := by
  unfold stampIdentity
  dsimp only
  split <;> simp [Keyed.get_set, other, other']

theorem stampIdentity_email {who : String} (named : scope.sub = some who) :
    (stampIdentity scope args).get "forwarderEmail" = some (.text who) := by
  unfold stampIdentity
  rw [named]
  simp [Keyed.get_set]

end Stamps

/-- An order is stamped with who asks, where it belongs, and the cap. -/
theorem stampOrder_ok {who : String} (named : scope.sub = some who)
    (stamped : stampOrder scope tool args = .ok out) :
    profileKey out = profileKey args ∧ out.get "forwarderEmail" = some (.text who) ∧
      (tool = "start_run" → scope.everything = false →
        out.get "clientPrincipal" = some (.flag true)) ∧ PlacedWithin scope args out := by
  unfold stampOrder at stamped
  cases filed : orderTenant scope args with
  | error message =>
    rw [filed] at stamped
    cases stamped
  | ok tenant =>
  rw [filed] at stamped
  obtain rfl := Except.ok.inj stamped
  refine ⟨?_, ?_, ?_, ?_⟩
  · unfold profileKey
    rw [get_stampCap (by decide), get_placeUnder, if_neg (by decide),
      get_stampIdentity (by decide) (by decide), Keyed.get_erase, if_neg (by decide)]
  · rw [get_stampCap (by decide), get_placeUnder, if_neg (by decide), stampIdentity_email named]
  · rintro rfl part
    simp [stampCap, part, Keyed.get_set]
  · unfold PlacedWithin
    rw [get_stampCap (by decide), get_placeUnder, if_pos rfl,
      get_stampIdentity (by decide) (by decide), Keyed.get_erase, if_pos rfl, Option.or_none]
    unfold orderTenant at filed
    by_cases generic : profileKey args = .text "generic"
    · rw [if_pos generic] at filed
      obtain ⟨u, mem, rfl⟩ | ⟨all, rfl⟩ := tenantStamp_ok filed
      · exact .inr ⟨generic, .inl ⟨u, mem, rfl⟩⟩
      · exact .inr ⟨generic, .inr ⟨all, rfl⟩⟩
    · rw [if_neg generic] at filed
      obtain rfl := Except.ok.inj filed
      exact .inl ⟨generic, rfl⟩

theorem not_ordersRun_of_cards (isList : tool = "list_findings") : ordersRun tool = false := by
  rw [isList]
  decide

/-- What a client's order passes. -/
theorem authorizeAccount_ok (orders : ordersRun tool = true)
    (called : authorizeAccount scope tool args = .ok out) :
    mayOrder scope (profileKey args) = true ∧ scope.run = true ∧
      stampOrder scope tool args = .ok out := by
  unfold authorizeAccount at called
  simp only [refuse_bind] at called
  obtain ⟨-, -, -, called⟩ := called
  split at called
  · rename_i isList
    rw [Bool.and_eq_true, decide_eq_true_eq] at isList
    rw [not_ordersRun_of_cards isList.1] at orders
    cases orders
  · simp only [refuse_bind, orders] at called
    obtain ⟨-, -, runs, may, stamped⟩ := called
    refine ⟨by simpa using may, ?_, stamped⟩
    have spends : ((ruleOf tool).write || decide (tool = "plan_run")) = true := by
      unfold ordersRun at orders
      rw [Bool.or_eq_true, decide_eq_true_eq, decide_eq_true_eq] at orders
      obtain rfl | rfl := orders <;> decide
    simpa [spends] using runs

theorem clientSafe_tools (safe : (ruleOf tool).clientSafe = true) :
    tool ∈ ["server_info", "brief", "read_artifact", "list_findings"] := by
  unfold ruleOf at safe
  cases found : toolScopes.lookup tool with
  | none =>
    rw [found] at safe
    cases safe
  | some rule =>
    rw [found] at safe
    obtain ⟨front, back, split, -⟩ := List.lookup_eq_some_iff.mp found
    have mem : (tool, rule) ∈ toolScopes := by rw [split]; simp
    have table : ∀ entry ∈ toolScopes, entry.2.clientSafe = true →
        entry.1 ∈ ["server_info", "brief", "read_artifact", "list_findings"] := by decide
    exact table _ mem safe

/-- The argument is one of the texts. -/
theorem any_among {v : Option ArgValue} {texts : List String}
    (holds : v.any (·.among texts) = true) : ∃ s ∈ texts, v = some (.text s) := by
  cases v with
  | none => cases holds
  | some v =>
    cases v with
    | text s => exact ⟨s, by simpa [ArgValue.among] using holds, rfl⟩
    | _ => cases holds

/-- A report link reads its run, through the client's views. -/
theorem authorizeLink_ok (called : authorizeLink scope tool args = .ok out) :
    ∃ run, scope.runId = some run ∧
      tool ∈ ["server_info", "brief", "read_artifact", "list_findings"] ∧
      out.get "runId" = some (.text run) ∧
      (tool = "read_artifact" → out.get "name" = some (.text "report")) ∧
      (tool = "list_findings" → ∃ group ∈ userFindingGroups,
        out.entries = [("runId", .text run), ("group", .text group)]) := by
  unfold authorizeLink at called
  simp only [refuse_bind] at called
  obtain ⟨safe, artifact, group, -, called⟩ := called
  split at called
  · cases called
  rename_i run bound
  obtain ⟨isRun, -⟩ := nonempty_eq_some bound
  simp only [refuse_bind] at called
  obtain ⟨-, called⟩ := called
  obtain rfl := Except.ok.inj called
  refine ⟨run, isRun, clientSafe_tools (by simpa using safe), ?_, ?_, ?_⟩
  · split
    · unfold cards
      cases args.get "group" <;> simp [Keyed.get_set]
    · simp [Keyed.get_set]
  · rintro rfl
    rw [if_neg (by decide), Keyed.get_set, if_neg (by decide)]
    obtain ⟨s, mem, is⟩ := any_among (by simpa using artifact)
    rw [is, List.mem_singleton.mp mem]
  · rintro rfl
    rw [if_pos rfl]
    obtain ⟨s, mem, is⟩ := any_among (by simpa using group)
    exact ⟨s, mem, by rw [cards, is]; rfl⟩

/-- A client with every company sees everything. -/
theorem everything_of_all {who : String} {cap : Option (List String)} {p : PersonScope}
    (made : personScope low grants (some who) cap = .ok p) (all : p.accounts = .all) :
    p.everything = true := by
  obtain ⟨g, person, rfl, is, shape⟩ := personScope_ok made
  split at shape
  · subst shape
    refine (accounts_of_resolvePerson is).mp ?_
    cases accounts : person.accounts with
    | none => rfl
    | some keys => simp [wholeScope, accountsOf, accounts] at all
  · subst shape
    cases all

/-- An order stays within the reach of the session: one of its companies, or Generic of an
organisation whose Generic it sees, or Generic of none for a session that sees everything. -/
def OrderWithin (scope : Scope) (out : ToolArgs) : Prop :=
  (profileKey out ≠ .text "generic" ∧ out.get "tenant" = none ∧
    ((scope.accounts = .all ∧ scope.everything = true) ∨
      ∃ acc k, scope.accounts = .keys acc ∧ profileKey out = .text k ∧ k ∈ acc)) ∨
  (profileKey out = .text "generic" ∧
    ((∃ t ∈ scope.genericOrgs, out.get "tenant" = some (.text t)) ∨
      (scope.everything = true ∧ out.get "tenant" = none)))

theorem order_within (resolved : resolveScope low grants elsewhere session = .ok scope)
    (account : scope.kind = .account) (orders : ordersRun tool = true)
    (called : authorizeAccount scope tool args = .ok out) :
    scope.run = true ∧ OrderWithin scope out ∧
      (∃ who, scope.sub = some who ∧ out.get "forwarderEmail" = some (.text who)) ∧
      (tool = "start_run" → scope.everything = false →
        out.get "clientPrincipal" = some (.flag true)) := by
  obtain ⟨who, cap, p, made, rfl⟩ := account_of_resolveScope resolved account
  obtain ⟨may, runs, stamped⟩ := authorizeAccount_ok orders called
  obtain ⟨key, email, capped, placed⟩ := stampOrder_ok rfl stamped
  refine ⟨runs, ?_, ⟨who, rfl, email⟩, capped⟩
  unfold OrderWithin
  rw [key]
  obtain ⟨company, free⟩ | generic := placed
  · refine .inl ⟨company, free, ?_⟩
    rw [mayOrder, if_neg company] at may
    unfold holdsKey at may
    split at may
    · rename_i all
      exact .inl ⟨all, everything_of_all made all⟩
    · rename_i acc bounded
      cases shape : profileKey args with
      | text k =>
        rw [shape] at may
        exact .inr ⟨acc, k, bounded, rfl, by simpa [ArgValue.among] using may⟩
      | _ =>
        rw [shape] at may
        cases may
    · cases may
  · exact .inr generic

/-- What the gate returns stays within the scope: a report link names its run and the client's
views, a client's order is within its reach and stamped, a verb-scoped token writes what its
list says. A capped key sees what its person sees, and never orders Generic. -/
theorem no_argument_leaves_the_grant (low : LowerCase) (grants : Option Grants)
    (elsewhere : String → String) (sole : Option String) :
    (∀ session scope tool args out, resolveScope low grants elsewhere session = .ok scope →
      authorize sole scope tool args = .ok out →
      (scope.kind = .user → ∃ run, scope.runId = some run ∧
        tool ∈ ["server_info", "brief", "read_artifact", "list_findings"] ∧
        out.get "runId" = some (.text run) ∧
        (tool = "read_artifact" → out.get "name" = some (.text "report")) ∧
        (tool = "list_findings" → ∃ group ∈ userFindingGroups,
          out.entries = [("runId", .text run), ("group", .text group)])) ∧
      (scope.kind = .account → ordersRun tool = true →
        scope.run = true ∧ OrderWithin scope out ∧
        (∃ who, scope.sub = some who ∧ out.get "forwarderEmail" = some (.text who)) ∧
        (tool = "start_run" → scope.everything = false →
          out.get "clientPrincipal" = some (.flag true))) ∧
      (scope.kind = .ops → ∀ verbs ∈ scope.verbs, (ruleOf tool).write = true → tool ∈ verbs)) ∧
    (∀ identity cap s sub, cap ≠ [] → personScope low grants identity (some cap) = .ok s →
      ∃ whole, personScope low grants identity none = .ok whole ∧
        s.everything = false ∧ s.genericOrgs = [] ∧
        grantsGeneric (accountScope sub s) = false ∧
        (∀ key organisation, accountVisible (accountScope sub s) key organisation = true →
          accountVisible (accountScope sub whole) key organisation = true) ∧
        (("generic" ∈ cap → whole.everything = false) → ∀ organisation,
          accountVisible (accountScope sub s) (some "generic") organisation = false)) := by
  refine ⟨fun session scope tool args out resolved called => ?_,
    fun identity cap s sub named made => capped_within named made⟩
  have passed : ∃ gate : Unit, optionsGate scope tool args = .ok gate := by
    cases gate : optionsGate scope tool args with
    | ok u => exact ⟨u, rfl⟩
    | error message =>
      unfold authorize at called
      rw [gate] at called
      cases called
  obtain ⟨_, gate⟩ := passed
  unfold authorize at called
  rw [gate] at called
  refine ⟨fun user => ?_, fun account orders => ?_, fun ops verbs limits writes => ?_⟩
  · dsimp only [bind, Except.bind] at called
    rw [user] at called
    exact authorizeLink_ok (refuse_bind.mp called).2
  · dsimp only [bind, Except.bind] at called
    rw [account] at called
    exact order_within resolved account orders called
  · dsimp only [bind, Except.bind] at called
    rw [ops] at called
    have listed := (refuse_bind.mp called).1
    rw [writes, Bool.true_and, limits, Option.any_some] at listed
    simpa using listed

/-- Two organisations, a person of one company, and one who sees everything. -/
def twoOrganisations : Grants where
  tenants := (Keyed.empty.set "acme" ⟨["acme-eu"], Keyed.empty.set "tom@x.example" (.companies ["acme-eu"])⟩).set
    "bolt" ⟨[], Keyed.empty⟩
  people := (Keyed.empty.set "tom@x.example" { run := true }).set "owner@x.example"
    { run := true, everything := true }

/-- Who presents an account key. -/
def keyOf (who : String) (cap : Option (List String)) : Session :=
  { innerToken := some { scope := "account", sub := some who, accounts := cap }
    clientSurface := true, accountAccess := true }

/-- The arguments of a call that a session is allowed. -/
def dispatched (session : Session) (tool : String) (args : ToolArgs) : Option ToolArgs :=
  (resolveScope plainLower (some twoOrganisations) (fun _ => "") session).toOption.bind fun scope =>
    (authorize none scope tool args).toOption

theorem no_argument_leaves_the_grant_sample :
    ∃ out, dispatched (keyOf "tom@x.example" none) "start_run"
        (Keyed.empty.set "profileKey" (.text "acme-eu")) = some out ∧
      out.get "clientPrincipal" = some (.flag true) := by
  have allowed : (dispatched (keyOf "tom@x.example" none) "start_run"
      (Keyed.empty.set "profileKey" (.text "acme-eu"))).isSome = true := by decide +kernel
  obtain ⟨out, sent⟩ := Option.isSome_iff_exists.mp allowed
  obtain ⟨scope, resolved, called⟩ := Option.bind_eq_some_iff.mp sent
  have kind : (resolveScope plainLower (some twoOrganisations) (fun _ => "")
      (keyOf "tom@x.example" none)).toOption.map (fun s => (s.kind, s.everything)) =
        some (.account, false) := by decide +kernel
  rw [resolved] at kind
  obtain ⟨account, part⟩ := Prod.mk.inj (Option.some.inj kind)
  have ok {α : Type} {e : Except String α} {a : α} (is : e.toOption = some a) : e = .ok a := by
    cases e with
    | error message => cases is
    | ok b => exact congrArg Except.ok (Option.some.inj is)
  have within := (no_argument_leaves_the_grant plainLower (some twoOrganisations) (fun _ => "")
    none).1 _ scope _ _ out (ok resolved) (ok called)
  exact ⟨out, sent, (within.2.1 account (by decide)).2.2.2 rfl part⟩

/-- Who sees everything starts a Generic run under no organisation; a plan carries no cap; and a
key of theirs that is capped to Generic sees an organisation's Generic runs. -/
theorem orders_past_the_grant :
    (dispatched (keyOf "owner@x.example" none) "start_run" Keyed.empty).map (·.get "tenant") =
        some none ∧
      (dispatched (keyOf "tom@x.example" none) "plan_run"
        (Keyed.empty.set "profileKey" (.text "acme-eu"))).map (·.get "clientPrincipal") =
          some none ∧
      (resolveScope plainLower (some twoOrganisations) (fun _ => "")
        (keyOf "owner@x.example" (some ["generic"]))).toOption.map
          (fun s => accountVisible s (some "generic") (some "acme")) = some true := by
  decide +kernel

end Grants

end Clearotron
