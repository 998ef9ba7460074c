import Clearotron.Grants.File

/-!
# The scope of a session

A session proves who it is by a token, a sign-in, or by being local. What it may reach is read
at that moment: a client's from the grants file, an operator's from the token. A cap on an
account key narrows what its person reaches.
-/

namespace Clearotron

inductive ScopeKind
  | ops
  | account
  | internal
  | user
  deriving DecidableEq, Repr

/-- `scope.accounts`: moot, `"*"`, or these keys. -/
inductive ScopeAccounts
  | moot
  | all
  | keys (keys : List String)
  deriving DecidableEq, Repr

/-- A session's scope. What a kind of session does not carry reads as off. -/
structure Scope where
  kind : ScopeKind
  runId : Option String := none
  sub : Option String := none
  verbs : Option (List String) := none
  accounts : ScopeAccounts
  everything : Bool := false
  run : Bool := false
  manage : Bool := false
  genericOrgs : List String := []
  deriving DecidableEq, Repr

/-- The payload of a token whose signature, expiry and revocation were checked. -/
structure TokenPayload where
  scope : String
  runId : Option String := none
  sub : Option String := none
  verbs : Option (List String) := none
  accounts : Option (List String) := none
  deriving DecidableEq, Repr

inductive TokenKind
  | ops
  | user
  | account
  deriving DecidableEq, Repr

/-- A token as it is read: a report link names its run, an account key its identity. -/
structure TokenClaims where
  kind : TokenKind
  runId : Option String
  sub : Option String
  verbs : Option (List String)
  accounts : Option (List String)
  bound : kind = .user → ∃ run, runId = some run ∧ run ≠ ""
  named : kind = .account → ∃ who, sub = some who ∧ who ≠ ""

namespace Grants

/-- The string, where it is not empty. -/
def nonempty (s : Option String) : Option String := s.filter (· ≠ "")

theorem nonempty_eq_some {s : Option String} {t : String} (is : nonempty s = some t) :
    s = some t ∧ t ≠ "" := by
  obtain ⟨mem, holds⟩ := Option.filter_eq_some_iff.mp is
  exact ⟨mem, by simpa using holds⟩

/-- `verifyToken`, of the payload. -/
def verifyToken (p : TokenPayload) : Except String TokenClaims :=
  if p.scope = "user" then
    match bound : nonempty p.runId with
    | none => throw "user token missing runId binding"
    | some run => pure
        { kind := .user, runId := some run, sub := nonempty p.sub, verbs := p.verbs.filter (· ≠ [])
          accounts := p.accounts.filter (· ≠ [])
          bound := fun _ => ⟨run, rfl, (nonempty_eq_some bound).2⟩
          named := fun is => by cases is }
  else if p.scope = "account" then
    match named : nonempty p.sub with
    | none => throw "account token missing its sub identity"
    | some who => pure
        { kind := .account, runId := p.runId, sub := some who, verbs := p.verbs.filter (· ≠ [])
          accounts := p.accounts.filter (· ≠ [])
          bound := fun is => by cases is
          named := fun _ => ⟨who, rfl, (nonempty_eq_some named).2⟩ }
  else if p.scope = "ops" then
    pure
      { kind := .ops, runId := p.runId, sub := nonempty p.sub, verbs := p.verbs.filter (· ≠ [])
        accounts := p.accounts.filter (· ≠ [])
        bound := fun is => by cases is
        named := fun is => by cases is }
  else throw "token scope invalid"

/-- The account gate. -/
def assertAccountAccess (scope : Scope) (accountKey : Option String) (what : String)
    (organisation : Option String) : Except String Unit :=
  match scope.accounts with
  | .moot | .all => pure ()
  | .keys acc =>
    match accountKey with
    | none => throw (what ++ " carries no account tag — visible only to full-grant sessions")
    | some key =>
      if key = "generic" ∧ organisation.any (· ∈ scope.genericOrgs) then pure ()
      else if key ∈ acc then pure ()
      else throw ("your grant does not include account \"" ++ key ++ "\"")

def accountVisible (scope : Scope) (accountKey : Option String) (organisation : Option String) :
    Bool :=
  (assertAccountAccess scope accountKey "this run" organisation).isOk

/-- May this session order under Generic? -/
def grantsGeneric (scope : Scope) : Bool :=
  match scope.kind with
  | .account => scope.everything || scope.genericOrgs ≠ []
  | _ =>
    match scope.accounts with
    | .moot | .all => true
    | .keys acc => "generic" ∈ acc

/-- What of a scope comes from a person. -/
structure PersonScope where
  accounts : ScopeAccounts
  everything : Bool
  run : Bool
  manage : Bool
  genericOrgs : List String
  deriving DecidableEq, Repr

section Sessions

variable (low : LowerCase)

def accountsOf (p : Person) : ScopeAccounts :=
  match p.accounts with
  | none => .all
  | some keys => .keys keys

/-- A person's reach, uncapped. -/
def wholeScope (person : Person) : PersonScope :=
  { accounts := accountsOf person, everything := person.everything, run := person.run
    manage := person.manage, genericOrgs := person.genericOrgs }

/-- The companies of a person that a cap names. -/
def narrowed (person : Person) (cap : List String) : List String :=
  match person.accounts with
  | none => cap
  | some keys => keys.filter (· ∈ cap)

/-- A client's reach: the person of the grants file, narrowed by a key's cap. -/
def personScope (grants : Option Grants) (identity : Option String) (cap : Option (List String)) :
    Except String PersonScope :=
  match grants with
  | none =>
    throw ("forbidden: client account access requires a configured grants file (refusing an " ++
      "unscoped wildcard)")
  | some g =>
    match resolvePerson low (identity.getD "") g with
    | none => throw "forbidden: this identity is not granted any account"
    | some person =>
      match cap.filter (· ≠ []) with
      | none => pure (wholeScope person)
      | some cap =>
        if narrowed person cap = [] then
          throw "forbidden: this key is capped to accounts its identity is no longer granted"
        else
          pure { wholeScope person with
                 accounts := .keys (narrowed person cap), everything := false, genericOrgs := [] }

/-- How a session arrives. -/
structure Session where
  local' : Bool := false
  innerToken : Option TokenPayload := none
  email : Option String := none
  firmStaff : Bool := false
  clientSurface : Bool := false
  accountAccess : Bool := false
  deriving DecidableEq, Repr

/-- The scope of a client, once its identity is known. -/
def accountScope (sub : Option String) (p : PersonScope) : Scope :=
  { kind := .account, sub, accounts := p.accounts, everything := p.everything, run := p.run
    manage := p.manage, genericOrgs := p.genericOrgs }

/-- The scope of a report link. -/
def linkScope (t : TokenClaims) : Scope :=
  { kind := .user, runId := t.runId, sub := t.sub, accounts := .moot }

/-- The scope of a session, or its refusal. `elsewhere` says where a door's other side is. -/
def resolveScope (grants : Option Grants) (elsewhere : String → String) (s : Session) :
    Except String Scope :=
  if s.clientSurface then
    match s.innerToken with
    | none =>
      if s.accountAccess = false then
        throw ("forbidden: the client surface requires a run-scoped token (no read-all/internal " ++
          "access)")
      else (personScope low grants s.email none).map (accountScope s.email)
    | some payload => do
      let t ← verifyToken payload
      match t.kind with
      | .account =>
        if s.accountAccess = false then
          throw "forbidden: client account access is not enabled on this door"
        else (personScope low grants t.sub t.accounts).map (accountScope t.sub)
      | .user => pure (linkScope t)
      | .ops =>
        throw ("forbidden: the client surface accepts only a run-scoped user token or an account " ++
          "key" ++ elsewhere "staff")
  else if s.local' then pure { kind := .ops, sub := some "local", accounts := .all }
  else
    match s.innerToken with
    | some payload => do
      let t ← verifyToken payload
      match t.kind with
      | .account =>
        throw ("forbidden: an account key is only accepted on the client surface" ++
          elsewhere "client")
      | .ops =>
        pure { kind := .ops, sub := t.sub, verbs := t.verbs
               accounts := (t.accounts.map .keys).getD .all }
      | .user => pure (linkScope t)
    | none =>
      if s.firmStaff then
        match grants with
        | none =>
          pure { kind := .internal, sub := s.email, accounts := .all, everything := true }
        | some g =>
          match resolvePerson low (s.email.getD "") g with
          | none => pure { kind := .internal, sub := s.email, accounts := .keys [] }
          | some person =>
            pure { kind := .internal, sub := s.email, accounts := accountsOf person
                   everything := person.everything, run := person.run, manage := person.manage
                   genericOrgs := person.genericOrgs }
      else
        throw ("forbidden: no run-scoped token and not a firm-staff identity — refusing " ++
          "(internal read-all requires proven firm staff)")

end Sessions

end Grants

end Clearotron
