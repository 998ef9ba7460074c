import Clearotron.Grants.File

/-!
# The changes a person makes to the grants file

Each edit takes a grants file and returns another, or refuses. Addresses are written in lower
case; a reader finds the first key that is the address without regard to case.
-/

namespace Clearotron

/-- A whole organisation, or one of its companies. -/
structure GrantPoint where
  tenant : String
  account : Option String := none
  deriving DecidableEq, Repr

namespace Grants

/-- One organisation is changed in its place. -/
def setTenant (g : Grants) (tenant : String) (t : Tenant) : Grants :=
  { g with tenants := g.tenants.set tenant t }

/-- What the file is called in a refusal. -/
def afterThisChange : String := "the grants file after this change"

/-- One point is added to what an address holds. -/
def givePoint (e : String) (g : Grants) (point : GrantPoint) : Except String Grants :=
  match g.tenants.get point.tenant with
  | none => throw ("there is no organisation \"" ++ point.tenant ++ "\"")
  | some t =>
    match point.account with
    | none => pure (g.setTenant point.tenant { t with users := t.users.set e .whole })
    | some account =>
      if account ∉ t.accounts then
        throw ("organisation \"" ++ point.tenant ++ "\" does not hold \"" ++ account ++ "\"")
      else
        match t.users.get e with
        | some .whole => pure (g.setTenant point.tenant t)
        | some (.companies held) =>
          pure (g.setTenant point.tenant
            { t with users := t.users.set e (.companies (mergeBy id [] (held ++ [account]))) })
        | none =>
          pure (g.setTenant point.tenant { t with users := t.users.set e (.companies [account]) })

section Edits

variable (low : LowerCase)

/-- Give a person access; with `setSwitches`, replace what their address holds under `people`. -/
def withPerson (g : Grants) (email : String) (points : List GrantPoint) (switches : Switches)
    (setSwitches : Bool) : Except String Grants := do
  let e := addressOf low email
  if isOneAddress e = false then throw ("\"" ++ email ++ "\" is not one email address")
  let given ← points.foldlM (givePoint e) g
  let g' := if setSwitches then { given with people := given.people.set e switches } else given
  assertGrantsShape g' afterThisChange
  pure g'

structure PersonPoints where
  points : List GrantPoint
  switches : Switches
  listed : Bool
  deriving DecidableEq

/-- What a person holds, read out of the file: of each section the first entry that is theirs. -/
def personPoints (g : Grants) (email : String) : PersonPoints :=
  let e := addressOf low email
  let entry := spelled low e g.people
  { points := g.tenants.entries.flatMap fun (t : String × Tenant) =>
      match spelled low e t.2.users with
      | none => []
      | some (_, .whole) => [{ tenant := t.1 }]
      | some (_, .companies keys) => keys.map fun account => { tenant := t.1, account }
    switches := (entry.map Prod.snd).getD {}
    listed := entry.isSome }

/-- The entry under `userKeyIn`, or under `peopleKey`, is deleted. -/
def strike {ν : Type} (e : String) (m : Keyed String ν) : Keyed String ν :=
  match spelled low e m with
  | some (key, _) => m.erase key
  | none => m

/-- One point is taken from what an address holds. -/
def takePoint (e : String) (g : Grants) (point : GrantPoint) : Except String Grants :=
  match g.tenants.get point.tenant with
  | none => throw ("there is no organisation \"" ++ point.tenant ++ "\"")
  | some t =>
    match spelled low e t.users with
    | none => pure g
    | some (key, have') =>
      match point.account, have' with
      | none, _ => pure (g.setTenant point.tenant { t with users := t.users.erase key })
      | some account, .whole =>
        throw (e ++ " holds the whole of \"" ++ point.tenant ++ "\", including companies added " ++
          "to it later, so \"" ++ account ++ "\" cannot be taken away on its own. Take away the " ++
          "organisation instead.")
      | some account, .companies keys =>
        let left := keys.filter (· ≠ account)
        pure (g.setTenant point.tenant
          { t with users := if left = [] then t.users.erase key
              else t.users.set key (.companies left) })

/-- Take every row of a person off the file, and their entry under `people`. -/
def withoutPersonAll (g : Grants) (email : String) : Except String Grants := do
  let e := addressOf low email
  if e = "" then throw "removing access needs an email address"
  let g' : Grants :=
    { tenants := g.tenants.mapValues fun t => { t with users := strike low e t.users }
      people := strike low e g.people }
  assertGrantsShape g' afterThisChange
  pure g'

/-- Take points from a person. -/
def withoutPersonPoints (g : Grants) (email : String) (points : List GrantPoint) :
    Except String Grants := do
  let e := addressOf low email
  if e = "" then throw "removing access needs an email address"
  if points = [] then throw "nothing was named to take away"
  if (personPoints low g e).switches.everything then
    throw (e ++ " has access to everything on this install, which is not held in any " ++
      "organisation — taking away one organisation would change nothing they can see. Remove " ++
      "them from the install instead.")
  let g' ← points.foldlM (takePoint low e) g
  assertGrantsShape g' afterThisChange
  pure g'

end Edits

end Grants

end Clearotron
