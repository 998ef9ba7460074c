import Clearotron.Executor.Dispatch
import Clearotron.Library.Keyed

/-!
# The grants file and the person it makes of an address

An organisation holds companies and has a guest list. An address on the list has the whole
organisation, or some of its companies, and `*@domain` stands for every address of a domain.
A second section holds each person's switches. A section that is left out reads as an empty
one, a switch that is left out as off, and an organisation's name is not read here.
-/

namespace Clearotron

/-- `String.prototype.toLowerCase`, with what is relied on of it. -/
structure LowerCase where
  lower : String → String
  empty : lower "" = ""
  idem : ∀ s, lower (lower s) = lower s
  trims : ∀ s, Text.trim (lower (Text.trim s)) = lower (Text.trim s)

/-- What a guest list gives an address: `"*"`, or some companies. -/
inductive UserEntry
  | whole
  | companies (keys : List String)
  deriving DecidableEq, Repr

structure Tenant where
  accounts : List String
  users : Keyed String UserEntry
  deriving DecidableEq

/-- A person's entry under `people`. -/
structure Switches where
  run : Bool := false
  manage : Bool := false
  everything : Bool := false
  deriving DecidableEq, Repr

structure Grants where
  tenants : Keyed String Tenant
  people : Keyed String Switches
  deriving DecidableEq

inductive AccessPoint
  | everything
  | organisation (key : String)
  | company (key : String) (org : Option String)
  deriving DecidableEq, Repr

structure Person where
  email : String
  everything : Bool
  run : Bool
  manage : Bool
  access : List AccessPoint
  /-- every company, or these -/
  accounts : Option (List String)
  organisations : List String
  genericOrgs : List String
  accountOrgs : List (String × Option String)
  deriving DecidableEq, Repr

namespace Grants

/-- `*@domain`. -/
def isPattern (key : String) : Bool := key.toList.take 2 = ['*', '@']

/-- Each company in turn, with the organisation that lists it. -/
def listed (g : Grants) : List (String × String) :=
  g.tenants.entries.flatMap fun t => (t.2.accounts.filter (· ≠ "generic")).map fun a => (a, t.1)

/-- The first company that is listed a second time, and both organisations that list it. -/
def heldTwice :
    List (String × String) → List (String × String) → Option (String × String × String)
  | _, [] => none
  | holder, (a, t) :: rest =>
    match holder.lookup a with
    | some first => some (a, first, t)
    | none => heldTwice (holder ++ [(a, t)]) rest

/-- What is refused of a file whose sections have the shape their types say. -/
def assertGrantsShape (g : Grants) (place : String) : Except String Unit :=
  match heldTwice [] (listed g) with
  | some (a, first, t) =>
    throw (place ++ ": account \"" ++ a ++ "\" is listed under both tenants." ++ first ++
      " and tenants." ++ t ++ " — a company belongs to exactly one organisation. Keep it under " ++
      "one, and give the people of the other access to it there.")
  | none =>
    match g.people.entries.find? fun p => isPattern p.1 && (p.2.manage || p.2.everything) with
    | some (who, entry) =>
      throw (place ++ ": people." ++ Text.quoted who ++ " gives a whole email domain " ++
        (if entry.everything then "access to everything" else "Manage") ++ " — that is the " ++
        "staff-by-domain rule this product removed. Name each person who should hold it.")
    | none => pure ()

/-- One `@`, and something in front of it. -/
def isOneAddress (e : String) : Bool := e.toList.count '@' = 1 && e.toList.head? ≠ some '@'

def domainOf (e : String) : String := String.ofList ((e.toList.dropWhile (· ≠ '@')).drop 1)

/-- `holder`: the organisation of each company, the first to list it. -/
def holders (g : Grants) : Keyed String String :=
  (listed g).foldl (fun held a => if a.1 ∈ held.keys then held else held.set a.1 a.2) .empty

section Resolve

variable (low : LowerCase)

/-- How an address is read. -/
def addressOf (email : String) : String := low.lower (Text.trim email)

/-- `matches`: the key is the address, or its domain's pattern. -/
def covers (e key : String) : Bool :=
  low.lower key = e ||
    (isPattern (low.lower key) && String.ofList ((low.lower key).toList.drop 2) = domainOf e)

/-- The first entry whose key is the address without regard to case. -/
def spelled {ν : Type} (e : String) (m : Keyed String ν) : Option (String × ν) :=
  m.entries.find? fun kv => low.lower kv.1 = e

/-- The entries of the guest lists that match an address, with their organisations. -/
def rowsOf (e : String) (g : Grants) : List (String × UserEntry) :=
  g.tenants.entries.flatMap fun t =>
    (t.2.users.entries.filter fun row => covers low e row.1).map fun row => (t.1, row.2)

/-- An exact entry, else the domain's, and a domain holds neither Manage nor everything. -/
def switchesOf (e : String) (people : Keyed String Switches) : Switches :=
  match spelled low e people with
  | some (_, entry) => entry
  | none =>
    match people.entries.find? fun kv => low.lower kv.1 = "*@" ++ domainOf e with
    | some (_, entry) => { run := entry.run }
    | none => {}

def orgsOf (rows : List (String × UserEntry)) : List String :=
  mergeBy id [] (rows.filterMap fun row => if row.2 = .whole then some row.1 else none)

def companiesOf (holder : Keyed String String) (rows : List (String × UserEntry)) : List String :=
  mergeBy id [] (rows.flatMap fun row =>
    match row.2 with
    | .whole => []
    | .companies keys => keys.filter fun k => holder.get k = some row.1)

/-- The person of an address: what the rows and the switches give it. -/
def personOf (e : String) (g : Grants) (switches : Switches) (rows : List (String × UserEntry)) :
    Option Person :=
  let holder := holders g
  let orgs := orgsOf rows
  let companies := companiesOf holder rows
  if switches.everything = false ∧ orgs = [] ∧ companies = [] then none
  else if switches.everything then
    some
      { email := e, everything := true, run := switches.run, manage := switches.manage
        access := [.everything], accounts := none
        organisations := g.tenants.keys, genericOrgs := g.tenants.keys
        accountOrgs := holder.entries.map fun kv => (kv.1, some kv.2) }
  else
    let loose := companies.filter fun k => ¬ (holder.get k).any (· ∈ orgs)
    let accounts := mergeBy id [] ((orgs.flatMap fun t =>
      ((g.tenants.get t).map Tenant.accounts |>.getD []).filter fun a => holder.get a = some t) ++
        loose)
    some
      { email := e, everything := false, run := switches.run, manage := switches.manage
        access := orgs.map .organisation ++ loose.map fun k => .company k (holder.get k)
        accounts := some accounts
        organisations := mergeBy id orgs (loose.filterMap holder.get)
        genericOrgs := orgs
        accountOrgs := accounts.map fun a => (a, holder.get a) }

def resolvePerson (email : String) (g : Grants) : Option Person :=
  let e := addressOf low email
  if isOneAddress e then personOf e g (switchesOf low e g.people) (rowsOf low e g) else none

end Resolve

end Grants

end Clearotron
