import Clearotron.Grants.Scope

/-!
# What a session may call, and with which arguments

Every tool call passes one gate. It refuses, or returns the arguments that are dispatched: a
report link's are pinned to its run, a client's order is stamped with who is asking.
-/

namespace Clearotron

/-- An argument, as far as the gate can see it: what `String` shows of a value that is neither
a text nor a boolean, and whether it counts as true. -/
inductive ArgValue
  | null
  | flag (value : Bool)
  | text (value : String)
  | other (shown : String) (truthy : Bool)
  deriving DecidableEq, Repr

/-- The arguments of a call. A property that is `undefined` is one that is not there. -/
abbrev ToolArgs := Keyed String ArgValue

structure ToolRule where
  write : Bool := false
  crossRun : Bool := false
  clientSafe : Bool := false
  accountSafe : Bool := false
  deriving DecidableEq, Repr

namespace Grants

/-- `TOOL_SCOPES`, as far as the gate reads it. -/
def toolScopes : List (String × ToolRule) :=
  [("server_info", { clientSafe := true, accountSafe := true }),
    ("brief", { clientSafe := true, accountSafe := true }),
    ("read_artifact", { clientSafe := true, accountSafe := true }),
    ("list_findings", { clientSafe := true, accountSafe := true }),
    ("list_evidence", { accountSafe := true }), ("list_searches", { accountSafe := true }),
    ("get_search_coverage", { accountSafe := true }), ("get_run", { accountSafe := true }),
    ("get_finding", { accountSafe := true }), ("trace", { accountSafe := true }),
    ("decision_timeline", { accountSafe := true }), ("get_telemetry", {}),
    ("get_provider_usage", {}), ("get_coverage", {}), ("search", {}), ("run_changes", {}),
    ("diff_artifact", {}), ("list_runs", { crossRun := true, accountSafe := true }),
    ("search_runs", { crossRun := true }), ("list_profiles", { crossRun := true }),
    ("plan_run", { crossRun := true, accountSafe := true }),
    ("describe_options", { crossRun := true, accountSafe := true }),
    ("what_if_plan", { write := true, accountSafe := true }),
    ("what_if_run", { write := true, accountSafe := true }),
    ("what_if_result", { accountSafe := true }),
    ("start_run", { write := true, crossRun := true, accountSafe := true }),
    ("stop_run", { write := true, accountSafe := true }), ("feed_context", { write := true }),
    ("mark_sent", { write := true }), ("ack_event", { write := true }),
    ("list_outbox_events", { crossRun := true }), ("get_delivery_packet", {})]

/-- The rule of a tool; a tool that is not in the table has none. -/
def ruleOf (tool : String) : ToolRule := (toolScopes.lookup tool).getD {}

/-- `USER_ARTIFACTS`. -/
def userArtifacts : List String := ["report"]

/-- `ACCOUNT_ARTIFACTS`. -/
def accountArtifacts : List String :=
  ["report", "audit", "narrative", "registerFindings", "commonLaw", "caseLaw", "matterContext"]

/-- `ACCOUNT_FINDING_KINDS`. -/
def accountFindingKinds : List String := ["findings", "negatives", "audit"]

/-- `USER_FINDING_GROUPS`. -/
def userFindingGroups : List String := ["on-field", "off-field", "out-of-scope"]

/-- An axis: a small letter, then 2 to 40 small letters, digits and hyphens. -/
def isAxis : List Char → Bool
  | [] => false
  | c :: rest => c.isLower && 2 ≤ rest.length && rest.length ≤ 40 &&
      rest.all fun c => c.isLower || c.isDigit || c = '-'

/-- `AXIS_PREFIXED`. -/
def axisPrefixed (name : String) : Bool :=
  ["registerUnit:", "registerunit:", "register-Unit:", "register-unit:"].any fun front =>
    front.toList.isPrefixOf name.toList && isAxis (name.toList.drop front.length)

end Grants

namespace ArgValue

/-- `String(value)`. -/
def shown : ArgValue → String
  | .null => "null"
  | .flag b => if b then "true" else "false"
  | .text s => s
  | .other s _ => s

def truthy : ArgValue → Bool
  | .null => false
  | .flag b => b
  | .text s => s ≠ ""
  | .other _ b => b

/-- One of these texts. -/
def among (v : ArgValue) (texts : List String) : Bool :=
  match v with
  | .text s => s ∈ texts
  | _ => false

end ArgValue

namespace Grants

/-- `args.x ?? other`. -/
def orElse (v : Option ArgValue) (other : String) : ArgValue :=
  match v with
  | none | some .null => .text other
  | some v => v

def isTruthy (v : Option ArgValue) : Bool := v.any ArgValue.truthy

/-- `accountMayReadArtifact`. -/
def accountMayReadArtifact (name : Option ArgValue) : Bool :=
  let n := (orElse name "").shown
  n ∈ accountArtifacts || axisPrefixed n

/-- The text a message shows of an argument. -/
def shownOf (v : Option ArgValue) : String := (orElse v "?").shown

def joined (keys : List String) : String := ", ".intercalate keys

/-- `GENERIC_NOT_GRANTED`. -/
def genericNotGranted : String :=
  "The neutral generic profile is not part of this session's access — ask the account holder to " ++
    "grant it, or set the new client up as their own company in the portal."

def notInGrant (reach key tool : String) : String :=
  "your grant [" ++ reach ++ "] does not include account \"" ++ key ++ "\" — " ++ tool ++ " refused"

/-- Which organisation's Generic an order means. -/
def tenantStamp (scope : Scope) (asked : Option ArgValue) : Except String (Option String) :=
  let named := match asked with
    | some (.text s) => if Text.trim s = "" then none else some (Text.trim s)
    | _ => none
  match named with
  | some t =>
    if t ∈ scope.genericOrgs then pure (some t)
    else throw ("your access does not include organisation \"" ++ t ++ "\"")
  | none =>
    match scope.genericOrgs with
    | [t] => pure (some t)
    | orgs =>
      if scope.everything then pure none
      else throw ("name the organisation whose Generic this is (tenant) — your access covers " ++
        toString orgs.length)

/-- The install's organisation, where it has one. -/
def soleOrganisation (grants : Option Grants) : Option String :=
  match grants.map (·.tenants.keys) with
  | some [t] => some t
  | _ => none

def stampForwarder (scope : Scope) (args : ToolArgs) : ToolArgs :=
  let sub := nonempty scope.sub
  let out := args.set "forwarder"
    (if isTruthy (args.get "forwarder") then (args.get "forwarder").getD .null
      else .text (sub.getD "cordillera-mcp"))
  match sub with
  | some who =>
    if !isTruthy (out.get "forwarderEmail") && who.toList.contains '@' then
      out.set "forwarderEmail" (.text who)
    else out
  | none => out

/-- The tool starts a run, or previews one. -/
def ordersRun (tool : String) : Bool := tool = "start_run" || tool = "plan_run"

/-- `args?.profileKey ?? "generic"`. -/
def profileKey (args : ToolArgs) : ArgValue := orElse (args.get "profileKey") "generic"

/-- The key is one of the session's accounts. -/
def holdsKey (scope : Scope) (key : ArgValue) : Bool :=
  match scope.accounts with
  | .all => true
  | .keys acc => key.among acc
  | .moot => false

/-- A check of the gate. -/
def refuse (bad : Bool) (message : String) : Except String Unit :=
  if bad then throw message else pure ()

/-- What a session may order under: its accounts, and Generic where it is granted. -/
def mayOrder (scope : Scope) (key : ArgValue) : Bool :=
  if key = .text "generic" then grantsGeneric scope else holdsKey scope key

/-- The refusal of an order, with the session's reach. -/
def orderRefused (scope : Scope) (key : ArgValue) (tool : String) : String :=
  let reach := match scope.accounts with
    | .all => "everything"
    | .keys acc => joined acc
    | .moot => ""
  notInGrant reach key.shown tool ++ "." ++
    if key = .text "generic" then " " ++ genericNotGranted else ""

/-- The curated cards: the raw view's arguments are dropped. -/
def cards (runId : Option ArgValue) (args : ToolArgs) : ToolArgs :=
  let named := match runId with
    | some run => Keyed.empty.set "runId" run
    | none => Keyed.empty
  match args.get "group" with
  | some group => named.set "group" group
  | none => named

/-- What is asked of every session that is bounded by accounts: whose options it reads. -/
def optionsGate (scope : Scope) (tool : String) (args : ToolArgs) : Except String Unit :=
  match scope.accounts with
  | .keys acc =>
    refuse (tool = "describe_options" && isTruthy (args.get "profileKey") &&
        !decide (shownOf (args.get "profileKey") ∈ acc))
      (notInGrant (joined acc) (shownOf (args.get "profileKey")) tool)
  | _ => pure ()

/-- The argument names an organisation. -/
def namesTenant (asked : Option ArgValue) : Bool :=
  match asked with
  | some (.text s) => Text.trim s ≠ ""
  | _ => false

/-- The scope is one of listed accounts. -/
def isBounded (scope : Scope) : Bool :=
  match scope.accounts with
  | .keys _ => true
  | _ => false

/-- The order is filed under an organisation. -/
def placeUnder (tenant : Option String) (args : ToolArgs) : ToolArgs :=
  match tenant with
  | some t => args.set "tenant" (.text t)
  | none => args

def authorizeOps (sole : Option String) (scope : Scope) (tool : String) (args : ToolArgs) :
    Except String ToolArgs := do
  refuse ((ruleOf tool).write && scope.verbs.any fun verbs => !decide (tool ∈ verbs))
    ("this ops token is verb-scoped to [" ++ joined (scope.verbs.getD []) ++ "] — \"" ++ tool ++
      "\" is not on it")
  let key := profileKey args
  refuse (ordersRun tool && isBounded scope && !mayOrder scope key) (orderRefused scope key tool)
  let placed := if ordersRun tool && key = .text "generic" && !namesTenant (args.get "tenant")
    then nonempty sole else none
  let routed := placeUnder placed args
  pure (if tool = "plan_run" then stampForwarder scope routed else routed)

/-- The organisation whose Generic an order is filed under, on a Generic order only. -/
def orderTenant (scope : Scope) (args : ToolArgs) : Except String (Option String) :=
  if profileKey args = .text "generic" then tenantStamp scope (args.get "tenant") else pure none

/-- Who asks: the forwarder a call chose, and the address of the verified identity. -/
def stampIdentity (scope : Scope) (args : ToolArgs) : ToolArgs :=
  let forwarded := args.set "forwarder"
    (if isTruthy (args.get "forwarder") then (args.get "forwarder").getD .null
      else .text ((nonempty scope.sub).getD "client-mcp"))
  match scope.sub with
  | some who => forwarded.set "forwarderEmail" (.text who)
  | none => forwarded

/-- Everyone but a person who sees everything is capped, on a start. -/
def stampCap (scope : Scope) (tool : String) (args : ToolArgs) : ToolArgs :=
  if tool = "start_run" && !scope.everything then args.set "clientPrincipal" (.flag true) else args

/-- An order of a client: who asks, for which Generic, and capped. -/
def stampOrder (scope : Scope) (tool : String) (args : ToolArgs) : Except String ToolArgs :=
  (orderTenant scope args).map fun tenant =>
    stampCap scope tool (placeUnder tenant (stampIdentity scope (args.erase "tenant")))

def authorizeAccount (scope : Scope) (tool : String) (args : ToolArgs) :
    Except String ToolArgs := do
  refuse (!(ruleOf tool).accountSafe)
    ("tool \"" ++ tool ++ "\" is not available to a client account session")
  refuse (tool = "read_artifact" && !accountMayReadArtifact (args.get "name"))
    ("artifact \"" ++ shownOf (args.get "name") ++ "\" is not readable by a client account — " ++
      "readable: " ++ joined accountArtifacts ++ ", or a register axis as \"registerUnit:<axis>\"")
  refuse (tool = "list_findings" && !isTruthy (args.get "group") &&
      !(orElse (args.get "kind") "findings").among accountFindingKinds)
    ("list_findings: kind must be one of " ++ " | ".intercalate accountFindingKinds ++
      ", or pass a curated group (" ++ " | ".intercalate userFindingGroups ++ ")")
  if tool = "list_findings" && isTruthy (args.get "group") then do
    refuse (!(args.get "group").any (·.among userFindingGroups))
      ("a client may only list findings by curated group (on-field | off-field | " ++
        "out-of-scope) — pass `kind` for the raw audit trail")
    pure (cards (args.get "runId") args)
  else do
    refuse ((tool = "what_if_plan" || tool = "what_if_run") && (args.get "model").any (· ≠ .null))
      ("what-if: \"model\" is not available to a client account — the model tier is chosen by " ++
        "the service. Express the change with \"instructions\".")
    refuse (tool = "what_if_run" && !isTruthy (args.get "runId"))
      ("what_if_run: pass the runId of the run you planned against — a client session must name " ++
        "the run it is changing.")
    refuse (((ruleOf tool).write || tool = "plan_run") && !scope.run)
      ("tool \"" ++ tool ++ "\" needs Run clearances, which this person does not hold")
    let key := profileKey args
    refuse (ordersRun tool && !mayOrder scope key) (orderRefused scope key tool)
    if ordersRun tool then stampOrder scope tool args else pure args

def authorizeLink (scope : Scope) (tool : String) (args : ToolArgs) : Except String ToolArgs := do
  refuse (!(ruleOf tool).clientSafe)
    ("tool \"" ++ tool ++ "\" is not available to a client (user) token — client layer only")
  refuse (tool = "read_artifact" && !(args.get "name").any (·.among userArtifacts))
    ("a client token may only read the report (got \"" ++ shownOf (args.get "name") ++ "\")")
  refuse (tool = "list_findings" && !(args.get "group").any (·.among userFindingGroups))
    ("a client token may only list findings by curated group (on-field | off-field | " ++
      "out-of-scope) — the raw audit trail is internal")
  refuse (ruleOf tool).crossRun
    ("tool \"" ++ tool ++ "\" is not available to a run-scoped (user) token")
  match nonempty scope.runId with
  | none => throw "user token has no run binding"
  | some run => do
    refuse ((args.get "runId").any fun v => v ≠ .null && v.shown ≠ run)
      ("this token is scoped to run \"" ++ run ++ "\" and cannot access \"" ++
        shownOf (args.get "runId") ++ "\"")
    pure (if tool = "list_findings" then cards (some (.text run)) args
      else args.set "runId" (.text run))

/-- What sessions that only read are refused. -/
def readOnlyGate (tool : String) : Except String Unit :=
  refuse (ruleOf tool).write
    ("tool \"" ++ tool ++ "\" requires an ops token — this is a read-only session")

/-- The gate every tool call passes. -/
def authorize (sole : Option String) (scope : Scope) (tool : String) (args : ToolArgs) :
    Except String ToolArgs := do
  optionsGate scope tool args
  match scope.kind with
  | .ops => authorizeOps sole scope tool args
  | .account => authorizeAccount scope tool args
  | .internal => do
    readOnlyGate tool
    pure (if tool = "plan_run" then stampForwarder scope args else args)
  | .user => do
    readOnlyGate tool
    authorizeLink scope tool args

end Grants

end Clearotron
