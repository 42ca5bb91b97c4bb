import DuckAcl.Model.AdminRights
import DuckAcl.Model.IdentityEdits
import DuckAcl.Model.NameKeys

/-! # The one authorizer

A management statement compiles to one call, and a batch of them is judged before any of it runs
(`AuthorizeMgmt` and `AuthorizeRoleTargets` in `acl_platform.cpp`): each call against the rights of its caller, and
the batch against the roles it would hand administration to. An argument that is judged must be a constant.
-/

namespace DuckAcl

/-- An argument of a call as the statement writes it: a constant, NULL among them, or a parameter. -/
inductive Argument where
  | constant (value : Option Text)
  | parameter
deriving DecidableEq, Repr

/-- The call a management statement compiles to. -/
structure AdminCall where
  name : Text
  arguments : List Argument
deriving DecidableEq, Repr

/-- The values a call runs with, by position; NULL and an argument left out are none. -/
abbrev Values := ℕ → Option Text

namespace Values

variable (values : Values)

/-- `RequiredArg`. -/
def required (index : ℕ) (function what : String) : Except Text Text :=
  match values index with
  | some value => .ok value
  | none => .error (function.toList ++ ": ".toList ++ what.toList ++ " must not be NULL".toList)

/-- `OptionalArg`. -/
def optional (index : ℕ) (fallback : String) : Text := (values index).getD fallback.toList

/-- `RoleArg`. -/
def role (index : ℕ) (function : String) : Except Text Text :=
  (values.required index function "role").bind fun role =>
    if role = [] then
      .error (function.toList ++ ": a role is named - '' is a role only for a function grant (every role)".toList)
    else .ok role

/-- A flag left out is unset. -/
def flag (index : ℕ) : Bool := values index = some "true".toList

end Values

namespace AdminCall

/-- `CompiledCall`: the function's name, in lower case. -/
def function (call : AdminCall) : Text := Text.fold call.name

/-- `ConstantArgument`. -/
def constantArgument (call : AdminCall) (index : ℕ) (function : Text) : Except Text Text :=
  match call.arguments[index]? with
  | none => .ok []
  | some (.constant value) => .ok (value.getD [])
  | some .parameter =>
    .error ("acl admin: platform.".toList ++ function ++ (": the argument that carries authorization must be a constant, " ++
      "not a parameter - it is judged before the call runs").toList)

/-- The values the call runs with, what its parameters are bound to given. -/
def values (call : AdminCall) (bound : Values) : Values := fun index =>
  match call.arguments[index]? with
  | none => none
  | some (.constant value) => value
  | some .parameter => bound index

end AdminCall

/-! ## Capabilities -/

section ParseCaps

variable (strict : Bool) (json : Text)

/-- The loop of `ParseCaps`, with the names met. -/
def capsFrom : List Text → List (Text × JsonValue) → Except BinderException (List Text)
  | _, [] => .ok []
  | named, (name, .bool enabled) :: rest =>
    let word := name ≠ [] && !(name.headD 'a').isDigit && name.all fun c => c.isAlpha || c.isDigit || c = '_'
    if strict && !word then
      .error ("acl catalog: a capability's name is a word (letters, digits, _): ".toList ++ json)
    else if strict && ciContains named name then
      .error ("acl catalog: caps name \"".toList ++ name ++ "\" twice: ".toList ++ json)
    else
      -- the name as a C string: up to its first NUL
      (capsFrom (name :: named) rest).map fun caps =>
        if enabled then name.takeWhile (fun c => decide (c ≠ Char.ofNat 0)) :: caps else caps
  | _, _ :: _ => .error ("acl catalog: caps values must be true/false: ".toList ++ json)

/-- `ParseCaps`. -/
def parseCaps (yyjsonRead : Text → Option JsonValue) : Except BinderException (List Text) :=
  let trimmed := Text.trim json
  if trimmed = [] then .ok []
  else if strict && trimmed.contains '\\' then
    .error ("acl catalog: caps JSON holds no escape - a capability's name is a word: ".toList ++ json)
  else
    match yyjsonRead trimmed with
    | none => .error ("acl catalog: malformed caps JSON: ".toList ++ json)
    | some (.obj members) => capsFrom strict json [] members
    | some _ => .error ("acl catalog: caps must be a JSON object: ".toList ++ json)

end ParseCaps

/-! ## The store -/

/-- The policy store with the identity model, whose mappings are the rows of `role_mappings`. -/
structure AdminStore where
  tables : PolicyTables
  identity : IdentityModel

/-- What a statement of administration finds out besides: the registries of the system catalog, the reader of JSON,
what the engine answers over the tables, the services, and the checks that may refuse a call or a batch. -/
structure AdminNode where
  clusterRegistered : Bool
  registry : PlatformRegistry
  yyjsonRead : Text → Option JsonValue
  /-- `yyjson_val_write`. -/
  yyjsonWrite : JsonValue → Text
  engine : PolicyTables → PolicyEngine
  services : IdentityNode
  /-- `AuthorizeBodies`, `AuthorizeSources`. -/
  refusesBatch : AdminStore → AdminRights → List AdminCall → Option Text
  /-- The checks of a call on names, types and expressions, of its arguments as they run. -/
  refusesCall : AdminStore → Text → Values → Option Text
  /-- `CatalogPredicateChecked`, over what a call runs with. -/
  predicateChecked : PolicyTables → Text → Text → Bool
  /-- What a call leaves in the tables that hold no rights. -/
  rest : AdminStore → Text → Values → PolicyTables

namespace AdminNode

variable (node : AdminNode)

/-- The policy the rights are read from. -/
def policy (store : AdminStore) : FixedPolicy where
  tables := store.tables
  engine := { node.engine store.tables with parseCaps := fun json => parseCaps false json node.yyjsonRead }

/-- `AdminRightsOf`. -/
def adminRightsOf (store : AdminStore) (roles : List Text) : Except BinderException AdminRights :=
  (node.policy store).adminRightsOf node.clusterRegistered roles

/-- `RolePrivileged`. -/
def rolePrivileged (store : AdminStore) (role : Text) : Except BinderException Bool :=
  (node.adminRightsOf store [role]).map AdminRights.privileged

/-! ## One call -/

/-- The refusal of a function only passthrough calls. -/
def escalates (function : Text) : Text :=
  if function = "acl_migrate_catalog".toList then
    ("acl admin: MIGRATE POLICY CATALOG moves the schema window of every node and " ++
      "requires a passthrough scope").toList
  else if function = "acl_grant_platform".toList ∨ function = "acl_revoke_platform".toList then
    ("acl admin: grants on the platform catalog require a passthrough scope - a " ++
      "grantor that can grant everything is everything").toList
  else "acl admin: granting admin scopes requires a passthrough scope".toList

/-- The refusal of a rule of the cluster bundle. -/
def PlatformRule.refuse (rule : PlatformRule) (value : Text) : Text :=
  match rule.refusal with
  | some text => text value
  | none => "acl admin: \"".toList ++ value ++ "\" is refused by the bundle's rule".toList

/-- The branches of `AuthorizeAdminCall` on the right of the function, passthrough and a deny apart. -/
def authorizeRight (call : AdminCall) (rights : AdminRights) (function : PlatformFunction) (vcat : Text) : Except Text Unit :=
  let point := rights.platformGrant "function".toList function.name
  match function.right with
  | .escalates => .error (escalates call.function)
  | .infrastructure =>
    if rights.cluster then
      match function.rule with
      | none => .ok ()
      | some rule =>
        (call.constantArgument rule.argument function.name).bind fun value =>
          if rule.admits value then .ok () else .error (PlatformRule.refuse rule value)
    else
      .error ("acl admin: ACL CLUSTER changes the cluster's infrastructure (extensions, sources, " ++
        "settings) and requires the cluster bundle - manage administers the ACL, not the " ++ "nodes").toList
  | .operate =>
    if rights.operate || point = some true then .ok ()
    else
      .error ("acl admin: platform.".toList ++ function.name ++
        (" is the node's operation and requires the operate bundle - " ++
          "the policy bundle administers the ACL, not the node").toList)
  | .anyHolder => .ok ()
  | .handsOut =>
    if point = some true || rights.unrestrictedManage then .ok ()
    else
      .error ("acl admin: granting access to a catalog requires an unrestricted manage " ++
        "scope - managing a catalog does not include handing it out").toList
  | right =>
    if point = some true || rights.unrestrictedManage then .ok ()
    else if right = .policy ∨ vcat = [] then
      .error "acl admin: this statement is not catalog-specific and needs an unrestricted manage scope".toList
    else if rights.catalogs.any fun catalog => NamePath.keyEquals catalog vcat || Text.ciEquals catalog vcat then .ok ()
    else .error ("acl admin: no manage scope for catalog \"".toList ++ vcat ++ "\"".toList)

/-- The catalog a call names, as its function says. -/
def namedCatalog (call : AdminCall) (function : PlatformFunction) : Except Text Text :=
  match function.catalogArg with
  | none => .ok []
  | some index =>
    (call.constantArgument index function.name).bind fun vcat =>
      if FixedPolicy.isPlatformCatalog vcat then
        .error ("acl admin: \"".toList ++ vcat ++ ("\" is the reserved system catalog of administration - no " ++
          "virtual catalog takes that name").toList)
      else .ok vcat

/-- `AuthorizeAdminCall`. -/
def authorizeAdminCall (call : AdminCall) (rights : AdminRights) : Except Text Unit :=
  match node.registry.functionByTarget call.function with
  | none => .error ("acl admin: cannot authorize the management call \"".toList ++ call.function ++ "\"".toList)
  | some function =>
    (namedCatalog call function).bind fun vcat =>
      if rights.passthrough then .ok ()
      else if rights.platformGrant "function".toList function.name = some false then
        .error ("acl admin: platform.".toList ++ function.name ++ " is denied to the principal".toList)
      else authorizeRight call rights function vcat

/-- `AuthorizeMgmt`. -/
def authorizeMgmt (calls : List AdminCall) (rights : AdminRights) : Except Text Unit :=
  calls.forM fun call => node.authorizeAdminCall call rights

/-! ## The roles a batch reaches -/

/-- `Target`: whether a statement grants a catalog's manage, and to which role. -/
structure GrantTarget where
  manage : Bool := false
  manageRole : Text := []
deriving DecidableEq, Repr

/-- Whether a capabilities text holds `manage`. -/
def namesManage (caps : Text) : Except Text Bool :=
  if caps = [] then .ok false
  else (parseCaps false caps node.yyjsonRead).map fun caps => ciContains caps "manage".toList

/-- Whether a statement grants a catalog's manage. -/
def grantsManage (call : AdminCall) : Except Text Bool :=
  if call.function = "acl_grant_catalog".toList then
    (call.constantArgument 2 "grant_catalog".toList).bind node.namesManage
  else if call.function = "acl_alter_grant".toList then
    (call.constantArgument 2 "alter_grant".toList).bind fun field =>
      (call.constantArgument 3 "alter_grant".toList).bind fun value =>
        if Text.fold field = "caps".toList then node.namesManage value else .ok false
  else .ok false

/-- The loop body that fills `targets`. -/
def grantTarget (call : AdminCall) : Except Text GrantTarget :=
  (node.grantsManage call).bind fun manage =>
    if manage then
      (call.constantArgument 0
        (if call.function = "acl_grant_catalog".toList then "grant_catalog".toList else "alter_grant".toList)).map
        fun manageRole => { manage, manageRole }
    else .ok {}

/-- A statement's grant of manage, and the role it maps, which the loop adds to `mapped_here`. -/
def batchTarget (call : AdminCall) : Except Text (GrantTarget × Option Text) :=
  (node.grantTarget call).bind fun target =>
    if call.function = "acl_map_role".toList then
      (call.constantArgument 4 "map_role".toList).map fun role => (target, some role)
    else .ok (target, none)

/-- Whether a mapping hangs on the client, or on the issuer or one of its clients. -/
def hangsOn (identity : IdentityModel) (issuer client : Text) (mapping : IdentityMapping) : Bool :=
  if Text.ciEquals mapping.scopeKind "client".toList then
    (client ≠ [] && Text.ciEquals mapping.scopeName client) ||
      identity.clients.any fun each =>
        issuer ≠ [] && Text.ciEquals each.name mapping.scopeName && Text.ciEquals each.issuer issuer
  else issuer ≠ [] && Text.ciEquals mapping.scopeName issuer

/-- The loop of `privileged_behind`. -/
def privilegedAmong (store : AdminStore) (issuer client : Text) : List IdentityMapping → Except Text Text
  | [] => .ok []
  | mapping :: rest =>
    if hangsOn store.identity issuer client mapping then
      (node.rolePrivileged store mapping.role).bind fun isPrivileged =>
        if isPrivileged then .ok mapping.role else privilegedAmong store issuer client rest
    else privilegedAmong store issuer client rest

/-- `privileged_behind`. -/
def privilegedBehind (store : AdminStore) (issuer client : Text) : Except Text Text :=
  node.privilegedAmong store issuer client store.identity.mappings

/-- The issuer and the client whose trust a call changes. -/
def trustChanged (call : AdminCall) : Except Text (Text × Text) :=
  if call.function = "acl_alter_issuer".toList ∨ call.function = "acl_define_issuer".toList then
    (call.constantArgument 0 "alter_issuer".toList).map fun issuer => (issuer, [])
  else if call.function = "acl_alter_client".toList then
    (call.constantArgument 0 "alter_client".toList).map fun client => ([], client)
  else if call.function = "acl_define_client".toList then do
    let client ← call.constantArgument 0 "define_client".toList
    let issuer ← call.constantArgument 1 "define_client".toList
    return (issuer, client)
  else .ok ([], [])

/-- `ViewAsRefusal`; nothing where the view is allowed. -/
def viewAsRefusal (store : AdminStore) (rights : AdminRights) (role : Text) : Except Text Text :=
  if !rights.policy then .ok "SET SESSION VIEW AS is the policy bundle's - a point grant does not reach it".toList
  else if role = [] then .ok []
  else if !rights.passthrough && rights.platformGrant "function".toList "view_as".toList = some false then
    .ok "platform.view_as is denied to this principal".toList
  else if !store.tables.has .roles (·.is .role role) then .ok ("role \"".toList ++ role ++ "\" does not exist".toList)
  else if rights.passthrough then .ok []
  else
    (node.rolePrivileged store role).map fun isPrivileged =>
      if isPrivileged then
        "\"".toList ++ role ++ ("\" holds administration - viewing it would show more than the policy " ++
          "bundle reads (the platform's node and cluster views), so it requires a passthrough scope").toList
      else []

/-- The view of a session as a role. -/
def checkView (store : AdminStore) (rights : AdminRights) (call : AdminCall) : Except Text Unit :=
  if call.function = "acl_session_view_as".toList then
    (call.constantArgument 0 "view_as".toList).bind fun role =>
      (node.viewAsRefusal store rights role).bind fun why =>
        if why = [] then .ok () else .error ("acl admin: ".toList ++ why)
  else .ok ()

/-- The change of an issuer or a client. -/
def checkTrust (store : AdminStore) (call : AdminCall) : Except Text Unit :=
  (trustChanged call).bind fun changed =>
    if changed.1 = [] ∧ changed.2 = [] then .ok ()
    else
      (node.privilegedBehind store changed.1 changed.2).bind fun role =>
        if role = [] then .ok ()
        else
          .error ("acl admin: ".toList ++ (if changed.2 = [] then "issuer".toList else "client".toList) ++ " \"".toList ++
            (if changed.2 = [] then changed.1 else changed.2) ++ "\" carries a mapping to \"".toList ++ role ++
            ("\", which holds administration - changing whom it trusts hands that administration out, so it requires a " ++
              "passthrough scope").toList)

/-- The grant of a catalog's manage. -/
def checkManage (store : AdminStore) (mapped : List Text) (target : GrantTarget) : Except Text Unit :=
  if target.manage ∧ (target.manageRole ∈ mapped ∨ ∃ mapping ∈ store.identity.mappings, mapping.role = target.manageRole) then
    .error ("acl admin: \"".toList ++ target.manageRole ++
      ("\" is reached by a role mapping, so granting it a catalog's manage hands administration to whoever holds the " ++
        "claim - it requires a passthrough scope, as mapping to an administering role does").toList)
  else .ok ()

/-- The mapping of a claim to a role. -/
def checkMapping (store : AdminStore) (managed : List Text) (call : AdminCall) : Except Text Unit :=
  if call.function = "acl_map_role".toList then
    (call.constantArgument 4 "map_role".toList).bind fun role =>
      if role ∈ managed then
        .error ("acl admin: \"".toList ++ role ++
          ("\" is given a catalog's manage by this batch, so mapping a claim to it hands that administration out - it " ++
            "requires a passthrough scope").toList)
      else
        (node.rolePrivileged store role).bind fun isPrivileged =>
          if isPrivileged then
            .error ("acl admin: \"".toList ++ role ++
              ("\" holds administration, so mapping a claim to it hands that administration out - it requires a " ++
                "passthrough scope, as granting the bundle does").toList)
          else .ok ()
  else .ok ()

/-- The checks of one statement, in the order of the loop's body. -/
def authorizeTarget (store : AdminStore) (rights : AdminRights) (mapped managed : List Text) (statement : AdminCall × GrantTarget) :
    Except Text Unit := do
  node.checkView store rights statement.1
  node.checkTrust store statement.1
  checkManage store mapped statement.2
  node.checkMapping store managed statement.1

/-- `AuthorizeRoleTargets`: the targets of the whole batch first, whatever its order. -/
def authorizeRoleTargets (store : AdminStore) (rights : AdminRights) (calls : List AdminCall) : Except Text Unit :=
  if rights.passthrough then .ok ()
  else do
    let targets ← calls.mapM node.batchTarget
    let managed := (targets.map Prod.fst).filter (·.manage)
    (calls.zip (targets.map Prod.fst)).forM
      (node.authorizeTarget store rights (targets.filterMap Prod.snd) (managed.map (·.manageRole)))

end AdminNode

end DuckAcl
