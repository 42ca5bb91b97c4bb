import DuckAcl.Model.AdminCalls
import DuckAcl.Model.AdminLists
import DuckAcl.Model.PolicyRevocation
import DuckAcl.Model.SchemaGrants
import DuckAcl.Model.Spelling

/-! # What the administration calls write

The functions that grant, revoke and drop (`acl_admin_functions.cpp`, `acl_platform_sources.cpp`), over the writers of
`acl_catalog_admin.cpp`. Only these write the tables that hold rights and the identity model; what any call leaves in
the other tables is a parameter, and so are the checks on names, types and expressions that may refuse it.
-/

namespace DuckAcl

/-- The tables the rights are read from. -/
def TableName.holdsRights : TableName → Bool
  | .admins | .platformGrants | .roleCatalogs => true
  | _ => false

namespace PolicyTables

/-- The tables that hold rights from one store, the others from another. -/
def overlay (rights rest : PolicyTables) : PolicyTables where
  rows table := if table.holdsRights then rights.rows table else rest.rows table
  own table row member cell absent := by
    split_ifs at member
    · exact rights.own table row member cell absent
    · exact rest.own table row member cell absent

/-- The catalogs' names as the tables spell them. -/
def catalogNames (store : PolicyTables) (vcat : Text) : List Text :=
  (([TableName.catalogs, .roleCatalogs, .relations, .functions, .schemas].flatMap store.rows).filterMap fun row =>
    match row .vcat with
    | .text name => if NamePath.keyEquals name vcat then some name else none
    | _ => none).dedup

/-- `StoredCatalog`, of a catalog that is not created. -/
def storedCatalog (store : PolicyTables) (vcat : Text) : Except Text Text :=
  if vcat = [] then .ok vcat else spell vcat (store.catalogNames vcat) false "catalog".toList

/-- The row is the role's, on the catalog. -/
def isGrant (role vcat : Text) (row : Row) : Bool := row.is .role role && row.is .vcat vcat

/-- `EnsureGrantSql`. -/
def ensureGrant (store : PolicyTables) (role vcat : Text) : PolicyTables :=
  if store.has .roleCatalogs (isGrant role vcat) then store
  else
    store.insert .roleCatalogs
      [(.role, .text role), (.vcat, .text vcat), (.isMain, .boolean false), (.caps, .text ['\x7b', '\x7d'])]

/-- The table with each row changed; a change stays within the table's columns. -/
def mapRows (store : PolicyTables) (table : TableName) (cell : Column) (held : cell ∈ table.columns)
    (value : Row → Option Value) : PolicyTables where
  rows := Function.update store.rows table ((store.rows table).map fun row =>
    match value row with
    | some value => Function.update row cell value
    | none => row)
  own other row member given absent := by
    by_cases same : other = table
    · subst same
      rw [Function.update_self] at member
      obtain ⟨before, inside, rfl⟩ := List.mem_map.mp member
      have kept := store.own other before inside given absent
      cases value before with
      | none => exact kept
      | some value =>
        have apart : given ≠ cell := fun same => absent (same ▸ held)
        simpa [Function.update_of_ne apart] using kept
    · rw [Function.update_of_ne same] at member
      exact store.own other row member given absent

/-- `UPDATE … SET "caps" = caps WHERE "role" = role AND "vcat" = vcat`. -/
def setCaps (store : PolicyTables) (role vcat caps : Text) : PolicyTables :=
  store.mapRows .roleCatalogs .caps (by decide) fun row => if isGrant role vcat row then some (.text caps) else none

/-- The rows of `admins` for one bundle of a role, not of a catalog. -/
def isBundle (role scope : Text) (row : Row) : Bool := row.is .role role && row.is .scope scope && row.is .vcat []

/-- `CatalogGrantAdmin`. -/
def catalogGrantAdmin (store : PolicyTables) (role scope : Text) : PolicyTables :=
  store.writeAll [.delete ⟨.admins, isBundle role scope⟩,
    .insert .admins [(.role, .text role), (.scope, .text scope), (.vcat, .text [])]]

/-- The row is the role's grant on an object of the system catalog, in any case. -/
def isPlatformGrant (role kind object : Text) (row : Row) : Bool :=
  row.is .role role && Text.ciEquals (FixedPolicy.cellText (row .object)) object &&
    Text.ciEquals (FixedPolicy.cellText (row .kind)) kind

/-- `CatalogWritePlatformGrant`. -/
def catalogWritePlatformGrant (store : PolicyTables) (role kind object : Text) (allowed : Option Bool) :
    Except Text PolicyTables :=
  match allowed with
  | some allowed =>
    .ok (store.writeAll [.delete ⟨.platformGrants, isPlatformGrant role kind object⟩,
      .insert .platformGrants
        [(.role, .text role), (.object, .text object), (.kind, .text kind), (.allowed, .boolean allowed)]])
  | none =>
    if store.has .platformGrants (isPlatformGrant role kind object) then
      .ok (store.deleteAll [⟨.platformGrants, isPlatformGrant role kind object⟩])
    else .error (nothingToRevoke role ("grant on ".toList ++ kind ++ " \"".toList ++ object ++ "\"".toList))

end PolicyTables

/-- A bundle that carries another, which is therefore not revoked alone. -/
def impliesScope (holds scope : Text) : Bool :=
  (holds = "manage".toList && (scope = "policy".toList || scope = "observe".toList)) ||
    (holds = "operate".toList && scope = "observe".toList) ||
    (holds = "cluster".toList && (scope = "operate".toList || scope = "observe".toList)) ||
    (holds = "passthrough".toList && scope ≠ "passthrough".toList)

namespace AdminNode

variable (node : AdminNode)

open PolicyTables (isGrant isBundle deleteRole deletePair nothingToRevoke)
open FixedPolicy (cellText isPlatformCatalog)

/-- `ParseAdminScope`. -/
def parseAdminScope (scope : Text) : Except Text AdminScope :=
  match tryParseAdminScope node.clusterRegistered scope with
  | some parsed => .ok parsed
  | none => .error ("acl admin: unknown admin scope \"".toList ++ scope ++ "\" (expected ".toList ++
      ", ".toList.intercalate (grantableAdminScopes node.clusterRegistered) ++ ")".toList)

/-- `CatalogKey`: one identifier, as its key. -/
def catalogKey (function : String) (text : Text) : Except Text Text :=
  if text = [] then .ok text
  else
    match NamePath.fromKey text with
    | none => .error (function.toList ++ ": the catalog \"".toList ++ text ++ "\" is not a name".toList)
    | some parts =>
      if 1 < parts.length then
        .error (function.toList ++ ": a catalog is one identifier - write \"".toList ++ text ++
          "\" in double quotes for a name with a dot in it".toList)
      else if isPlatformCatalog (NamePath.toKey parts) then
        .error (function.toList ++ ": \"".toList ++ text ++
          "\" is the reserved system catalog of administration, not a virtual catalog".toList)
      else .ok (NamePath.toKey parts)

/-- `CatalogArg`, as the policy spells it. -/
def catalogArg (tables : PolicyTables) (values : Values) (index : ℕ) (function : String) : Except Text Text :=
  (values.required index function "catalog").bind fun text => (catalogKey function text).bind tables.storedCatalog

/-- What a grant of a catalog says. -/
structure GrantRequest where
  role : Text
  vcat : Text
  capsJson : Text
  isMain : Bool
  rls : Text
  columns : Text
  judgeCaps : Bool := true

/-- The row a grant of a catalog writes. -/
def grantCells (tables : PolicyTables) (request : GrantRequest) : List (Column × Value) :=
  [(.role, .text request.role), (.vcat, .text request.vcat), (.isMain, .boolean request.isMain),
    (.caps, .text request.capsJson), (.rls, .text request.rls), (.columns, .text request.columns),
    (.rlsChecked,
      if request.rls = [] then .null else .boolean (node.predicateChecked tables request.vcat request.rls))]

/-- The role's grant of the catalog, replaced. -/
def writeGrant (tables : PolicyTables) (request : GrantRequest) : PolicyTables :=
  tables.writeAll [.delete (deletePair request.role request.vcat .roleCatalogs),
    .insert .roleCatalogs (node.grantCells tables request)]

/-- `CatalogGrant`. -/
def catalogGrant (tables : PolicyTables) (request : GrantRequest) : Except Text PolicyTables :=
  if request.vcat = [] then .error "acl admin: a grant needs a catalog name".toList
  else (parseCaps request.judgeCaps request.capsJson node.yyjsonRead).map fun _ => node.writeGrant tables request

/-- A text column; NULL is empty. -/
def columnText (row : Row) (cell : Column) : Text :=
  match row cell with
  | .null => []
  | value => cellText value

/-- `CatalogAlterGrant`. -/
def catalogAlterGrant (tables : PolicyTables) (role vcat field value : Text) : Except Text PolicyTables :=
  match (tables.rows .roleCatalogs).find? (isGrant role vcat) with
  | none => .error ("acl admin: grant of catalog \"".toList ++ vcat ++ "\" to role \"".toList ++ role ++
      "\" does not exist".toList)
  | some row =>
    let current : GrantRequest :=
      { role, vcat, capsJson := columnText row .caps, isMain := decide (row .isMain = .boolean true),
        rls := columnText row .rls, columns := columnText row .columns, judgeCaps := false }
    if field = "caps".toList then node.catalogGrant tables { current with capsJson := value, judgeCaps := true }
    else if field = "rls".toList then node.catalogGrant tables { current with rls := value }
    else if field = "columns".toList then node.catalogGrant tables { current with columns := value }
    else if field = "main".toList then
      if Text.ciEquals value "true".toList || Text.ciEquals value "false".toList then
        node.catalogGrant tables { current with isMain := Text.ciEquals value "true".toList }
      else .error ("acl admin: MAIN expects true or false, got \"".toList ++ value ++ "\"".toList)
    else .error ("acl admin: unknown grant property \"".toList ++ field ++ "\"".toList)

/-- The part of `CatalogRevokeAdmin` on one bundle, whose name is in lower case. -/
def revokeBundle (tables : PolicyTables) (role scope : Text) : Except Text PolicyTables :=
  let held := ((tables.rows .admins).filter fun row => row.is .role role && row.is .vcat []).map fun row =>
    cellText (row .scope)
  match (held.map Text.fold).find? (impliesScope · scope) with
  | some holds =>
    .error ("acl admin: role \"".toList ++ role ++ "\" holds ".toList ++ holds ++ ", which carries ".toList ++ scope ++
      " - revoke ".toList ++ holds ++ " (and grant what should stay)".toList)
  | none =>
    if held.any (Text.ciEquals · scope) then .ok (tables.deleteAll [⟨.admins, isBundle role scope⟩])
    else .error ("acl admin: role \"".toList ++ role ++ "\" does not hold ".toList ++ scope ++ " - nothing to revoke".toList)

/-- Capabilities as the revoke writes them. -/
def capsText (caps : List Text) : Text :=
  '\x7b' :: ", ".toList.intercalate (caps.map fun cap => AdminLists.jsonQuote cap ++ ": true".toList) ++ ['\x7d']

/-- What a text of capabilities is without `manage`; nothing where it holds none. -/
def withoutManage (row : Row) : Except Text (Option Text) :=
  (parseCaps false (columnText row .caps) node.yyjsonRead).map fun caps =>
    if ciContains caps "manage".toList then
      some (capsText ((PolicyTables.firstSpellings caps).filter (!Text.ciEquals · "manage".toList)))
    else none

/-- The part of `CatalogRevokeAdmin` on everything: the bundles, the point grants and the manage of every catalog. -/
def revokeAll (tables : PolicyTables) (role : Text) : Except Text PolicyTables := do
  let grants := (tables.rows .roleCatalogs).filter (·.is .role role)
  let rewritten ← grants.mapM fun row => (node.withoutManage row).map fun caps => (cellText (row .vcat), caps)
  let managing := rewritten.filterMap fun grant => grant.2.map fun caps => (grant.1, caps)
  if tables.has .admins (·.is .role role) || tables.has .platformGrants (·.is .role role) || !managing.isEmpty then
    return (managing.foldl (fun tables grant => tables.setCaps role grant.1 grant.2)
      (tables.deleteAll [deleteRole role .admins, deleteRole role .platformGrants]))
  throw (nothingToRevoke role "administration".toList)

/-- The verdicts on the predicates of a catalog's grants, as `CatalogRefreshSchema` writes them. -/
def recheckGrants (tables : PolicyTables) (vcat : Text) : PolicyTables :=
  tables.mapRows .roleCatalogs .rlsChecked (by decide) fun row =>
    if row.is .vcat vcat && columnText row .rls ≠ [] then
      some (.boolean (node.predicateChecked tables vcat (columnText row .rls)))
    else none

/-- `PlatformGrantTarget`: the role, the kind and the object of a point grant. -/
def platformGrantTarget (values : Values) (function : String) : Except Text (Text × Text × Text) := do
  let role := values.optional 0 ""
  if role = [] then
    throw (function.toList ++ ": a grant on the platform catalog names one role - never every role ('')".toList)
  let kind := Text.fold (← values.required 1 function "kind")
  let object := Text.fold (← values.required 2 function "object")
  if kind = "view".toList then
    if (node.registry.findView object).isNone then
      throw (function.toList ++ ": the platform catalog has no view \"".toList ++ object ++ "\"".toList)
    return (role, kind, object)
  if kind ≠ "function".toList then
    throw (function.toList ++ ": the kind is view or function, got \"".toList ++ kind ++ "\"".toList)
  match node.registry.findFunction object with
  | none => throw (function.toList ++ ": the platform catalog has no function \"".toList ++ object ++ "\"".toList)
  | some found =>
    let never (whose : String) : Except Text (Text × Text × Text) :=
      throw (function.toList ++ ": platform.".toList ++ object ++ " is ".toList ++ whose.toList ++
        " - it is never granted by name".toList)
    match found.right with
    | .anyHolder => never "every holder's"
    | .infrastructure => never "the cluster bundle's alone"
    | .escalates => never "the passthrough scope's alone"
    | _ => return (role, kind, object)

/-- `SourceGrantFunc`: the role and the source, a database or one of its schemas. -/
def sourceGrantTarget (values : Values) (function : String) : Except Text (Text × Text) := do
  let role := values.optional 0 ""
  if role = [] then
    throw (function.toList ++ ": a source is granted to one role - never to every role ('')".toList)
  let source ← values.required 1 function "source"
  match NamePath.fromKey source with
  | some [database] => return (role, NamePath.toKey [database])
  | some [database, schema] => return (role, NamePath.toKey [database, schema])
  | _ => throw (function.toList ++ ": a source is <database> or <database>.<schema>, not \"".toList ++ source ++ "\"".toList)

/-- `EditIdentity`, over the roles that hold administration now. -/
def editIdentity (store : AdminStore) (edit : IdentityModel → Except Text IdentityModel) : Except Text AdminStore := do
  let edited ← edit store.identity
  let services := { node.services with
    privileged := fun role => (node.rolePrivileged store role).toOption.getD false }
  let identity ← services.editIdentity store.identity edited
  return { store with identity }

end AdminNode

/-- The calls that write rights or the identity model. -/
inductive AdminOperation where
  | grantCatalog
  | revokeCatalog
  | alterGrant
  | dropCatalog
  | grantObject
  | grantSchema
  | refreshSchema
  | dropRole
  | grantAdmin
  | revokeAdmin
  | grantPlatform
  | revokePlatform
  | grantSource
  | revokeSource
  | defineIssuer
  | alterIssuer
  | dropIssuer
  | defineClient
  | alterClient
  | dropClient
  | mapRole
  | dropRoleMapping
deriving DecidableEq, Repr

namespace AdminOperation

/-- The function of an operation. -/
def target : AdminOperation → String
  | .grantCatalog => "acl_grant_catalog"
  | .revokeCatalog => "acl_revoke_catalog"
  | .alterGrant => "acl_alter_grant"
  | .dropCatalog => "acl_drop_catalog"
  | .grantObject => "acl_grant_object"
  | .grantSchema => "acl_grant_schema"
  | .refreshSchema => "acl_refresh_schema"
  | .dropRole => "acl_drop_role"
  | .grantAdmin => "acl_grant_admin"
  | .revokeAdmin => "acl_revoke_admin"
  | .grantPlatform => "acl_grant_platform"
  | .revokePlatform => "acl_revoke_platform"
  | .grantSource => "acl_grant_source"
  | .revokeSource => "acl_revoke_source"
  | .defineIssuer => "acl_define_issuer"
  | .alterIssuer => "acl_alter_issuer"
  | .dropIssuer => "acl_drop_issuer"
  | .defineClient => "acl_define_client"
  | .alterClient => "acl_alter_client"
  | .dropClient => "acl_drop_client"
  | .mapRole => "acl_map_role"
  | .dropRoleMapping => "acl_drop_role_mapping"

def all : List AdminOperation :=
  [.grantCatalog, .revokeCatalog, .alterGrant, .dropCatalog, .grantObject, .grantSchema, .refreshSchema, .dropRole,
    .grantAdmin, .revokeAdmin, .grantPlatform, .revokePlatform, .grantSource, .revokeSource, .defineIssuer, .alterIssuer,
    .dropIssuer, .defineClient, .alterClient, .dropClient, .mapRole, .dropRoleMapping]

/-- The operation of a function, if it is one of these. -/
def of (function : Text) : Option AdminOperation := all.find? fun operation => decide (operation.target.toList = function)

end AdminOperation

namespace AdminNode

variable (node : AdminNode)

open PolicyTables (isGrant)

/-- The edit of the identity model an operation makes, over the arguments it runs with. -/
def edit (values : Values) (operation : AdminOperation) (model : IdentityModel) : Except Text IdentityModel :=
  match operation with
  | .defineIssuer => do
    let name ← values.required 0 "acl_define_issuer" "issuer"
    model.defineIssuer node.yyjsonRead node.yyjsonWrite node.services name (values.optional 1 "") (values.optional 2 "replace")
  | .alterIssuer => do
    let name ← values.required 0 "acl_alter_issuer" "issuer"
    let spec ← values.required 1 "acl_alter_issuer" "spec"
    model.alterIssuer node.yyjsonRead node.yyjsonWrite node.services name spec
  | .dropIssuer => do
    let name ← values.required 0 "acl_drop_issuer" "issuer"
    model.dropIssuer name (values.optional 1 "")
  | .defineClient => do
    let name ← values.required 0 "acl_define_client" "client"
    let issuer ← values.required 1 "acl_define_client" "issuer"
    model.defineClient node.yyjsonRead name issuer (values.optional 2 "") (values.optional 3 "replace")
  | .alterClient => do
    let name ← values.required 0 "acl_alter_client" "client"
    let spec ← values.required 1 "acl_alter_client" "spec"
    model.alterClient node.yyjsonRead name spec
  | .dropClient => do
    let name ← values.required 0 "acl_drop_client" "client"
    model.dropClient name (values.optional 1 "")
  | .mapRole => do
    let kind ← values.required 0 "acl_map_role" "scope kind"
    let scope ← values.required 1 "acl_map_role" "scope"
    let source ← values.required 2 "acl_map_role" "source"
    let external ← values.required 3 "acl_map_role" "external value"
    let role ← values.role 4 "acl_map_role"
    model.mapRole kind scope source external role
  | .dropRoleMapping => do
    let kind ← values.required 0 "acl_drop_role_mapping" "scope kind"
    let scope ← values.required 1 "acl_drop_role_mapping" "scope"
    let source ← values.required 2 "acl_drop_role_mapping" "source"
    let external ← values.required 3 "acl_drop_role_mapping" "external value"
    let role ← values.role 4 "acl_drop_role_mapping"
    model.dropRoleMapping kind scope source external role
  | _ => .ok model

/-- The tables that hold rights and the identity model after an operation, over the arguments it runs with. -/
def effect (store : AdminStore) (values : Values) : AdminOperation → Except Text AdminStore
  | .grantCatalog => do
    let role ← values.role 0 "acl_grant_catalog"
    let vcat ← catalogArg store.tables values 1 "acl_grant_catalog"
    let tables ← node.catalogGrant store.tables
      { role, vcat, capsJson := values.optional 2 "", isMain := values.flag 3, rls := values.optional 4 "",
        columns := values.optional 5 "" }
    return { store with tables }
  | .revokeCatalog => do
    let role ← values.role 0 "acl_revoke_catalog"
    let vcat ← catalogArg store.tables values 1 "acl_revoke_catalog"
    return { store with tables := ← store.tables.catalogRevoke role vcat }
  | .alterGrant => do
    let role ← values.role 0 "acl_alter_grant"
    let vcat ← catalogArg store.tables values 1 "acl_alter_grant"
    let field ← values.required 2 "acl_alter_grant" "property"
    return { store with tables := ← node.catalogAlterGrant store.tables role vcat (Text.fold field) (values.optional 3 "") }
  | .dropCatalog => do
    let vcat ← catalogArg store.tables values 0 "acl_drop_catalog"
    if values.optional 2 "" = "skip".toList ∧ store.tables.has .catalogs (·.is .vcat vcat) = false then return store
    return { store with tables := ← store.tables.catalogDropCatalog vcat (values.flag 1) }
  | .grantObject => do
    let role ← values.role 0 "acl_grant_object"
    let vcat ← catalogArg store.tables values 1 "acl_grant_object"
    return { store with tables := store.tables.ensureGrant role vcat }
  | .grantSchema => do
    let role ← values.role 0 "acl_grant_schema"
    let vcat ← catalogArg store.tables values 1 "acl_grant_schema"
    return { store with tables := store.tables.ensureGrant role vcat }
  | .refreshSchema => do
    let vcat ← catalogArg store.tables values 0 "acl_refresh_schema"
    return { store with tables := if values.optional 1 "" = [] then node.recheckGrants store.tables vcat else store.tables }
  | .dropRole => do
    let role ← values.role 0 "acl_drop_role"
    if values.optional 1 "" = "skip".toList ∧ store.tables.has .roles (·.is .role role) = false then return store
    let tables ← store.tables.catalogDropRole role
    return { tables, identity := { store.identity with mappings := store.identity.mappings.filter (decide <| ·.role ≠ role) } }
  | .grantAdmin => do
    let role ← values.role 0 "acl_grant_admin"
    let scope ← node.parseAdminScope (← values.required 1 "acl_grant_admin" "scope")
    return { store with tables := store.tables.catalogGrantAdmin role scope.name }
  | .revokeAdmin => do
    let scope := values.optional 1 ""
    if scope ≠ [] then
      let _ ← node.parseAdminScope scope
    let role ← values.role 0 "acl_revoke_admin"
    let tables ← if scope ≠ [] then revokeBundle store.tables role (Text.fold scope) else node.revokeAll store.tables role
    return { store with tables }
  | .grantPlatform => do
    let (role, kind, object) ← node.platformGrantTarget values "acl_grant_platform"
    let allowed := Text.fold (values.optional 3 "true")
    if allowed ≠ "true".toList ∧ allowed ≠ "false".toList then
      throw ("acl_grant_platform: allowed is true or false, got \"".toList ++ allowed ++ "\"".toList)
    if allowed = "true".toList ∧ kind = "function".toList ∧ object = "view_as".toList then
      throw ("acl_grant_platform: platform.view_as is the policy bundle's - it is never granted " ++
        "by name (a DENY still is)").toList
    return { store with tables :=
      ← store.tables.catalogWritePlatformGrant role kind object (some (decide (allowed = "true".toList))) }
  | .revokePlatform => do
    let (role, kind, object) ← node.platformGrantTarget values "acl_revoke_platform"
    return { store with tables := ← store.tables.catalogWritePlatformGrant role kind object none }
  | .grantSource => do
    let (role, source) ← sourceGrantTarget values "acl_grant_source"
    return { store with tables := ← store.tables.catalogWritePlatformGrant role "source".toList source (some true) }
  | .revokeSource => do
    let (role, source) ← sourceGrantTarget values "acl_revoke_source"
    return { store with tables := ← store.tables.catalogWritePlatformGrant role "source".toList source none }
  | operation => node.editIdentity store (node.edit values operation)

/-- A call that runs: what it refuses changes nothing. -/
def execute (store : AdminStore) (function : Text) (values : Values) : Except Text AdminStore :=
  match node.refusesCall store function values with
  | some refusal => .error refusal
  | none =>
    let effected :=
      match AdminOperation.of function with
      | some operation => node.effect store values operation
      | none => .ok store
    effected.map fun next : AdminStore => { next with tables := next.tables.overlay (node.rest store function values) }

/-! ## A batch -/

/-- Who sends a batch: a bare `ACL ADMIN`, or a principal by its roles. -/
inductive AdminCaller where
  | anonymous
  | principal (roles : List Text)
deriving DecidableEq, Repr

/-- The rights of a caller; the anonymous one's are all. -/
def callerRights (store : AdminStore) : AdminCaller → Except BinderException AdminRights
  | .anonymous =>
    .ok { passthrough := true, unrestrictedManage := true, cluster := true, operate := true, observe := true }
  | .principal roles => node.adminRightsOf store roles

/-- A batch is let through: its caller may administer, and the authorizer admits it. -/
def letThrough (store : AdminStore) (rights : AdminRights) (calls : List AdminCall) : Except Text Unit := do
  if !node.registry.mayAdminister rights then
    throw "acl admin: the principal has no ACL administration scope".toList
  node.authorizeMgmt calls rights
  node.authorizeRoleTargets store rights calls
  match node.refusesBatch store rights calls with
  | some refusal => throw refusal
  | none => return

/-- The statements of a batch one after the other, each with what its parameters are bound to; one that is refused
ends it, and what the ones before it wrote stays. -/
def executeAll : AdminStore → List (AdminCall × Values) → AdminStore
  | store, [] => store
  | store, (call, bound) :: rest =>
    match node.execute store call.function (call.values bound) with
    | .ok next => executeAll next rest
    | .error _ => store

/-- A batch of a caller. -/
structure AdminBatch where
  caller : AdminCaller
  statements : List (AdminCall × Values)

/-- A batch is judged: its caller's rights are read, and it is let through or refused. -/
def judge (store : AdminStore) (batch : AdminBatch) : Except Text Unit := do
  let rights ← node.callerRights store batch.caller
  node.letThrough store rights (batch.statements.map Prod.fst)

/-- A batch that is judged and then runs before the next is judged. -/
def runBatch (store : AdminStore) (batch : AdminBatch) : Except Text AdminStore :=
  (node.judge store batch).map fun _ => node.executeAll store batch.statements

/-! ## Batches side by side -/

/-- The store and the batches let through, with what each has left to run: nothing holds the store between the
judgement of a batch and its statements. -/
structure AdminSystem where
  store : AdminStore
  running : List (List (AdminCall × Values)) := []

/-- A batch is judged, or the next statement of one that was let through runs. -/
inductive AdminEvent where
  | judge (batch : AdminBatch)
  | execute (index : ℕ)

def step (system : AdminSystem) : AdminEvent → Option AdminSystem
  | .judge batch =>
    match node.judge system.store batch with
    | .ok () => some { system with running := system.running ++ [batch.statements] }
    | .error _ => some system
  | .execute index =>
    match system.running[index]? with
    | some ((call, bound) :: rest) =>
      match node.execute system.store call.function (call.values bound) with
      | .ok store => some { store, running := system.running.set index rest }
      | .error _ => some { system with running := system.running.set index [] }
    | _ => none

end AdminNode

end DuckAcl
