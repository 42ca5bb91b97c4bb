import Mathlib
import DuckAcl.Model.ResultCaches

/-! # Rights of administration

What a principal may do with the policy is a set of bundles, the catalogs it manages and its point grants on
the system catalog `platform`: `AdminRights`, read from the rows of its roles (`acl_policy.cpp`). The system
catalog's views and functions are a registry that says which right each takes, and `PlatformAccess` says
what a principal is shown of it (`acl_platform.cpp`). A module linked into the extension adds entries.
-/

namespace DuckAcl

/-- `AdminScope`. -/
inductive AdminScope where
  | observe
  | operate
  | cluster
  | policy
  | manage
  | passthrough
deriving DecidableEq, Repr

/-- `AdminScopeName`. -/
def AdminScope.name : AdminScope → Text
  | .observe => "observe".toList
  | .operate => "operate".toList
  | .cluster => "cluster".toList
  | .policy => "policy".toList
  | .manage => "manage".toList
  | .passthrough => "passthrough".toList

/-- `TryParseAdminScope`: the cluster's is a scope only where the platform part is linked. -/
def tryParseAdminScope (clusterRegistered : Bool) (scope : Text) : Option AdminScope :=
  if Text.ciEquals scope "passthrough".toList then some .passthrough
  else if Text.ciEquals scope "manage".toList then some .manage
  else if Text.ciEquals scope "policy".toList then some .policy
  else if Text.ciEquals scope "observe".toList then some .observe
  else if Text.ciEquals scope "operate".toList then some .operate
  else if Text.ciEquals scope "cluster".toList && clusterRegistered then some .cluster
  else none

/-- `GrantableAdminScopes`. -/
def grantableAdminScopes (clusterRegistered : Bool) : List Text :=
  ([AdminScope.observe, .operate, .cluster, .policy, .manage, .passthrough].filter fun scope =>
    decide (scope ≠ .cluster) || clusterRegistered).map AdminScope.name

/-- `AdminRights`. -/
structure AdminRights where
  passthrough : Bool := false
  /-- The policy bundle. -/
  unrestrictedManage : Bool := false
  observe : Bool := false
  operate : Bool := false
  cluster : Bool := false
  /-- A row whose scope grants nothing here; its role stays privileged. -/
  unknownScope : Bool := false
  catalogs : List Text := []
  /-- `<kind>:<object>`, folded, each once. -/
  platform : List (Text × Bool) := []
deriving DecidableEq, Repr

namespace AdminRights

/-- `ApplyAdminRow`. -/
def applyAdminRow (clusterRegistered : Bool) (rights : AdminRights) (scopeText vcat : Text) : AdminRights :=
  match tryParseAdminScope clusterRegistered scopeText with
  | none => { rights with unknownScope := true }
  | some .observe => if vcat = [] then { rights with observe := true } else { rights with unknownScope := true }
  | some .operate =>
    if vcat = [] then { rights with operate := true, observe := true } else { rights with unknownScope := true }
  | some .cluster =>
    if vcat = [] then { rights with cluster := true, operate := true, observe := true }
    else { rights with unknownScope := true }
  | some .manage =>
    if vcat ≠ [] then { rights with catalogs := rights.catalogs.insert vcat }
    else { rights with unrestrictedManage := true, observe := true }
  | some .policy =>
    if vcat ≠ [] then { rights with catalogs := rights.catalogs.insert vcat }
    else { rights with unrestrictedManage := true }
  | some .passthrough =>
    { rights with passthrough := true, cluster := clusterRegistered, operate := true, observe := true }

/-- `point`: a deny anywhere among the roles wins. -/
def point (key : Text) (allowed : Bool) : List (Text × Bool) → List (Text × Bool)
  | [] => [(key, allowed)]
  | entry :: rest => if entry.1 = key then (key, entry.2 && allowed) :: rest else entry :: point key allowed rest

/-- What `AdminRightsOf` makes of the rows, over a policy store. -/
def ofRows (clusterRegistered : Bool) (rows : RightsRows) : AdminRights :=
  let start : AdminRights := { catalogs := rows.catalogs }
  let rights := rows.scopes.foldl (fun rights row => applyAdminRow clusterRegistered rights row.1 row.2) start
  { rights with platform := rows.platform.foldl (fun grants grant => point grant.1 grant.2 grants) [] }

/-- `Policy`. -/
def policy (rights : AdminRights) : Bool := rights.passthrough || rights.unrestrictedManage

/-- `PlatformGrant`: granted, denied or neither. -/
def platformGrant (rights : AdminRights) (kind object : Text) : Option Bool :=
  (rights.platform.find? fun grant => decide (grant.1 = Text.fold kind ++ ':' :: Text.fold object)).map Prod.snd

/-- `Privileged`. -/
def privileged (rights : AdminRights) : Bool :=
  rights.passthrough || rights.unrestrictedManage || rights.observe || rights.operate || rights.cluster ||
    rights.unknownScope || !rights.catalogs.isEmpty || !rights.platform.isEmpty

/-- `Bundles`. -/
def bundles (rights : AdminRights) : List Text :=
  (if rights.observe then ["observe".toList] else []) ++ (if rights.operate then ["operate".toList] else []) ++
    (if rights.cluster then ["cluster".toList] else []) ++
    (if rights.unrestrictedManage then ["policy".toList] else []) ++
    (if rights.passthrough then ["passthrough".toList] else [])

end AdminRights

/-- `AdminRightsOf`. -/
def FixedPolicy.adminRightsOf (policy : FixedPolicy) (clusterRegistered : Bool) (roles : List Text) :
    Except BinderException AdminRights :=
  (policy.rightsOf roles).map (AdminRights.ofRows clusterRegistered)

/-! ## The system catalog -/

/-- `PlatformViewClass`. -/
inductive PlatformViewClass where
  | node
  | policy
  | catalog
  | roles
  | cluster
deriving DecidableEq, Repr

structure PlatformView where
  name : Text
  viewClass : PlatformViewClass
deriving DecidableEq, Repr

/-- `PlatformRight`; `OPEN` is every holder's. -/
inductive PlatformRight where
  | catalog
  | policy
  | handsOut
  | escalates
  | infrastructure
  | operate
  | anyHolder
deriving DecidableEq, Repr

/-- A rule on one argument, with what it refuses with. -/
structure PlatformRule where
  argument : ℕ
  admits : Text → Bool
  refusal : Option (Text → Text)

/-- `PlatformFunction`. -/
structure PlatformFunction where
  name : Text
  target : Text
  catalogArg : Option ℕ
  right : PlatformRight
  rule : Option PlatformRule := none

def PlatformFunction.of (name target : String) (catalogArg : Option ℕ) (right : PlatformRight) : PlatformFunction :=
  { name := name.toList, target := target.toList, catalogArg, right }

/-- `BuildFunctions`. -/
def builtFunctions : List PlatformFunction := [
  .of "create_catalog" "acl_create_catalog" (some 0) .catalog,
  .of "alter_catalog" "acl_alter_catalog" (some 0) .catalog,
  .of "add_relation" "acl_add_relation" (some 0) .catalog,
  .of "add_view" "acl_add_view" (some 0) .catalog,
  .of "add_schema_alias" "acl_add_schema_alias" (some 0) .catalog,
  .of "expand_schema" "acl_expand_schema" (some 0) .catalog,
  .of "refresh_schema_objects" "acl_refresh_schema_objects" (some 0) .catalog,
  .of "add_table_function" "acl_add_table_function" (some 0) .catalog,
  .of "add_table_function_alias" "acl_add_table_function_alias" (some 0) .catalog,
  .of "add_scalar" "acl_add_scalar" (some 0) .catalog,
  .of "add_scalar_alias" "acl_add_scalar_alias" (some 0) .catalog,
  .of "drop_relation" "acl_drop_relation" (some 0) .catalog,
  .of "alter_relation" "acl_alter_relation" (some 0) .catalog,
  .of "alter_schema_alias" "acl_alter_schema_alias" (some 0) .catalog,
  .of "alter_function" "acl_alter_function" (some 0) .catalog,
  .of "drop_schema_alias" "acl_drop_schema_alias" (some 0) .catalog,
  .of "drop_function" "acl_drop_function" (some 0) .catalog,
  .of "comment" "acl_comment" (some 0) .catalog,
  .of "refresh_schema" "acl_refresh_schema" (some 0) .catalog,
  .of "repair_relation" "acl_repair_relation" (some 0) .catalog,
  .of "set_key" "acl_set_key" (some 0) .catalog,
  .of "add_reference" "acl_add_reference" (some 0) .catalog,
  .of "drop_reference" "acl_drop_reference" (some 0) .catalog,
  .of "rematerialize_schema_caps" "acl_rematerialize_schema_caps" (some 0) .catalog,
  .of "grant_catalog" "acl_grant_catalog" (some 1) .handsOut,
  .of "revoke_catalog" "acl_revoke_catalog" (some 1) .handsOut,
  .of "grant_object" "acl_grant_object" (some 1) .handsOut,
  .of "grant_schema" "acl_grant_schema" (some 1) .handsOut,
  .of "revoke_schema" "acl_revoke_schema" (some 1) .handsOut,
  .of "alter_grant" "acl_alter_grant" (some 1) .handsOut,
  .of "drop_catalog" "acl_drop_catalog" (some 0) .handsOut,
  .of "create_role" "acl_define_role" none .policy,
  .of "comment_function_category" "acl_comment_function_category" none .policy,
  .of "comment_role" "acl_comment_role" none .policy,
  .of "revoke_object" "acl_revoke_object" (some 1) .handsOut,
  .of "alter_reference" "acl_alter_reference" (some 0) .catalog,
  .of "alter_role" "acl_alter_role" none .policy,
  .of "drop_role" "acl_drop_role" none .policy,
  .of "define_issuer" "acl_define_issuer" none .policy,
  .of "alter_issuer" "acl_alter_issuer" none .policy,
  .of "drop_issuer" "acl_drop_issuer" none .policy,
  .of "define_client" "acl_define_client" none .policy,
  .of "alter_client" "acl_alter_client" none .policy,
  .of "drop_client" "acl_drop_client" none .policy,
  .of "map_role" "acl_map_role" none .policy,
  .of "drop_role_mapping" "acl_drop_role_mapping" none .policy,
  .of "create_function_category" "acl_create_function_category" none .policy,
  .of "drop_function_category" "acl_drop_function_category" none .policy,
  .of "function_category_add" "acl_function_category_add" none .policy,
  .of "function_category_remove" "acl_function_category_remove" none .policy,
  .of "grant_function_category" "acl_grant_function_category" none .policy,
  .of "revoke_function_category" "acl_revoke_function_category" none .policy,
  .of "grant_function" "acl_grant_function" none .policy,
  .of "revoke_function" "acl_revoke_function" none .policy,
  .of "session_profile" "acl_session_profile" none .operate,
  .of "view_as" "acl_session_view_as" none .policy,
  .of "session_audit_level" "acl_session_audit_level" none .operate,
  .of "kill_session" "acl_session_kill" none .operate,
  .of "drain" "acl_drain" none .operate,
  .of "resume" "acl_resume" none .operate,
  .of "grant_source" "acl_grant_source" none .handsOut,
  .of "revoke_source" "acl_revoke_source" none .handsOut,
  .of "migrate_catalog" "acl_migrate_catalog" none .escalates,
  .of "create_resource_group" "acl_create_resource_group" none .policy,
  .of "alter_resource_group" "acl_alter_resource_group" none .policy,
  .of "drop_resource_group" "acl_drop_resource_group" none .policy,
  .of "grant_resource_group" "acl_grant_resource_group" none .policy,
  .of "revoke_resource_group" "acl_revoke_resource_group" none .policy,
  .of "grant_admin" "acl_grant_admin" none .escalates,
  .of "revoke_admin" "acl_revoke_admin" none .escalates,
  .of "grant_platform" "acl_grant_platform" none .escalates,
  .of "revoke_platform" "acl_revoke_platform" none .escalates,
  .of "check_catalog" "acl_check_catalog" (some 0) .catalog,
  .of "effective_rights" "acl_effective_rights" (some 1) .catalog,
  .of "check_grant" "acl_check_grant" (some 1) .handsOut,
  .of "exposures" "acl_exposures" none .policy,
  .of "console_info" "" none .anyHolder]

/-- `BuildViews`. -/
def builtViews : List PlatformView :=
  [⟨"catalogs".toList, .catalog⟩, ⟨"relations".toList, .catalog⟩, ⟨"relation_columns".toList, .catalog⟩,
   ⟨"schemas".toList, .catalog⟩, ⟨"functions".toList, .catalog⟩, ⟨"function_columns".toList, .catalog⟩,
   ⟨"references".toList, .catalog⟩, ⟨"reference_columns".toList, .catalog⟩, ⟨"keys".toList, .catalog⟩,
   ⟨"roles".toList, .roles⟩, ⟨"role_claims".toList, .policy⟩, ⟨"grants".toList, .catalog⟩,
   ⟨"schema_grants".toList, .catalog⟩, ⟨"object_grants".toList, .catalog⟩, ⟨"grant_columns".toList, .catalog⟩,
   ⟨"admins".toList, .policy⟩, ⟨"platform_grants".toList, .policy⟩, ⟨"issuers".toList, .policy⟩,
   ⟨"clients".toList, .policy⟩, ⟨"role_mappings".toList, .policy⟩, ⟨"jwks_cache".toList, .policy⟩,
   ⟨"function_categories".toList, .policy⟩, ⟨"function_category_members".toList, .policy⟩, ⟨"function_grants".toList, .policy⟩,
   ⟨"function_status".toList, .policy⟩, ⟨"resource_groups".toList, .policy⟩, ⟨"role_resource_groups".toList, .policy⟩,
   ⟨"catalog_schema".toList, .policy⟩, ⟨"sessions".toList, .node⟩, ⟨"node_load".toList, .node⟩,
   ⟨"node_doors".toList, .node⟩, ⟨"node_streams".toList, .node⟩, ⟨"drain".toList, .node⟩,
   ⟨"lineage_status".toList, .node⟩, ⟨"audit_events".toList, .node⟩]

/-- `RegisterPlatformFunction`: idempotent by name. -/
def registerPlatformFunction (functions : List PlatformFunction) (function : PlatformFunction) : List PlatformFunction :=
  if functions.any fun existing => Text.ciEquals existing.name function.name then functions else functions ++ [function]

/-- `RegisterPlatformView`. -/
def registerPlatformView (views : List PlatformView) (view : PlatformView) : List PlatformView :=
  if views.any fun existing => Text.ciEquals existing.name view.name then views else views ++ [view]

/-- The registries of a node: what is built in, and what the linked modules registered. -/
structure PlatformRegistry where
  registeredFunctions : List PlatformFunction := []
  registeredViews : List PlatformView := []

namespace PlatformRegistry

variable (registry : PlatformRegistry)

/-- `PlatformFunctions`. -/
def functions : List PlatformFunction := registry.registeredFunctions.foldl registerPlatformFunction builtFunctions

/-- `PlatformViews`. -/
def views : List PlatformView := registry.registeredViews.foldl registerPlatformView builtViews

/-- `FindPlatformView`. -/
def findView (name : Text) : Option PlatformView := registry.views.find? fun view => Text.ciEquals view.name name

/-- `FindPlatformFunction`. -/
def findFunction (name : Text) : Option PlatformFunction :=
  registry.functions.find? fun function => Text.ciEquals function.name name

/-- `PlatformFunctionByTarget`. -/
def functionByTarget (target : Text) : Option PlatformFunction :=
  registry.functions.find? fun function => decide (function.target ≠ []) && Text.ciEquals function.target target

/-- `MayAdminister`. -/
def mayAdminister (rights : AdminRights) : Bool :=
  rights.passthrough || rights.unrestrictedManage || rights.operate || rights.cluster || !rights.catalogs.isEmpty ||
    rights.platform.any fun grant =>
      grant.2 && "function:".toList.isPrefixOf grant.1 && (registry.findFunction (grant.1.drop 9)).isSome

end PlatformRegistry

/-! ## What a principal is shown -/

/-- `PlatformAccess`: no rights, or a principal's. -/
abbrev PlatformAccess := Option AdminRights

namespace PlatformAccess

/-- `Any`. -/
def any : PlatformAccess → Bool
  | none => false
  | some rights =>
    rights.passthrough || rights.unrestrictedManage || rights.observe || !rights.catalogs.isEmpty ||
      rights.platform.any (·.2)

/-- `ReadsView`: whether, and whether only the rows of the catalogs managed. -/
def readsView (access : PlatformAccess) (view : PlatformView) : Bool × Bool :=
  match access with
  | none => (false, false)
  | some rights =>
    if rights.passthrough then (true, false)
    else
      match rights.platformGrant "view".toList view.name with
      | some allowed => (allowed, false)
      | none =>
        match view.viewClass with
        | .node => (rights.observe, false)
        | .policy => (rights.unrestrictedManage, false)
        | .cluster => (rights.cluster, false)
        | .catalog | .roles =>
          if rights.unrestrictedManage then (true, false)
          else if rights.catalogs.isEmpty then (false, false)
          else (true, true)

/-- `CallsFunction`. -/
def callsFunction (access : PlatformAccess) (function : PlatformFunction) : Bool :=
  match access with
  | none => false
  | some rights =>
    if function.right = .anyHolder then any access
    else if rights.passthrough then true
    else
      let granted := rights.platformGrant "function".toList function.name
      if granted = some false then false
      -- a point grant does not reach it
      else if function.target = "acl_session_view_as".toList then rights.policy
      else
        match function.right with
        | .escalates => false
        | .infrastructure => rights.cluster
        | .catalog => granted = some true || rights.unrestrictedManage || !rights.catalogs.isEmpty
        | .policy | .handsOut => granted = some true || rights.unrestrictedManage
        | .operate => granted = some true || rights.operate
        | .anyHolder => granted = some true

end PlatformAccess

/-- `MayOperateNode`. -/
def PlatformRegistry.mayOperateNode (registry : PlatformRegistry) (rights : AdminRights) : Bool :=
  (registry.views.any fun view => decide (view.viewClass = .node) && (PlatformAccess.readsView (some rights) view).1) ||
    registry.functions.any fun function =>
      decide (function.right = .operate) && PlatformAccess.callsFunction (some rights) function

end DuckAcl
