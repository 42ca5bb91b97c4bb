import Mathlib
import DuckAcl.Library.Memo
import DuckAcl.Model.PolicyTables
import DuckAcl.Model.Resolution

/-! # The caches of the resolver's answers

In table mode `CatalogBackend` keeps what it answers: the policies of tables and functions, the rights
of a role set, which roles are known, and the default claims of a role. The model has one policy, so
no version changes and every check of freshness passes.
-/

namespace DuckAcl

/-- The length of a text in bytes. -/
def Text.size (text : Text) : ℕ := (text.map Char.utf8Size).sum

/-- `RoleSig`: the sorted roles, each behind its length. -/
def roleSig (roles : List Text) : Text :=
  (roles.mergeSort fun a b => decide (a ≤ b)).flatMap fun role =>
    (toString (Text.size role)).toList ++ ':' :: role ++ [';']

/-- What a `case_insensitive_map_t<string>` holds: names with values, no two names equal up to case. -/
abbrev Claims := List (Text × Text)

/-- `map[name] = value`. -/
def Claims.assign (name value : Text) : Claims → Claims
  | [] => [(name, value)]
  | claim :: rest =>
    if Text.ciEquals claim.1 name then (claim.1, value) :: rest else claim :: Claims.assign name value rest

/-- `RightsRows`. -/
structure RightsRows where
  catalogs : List Text
  scopes : List (Text × Text)
  platform : List (Text × Bool)
deriving DecidableEq, Repr

/-- What the resolver keeps between calls. -/
structure ResultCaches where
  objects : Memo Text (Option ResolvedTable) := []
  functions : Memo Text (Option ResolvedFunction) := []
  rights : Memo Text RightsRows := []
  knownRoles : Memo Text Bool := []
  /-- `claims_cache`, by the folded name of the role. -/
  claims : Text → Option Claims := fun _ => none
  /-- `claims_loaded`, folded. -/
  claimsLoaded : List Text := []

/-- A policy: its tables, and the engine that answers queries over them. -/
structure FixedPolicy where
  tables : PolicyTables
  engine : PolicyEngine

/-- The calls the caches serve. -/
inductive PolicyCall where
  | resolveTable (settings : NodeSettings) (roles : List Text) (vname : Text) (capability : Capability)
  | resolveFunction (roles : List Text) (vname : Text) (tableKind : Bool)
  | loadRights (roles : List Text)
  | knownRoles (values : List Text)
  | loadRoleClaims (roles : List Text) (claims : Claims)

/-- Their answers; a set of names that compare up to case is the set of the folded names. -/
inductive PolicyAnswer where
  | table (found : Except BinderException (Option ResolvedTable))
  | function (found : Except BinderException (Option ResolvedFunction))
  | rights (rows : Except BinderException RightsRows)
  | known (roles : Finset Text)
  | claims (claims : Claims)

/-! ## Keys -/

/-- The key of an entry of `objects`. -/
def objectsKey (settings : NodeSettings) (roles : List Text) (vname : Text) (capability : Capability) : Text :=
  roleSig roles ++ '\x1f' :: Text.fold vname ++ '\x1f' :: (if settings.stripsAliases then 'b' else 'k') ::
    (if settings.enumsToVarchar then 'v' else 'k') :: '\x1f' :: capability.text

/-- The key of an entry of `functions`. -/
def functionsKey (roles : List Text) (vname : Text) (tableKind : Bool) : Text :=
  roleSig roles ++ '\x1f' :: PolicyEngine.kindText tableKind ++ '\x1f' :: Text.fold vname

/-- `CACHE_CAPACITY`. -/
def resultCapacity : ℕ := 4096

namespace FixedPolicy

variable (policy : FixedPolicy)

/-! ## What the calls compute -/

/-- `"role" IN (roles)`. -/
def roleIn (roles : List Text) (row : Row) : Bool :=
  match row .role with
  | .text role => decide (role ∈ roles)
  | _ => false

/-- `Value::ToString`. -/
def cellText : Value → Text
  | .null => "NULL".toList
  | .text value => value
  | .integer value => (toString value).toList
  | .boolean value => (toString value).toList

/-- `IsPlatformCatalog`. -/
def isPlatformCatalog (name : Text) : Bool :=
  let trimmed := Text.trim name
  if trimmed = [] then false
  else if Text.ciEquals trimmed "platform".toList then true
  else match NamePath.fromKey trimmed with
    | some [part] => Text.ciEquals (Text.trim part) "platform".toList
    | _ => false

/-- The catalog a grant lets its role manage. -/
def managed (row : Row) : Except BinderException (Option Text) := do
  let vcat := cellText (row .vcat)
  if vcat = [] ∨ isPlatformCatalog vcat then return none
  let caps ← match row .caps with
    | .null => .ok []
    | stored => if Text.trim (cellText stored) = [] then .ok [] else policy.engine.parseCaps (cellText stored)
  return if ciContains caps "manage".toList then some vcat else none

/-- `ManageCatalogs`. -/
def manageCatalogs (roles : List Text) : Except BinderException (List Text) := do
  let managed ← ((policy.tables.rows .roleCatalogs).filter (roleIn roles)).mapM policy.managed
  return (managed.filterMap id).dedup

/-- `AdminScopes`. -/
def adminScopes (roles : List Text) : List (Text × Text) :=
  ((policy.tables.rows .admins).filter (roleIn roles)).map fun row =>
    (cellText (row .scope), match row .vcat with
      | .null => []
      | vcat => cellText vcat)

/-- `PlatformGrants`. -/
def platformGrants (roles : List Text) : List (Text × Bool) :=
  ((policy.tables.rows .platformGrants).filter (roleIn roles)).map fun row =>
    (Text.fold (cellText (row .kind)) ++ ':' :: Text.fold (cellText (row .object)),
      decide (row .allowed = .boolean true))

/-- What `LoadRights` computes. -/
def rightsOf (roles : List Text) : Except BinderException RightsRows := do
  return ⟨← policy.manageCatalogs roles, policy.adminScopes roles, policy.platformGrants roles⟩

/-- The policy knows the role: it is defined or granted a catalog. -/
def knowsRole (role : Text) : Bool :=
  policy.tables.has .roles (·.is .role role) || policy.tables.has .roleCatalogs (·.is .role role)

/-- The rows `LoadRoleClaims` reads: role, claim, value. -/
def claimRows (roles : List Text) : List (Text × Text × Text) :=
  ((policy.tables.rows .roleClaims).filter (roleIn roles)).map fun row =>
    (cellText (row .role), cellText (row .claim), cellText (row .value))

/-! ## The calls -/

/-- `KnownRoles`: the set it fills. -/
def callKnownRoles (caches : ResultCaches) (values : List Text) : ResultCaches × Finset Text :=
  let hits := values.filter fun value => caches.knownRoles.find value == some true
  let missing := values.filter fun value => (caches.knownRoles.find value).isNone
  if missing = [] then (caches, (hits.map Text.fold).toFinset)
  else
    let memo := missing.foldl (fun memo value => memo.store value (policy.knowsRole value))
      (caches.knownRoles.clearIfOversized resultCapacity)
    ({ caches with knownRoles := memo }, ((hits ++ missing.filter policy.knowsRole).map Text.fold).toFinset)

/-- The part of `LoadRoleClaims` that reads the claims of roles it has not loaded. -/
def loadMissing (caches : ResultCaches) (missing : List Text) : ResultCaches :=
  let touched := missing.foldl (fun claims role =>
    Function.update claims (Text.fold role) (some ((claims (Text.fold role)).getD []))) caches.claims
  { caches with
    claimsLoaded := caches.claimsLoaded ++ missing.map Text.fold
    claims := (policy.claimRows missing).foldl (fun claims row =>
      Function.update claims (Text.fold row.1) (some (((claims (Text.fold row.1)).getD []).assign row.2.1 row.2.2)))
      touched }

/-- The part that adds a role's claims; explicit claims win over them. -/
def addDefaults (cached : Text → Option Claims) (claims : Claims) (role : Text) : Claims :=
  ((cached (Text.fold role)).getD []).foldl (fun claims claim =>
    if ciContains (claims.map Prod.fst) claim.1 then claims else claims ++ [claim]) claims

/-- `LoadRoleClaims`. -/
def callLoadRoleClaims (caches : ResultCaches) (roles : List Text) (claims : Claims) : ResultCaches × Claims :=
  let missing := roles.filter fun role => decide (Text.fold role ∉ caches.claimsLoaded)
  let caches := if missing = [] then caches else policy.loadMissing caches missing
  (caches, roles.foldl (addDefaults caches.claims) claims)

/-- One call; a principal without roles is given nothing and the caches are not asked. -/
def call (caches : ResultCaches) : PolicyCall → ResultCaches × PolicyAnswer
  | .resolveTable settings roles vname capability =>
    if roles = [] then (caches, .table (.ok none))
    else
      let (objects, found) := caches.objects.ask resultCapacity (objectsKey settings roles vname capability)
        (policy.engine.lookupTable settings roles vname capability)
      ({ caches with objects }, .table found)
  | .resolveFunction roles vname tableKind =>
    if roles = [] then (caches, .function (.ok none))
    else
      let (functions, found) := caches.functions.ask resultCapacity (functionsKey roles vname tableKind)
        (policy.engine.lookupFunction roles vname tableKind)
      ({ caches with functions }, .function found)
  | .loadRights roles =>
    if roles = [] then (caches, .rights (.ok ⟨[], [], []⟩))
    else
      let (rights, rows) := caches.rights.ask resultCapacity (roleSig roles) (policy.rightsOf roles)
      ({ caches with rights }, .rights rows)
  | .knownRoles values =>
    let (caches, known) := policy.callKnownRoles caches values
    (caches, .known known)
  | .loadRoleClaims roles claims =>
    let (caches, claims) := policy.callLoadRoleClaims caches roles claims
    (caches, .claims claims)

/-- The answers of a sequence of calls. -/
def answers (caches : ResultCaches) : List PolicyCall → List PolicyAnswer
  | [] => []
  | next :: rest => (policy.call caches next).2 :: answers (policy.call caches next).1 rest

end FixedPolicy

end DuckAcl
