import Mathlib
import DuckAcl.Model.RelationRemoval

/-! # Capabilities on schemas

A role is granted capabilities on a schema by a row of `role_schemas`. The schemas below it inherit
the row: it is materialised on each of them, marked `inherited`, unless the role has a row of its own
there or a nearer one above. `CatalogRematerializeSchemaCaps` rebuilds what a subtree inherits; the
operations on schemas and their grants call it (`acl_catalog_admin.cpp`).
-/

namespace DuckAcl

namespace PolicyTables

/-- A grant on a schema, as its row is read; an absent text is empty. -/
structure SchemaGrant where
  path : Text
  caps : Text
  into : Text
  virtualOnly : Bool
deriving DecidableEq, Repr

def SchemaGrant.ofRow (row : Row) : SchemaGrant where
  path := (textOf .schemaPath row).getD []
  caps := (textOf .caps row).getD []
  into := (textOf .into row).getD []
  virtualOnly := decide (row .virtualOnly = .boolean true)

/-! ## Inheritance -/

/-- `NOT "inherited"`, in one catalog. -/
def statedIn (vcat : Text) (row : Row) : Bool :=
  row.is .vcat vcat && decide (row .inherited = .boolean false)

/-- `"inherited"`, in one catalog. -/
def inheritedIn (vcat : Text) (row : Row) : Bool :=
  row.is .vcat vcat && decide (row .inherited = .boolean true)

/-- The path in the column is the schema or lies below it; the empty path is the whole catalog. -/
def inSubtree (path : Text) (cell : Column) (row : Row) : Bool :=
  decide (path = []) || row.is cell path || row.isUnder cell path

/-- The schema lies strictly below the path, as the text of its key says. -/
def isAncestor (path schema : Text) : Bool :=
  decide (path.length + 1 < schema.length) && (path ++ ['.']).isPrefixOf schema

/-- The schemas of a subtree, shortest first. -/
def schemasIn (store : PolicyTables) (vcat path : Text) : List Text :=
  (((store.rows .schemas).filter fun row => row.is .vcat vcat && inSubtree path .path row).filterMap
    (textOf .path)).insertionSort fun a b => a.length ≤ b.length

/-- The roles that state capabilities in the catalog, in their order. -/
def statedRoles (store : PolicyTables) (vcat : Text) : List Text :=
  (((store.rows .roleSchemas).filter (statedIn vcat)).filterMap (textOf .role)).dedup.insertionSort
    fun a b => a ≤ b

/-- The grants one role states in the catalog. -/
def stated (store : PolicyTables) (vcat role : Text) : List SchemaGrant :=
  ((store.rows .roleSchemas).filter fun row => statedIn vcat row && row.is .role role).map SchemaGrant.ofRow

/-- The same, the longest path first. -/
def statedGrants (store : PolicyTables) (vcat role : Text) : List SchemaGrant :=
  (store.stated vcat role).insertionSort fun a b => b.path.length ≤ a.path.length

/-- The keys of `granted`, a map that compares roles up to case: each role as it is met first. -/
def firstSpellings (roles : List Text) : List Text :=
  roles.foldl (fun kept role => if kept.any (Text.ciEquals · role) then kept else kept ++ [role]) []

/-- `granted[role]`: the grants of every role that is equal up to case. -/
def granted (store : PolicyTables) (vcat role : Text) : List SchemaGrant :=
  ((store.statedRoles vcat).filter fun other => Text.ciEquals other role).flatMap (store.statedGrants vcat)

/-- The loop over a role's grants: what a schema inherits; nothing where it states its own. -/
def inheritedGrant (schema : Text) : List SchemaGrant → Option SchemaGrant
  | [] => none
  | grant :: rest =>
    if grant.path = schema then none
    else if isAncestor grant.path schema then some grant
    else inheritedGrant schema rest

/-- A text that is NULL when it is empty. -/
def textOrNull (text : Text) : Value := if text = [] then .null else .text text

/-- The row a schema inherits. -/
def inheritedCells (role vcat schema : Text) (grant : SchemaGrant) : List (Column × Value) :=
  [(.role, .text role), (.vcat, .text vcat), (.schemaPath, .text schema), (.caps, textOrNull grant.caps),
   (.inherited, .boolean true), (.into, textOrNull grant.into), (.virtualOnly, .boolean grant.virtualOnly)]

/-- What each schema of the subtree inherits. -/
def inheritedRows (store : PolicyTables) (vcat path : Text) : List (List (Column × Value)) :=
  (store.schemasIn vcat path).flatMap fun schema =>
    (firstSpellings (store.statedRoles vcat)).filterMap fun role =>
      (inheritedGrant schema (store.granted vcat role)).map (inheritedCells role vcat schema)

/-- `CatalogRematerializeSchemaCaps`. -/
def rematerializeSchemaCaps (store : PolicyTables) (vcat path : Text) : PolicyTables :=
  store.writeAll (.delete ⟨.roleSchemas, fun row => inheritedIn vcat row && inSubtree path .schemaPath row⟩ ::
    (store.inheritedRows vcat path).map (.insert .roleSchemas))

/-! ## The operations -/

/-- What the operations find out outside the policy, besides the facts of new records. -/
structure SchemaFacts extends RecordFacts where
  /-- `RequireNotPolicyStore`. -/
  policyStore : Text → Option Text
  /-- Whether strict `ParseCaps` finds `manage`, or its refusal. -/
  namesManage : Text → Except Text Bool
  physicalSchema : Text → Bool

/-- The row of a schema. -/
def schemaAt (vcat path : Text) (row : Row) : Bool := row.is .vcat vcat && row.is .path path

/-- The rows of a role on a schema. -/
def grantAt (role vcat path : Text) (row : Row) : Bool :=
  row.is .role role && row.is .vcat vcat && row.is .schemaPath path

def schemaMissing (vcat path : Text) : Text :=
  "acl admin: schema \"".toList ++ vcat ++ ".".toList ++ path ++ "\" does not exist".toList

/-- The statements of `CatalogAddSchemaAlias`; the comment and the author survive a redefinition. -/
def addSchemaWrites (facts : SchemaFacts) (store : PolicyTables) (vcat path phys origin : Text) : List Write :=
  let current := (store.rows .schemas).find? (schemaAt vcat path)
  [.delete ⟨.schemas, schemaAt vcat path⟩,
   .insert .schemas
     [(.vcat, .text vcat), (.path, .text path), (.physPath, textOrNull phys),
      (.comment, match current with
        | some row => row .comment
        | none => .null),
      (.origin, textOrNull origin),
      (.createdBy, match current with
        | some row => row .createdBy
        | none => facts.createdBy),
      (.createdRoles, facts.createdRoles)]]

/-- `CatalogAddSchemaAlias`. -/
def catalogAddSchemaAlias (facts : SchemaFacts) (store : PolicyTables) (vcat path phys origin : Text) :
    Except Text PolicyTables :=
  match facts.policyStore phys with
  | some refusal => .error refusal
  | none => .ok ((store.writeAll (addSchemaWrites facts store vcat path phys origin)).rematerializeSchemaCaps vcat path)

/-- `CatalogAlterSchemaAlias`. -/
def catalogAlterSchemaAlias (facts : SchemaFacts) (store : PolicyTables) (vcat path phys : Text) :
    Except Text PolicyTables :=
  if store.has .schemas (schemaAt vcat path) then store.catalogAddSchemaAlias facts vcat path phys []
  else .error (schemaMissing vcat path)

/-- The loop of `CatalogExpandSchema` over the physical objects: an expansion never overwrites. -/
def expandedNames (store : PolicyTables) (vcat path : Text) : List Text → List Text → List Text
  | [], _ => []
  | name :: rest, known =>
    let vname := NamePath.childKey path name
    if caseSibling vname known ∨ store.has .relations (named vcat vname) then store.expandedNames vcat path rest known
    else name :: store.expandedNames vcat path rest (known ++ [vname])

/-- The statements that record the objects of an expansion. -/
def expandWrites (facts : SchemaFacts) (store : PolicyTables) (vcat path head phys : Text) (names : List Text) :
    List Write :=
  (store.expandedNames vcat path names (store.namesUnder vcat (NamePath.quotePart head))).flatMap (fun name =>
      aliasStatements facts.toRecordFacts vcat (NamePath.childKey path name) (NamePath.childKey phys name) phys) ++
    [.delete ⟨.schemaDropped, fun row => row.is .vcat vcat && row.is .path path⟩]

/-- `CatalogExpandSchema`. -/
def catalogExpandSchema (facts : SchemaFacts) (store : PolicyTables) (vcat path phys : Text) :
    Except Text PolicyTables := do
  match facts.policyStore phys with
  | some refusal => throw refusal
  | none => pure ()
  match facts.physicalObjects phys with
  | none => .error ("acl admin: physical schema \"".toList ++ phys ++
      "\" does not exist (is its database attached?)".toList)
  | some names =>
    let added ← store.catalogAddSchemaAlias facts vcat path [] phys
    match NamePath.fromKey path with
    | some (head :: _) =>
      .ok ((added.writeAll (expandWrites facts added vcat path head phys names)).rematerializeSchemaCaps vcat path)
    | _ => .error "acl: a name is not a valid name".toList

/-- What `GRANT` on a schema says. -/
structure SchemaGrantRequest where
  role : Text
  vcat : Text
  path : Text
  capsJson : Text
  comment : Text := []
  into : Text := []
  virtualOnly : Bool := false
  ensureGrant : Bool := false

/-- The statements of `CatalogGrantSchema`. -/
def grantSchemaWrites (store : PolicyTables) (request : SchemaGrantRequest) : List Write :=
  (if request.ensureGrant ∧ store.has .roleCatalogs (fun row => row.is .role request.role && row.is .vcat request.vcat) = false
    then [.insert .roleCatalogs [(.role, .text request.role), (.vcat, .text request.vcat), (.isMain, .boolean false),
      (.caps, .text ['\x7b', '\x7d'])]]
    else []) ++
  [.delete ⟨.roleSchemas, grantAt request.role request.vcat request.path⟩,
   .insert .roleSchemas
     [(.role, .text request.role), (.vcat, .text request.vcat), (.schemaPath, .text request.path),
      (.caps, .text request.capsJson), (.inherited, .boolean false), (.comment, textOrNull request.comment),
      (.into, textOrNull request.into), (.virtualOnly, .boolean request.virtualOnly)]]

/-- `CatalogGrantSchema`. -/
def catalogGrantSchema (facts : SchemaFacts) (store : PolicyTables) (request : SchemaGrantRequest) :
    Except Text PolicyTables := do
  if ← facts.namesManage request.capsJson then
    throw ("acl admin: `manage` is granted per catalog, not per schema - administering the ACL is catalog-scoped " ++
      "(spec 009)").toList
  if store.has .schemas (schemaAt request.vcat request.path) = false then
    throw (schemaMissing request.vcat request.path)
  if request.into ≠ [] then
    match facts.policyStore request.into with
    | some refusal => throw refusal
    | none => pure ()
    if facts.physicalSchema request.into = false then
      throw ("acl admin: physical schema \"".toList ++ request.into ++
        "\" does not exist (is its database attached?)".toList)
  if request.virtualOnly ∧ request.into ≠ [] then
    throw ("acl admin: INTO and VIRTUAL ONLY are opposites - one names where the role creates, the other says it " ++
      "never does").toList
  return (store.writeAll (store.grantSchemaWrites request)).rematerializeSchemaCaps request.vcat request.path

/-- `CatalogRevokeSchema`: a row inherited from a parent's grant is that grant's. -/
def catalogRevokeSchema (store : PolicyTables) (role vcat path : Text) : Except Text PolicyTables :=
  if store.has .roleSchemas (fun row => grantAt role vcat path row && decide (row .inherited = .boolean false)) then
    .ok ((store.writeAll [.delete ⟨.roleSchemas, grantAt role vcat path⟩]).rematerializeSchemaCaps vcat path)
  else .error ("acl admin: ".toList ++ (if role = [] then "ALL ROLES".toList else "role \"".toList ++ role ++ "\"".toList) ++
    " holds no grant on schema \"".toList ++ vcat ++ ".".toList ++
    path ++ "\"".toList ++ (if store.has .roleSchemas (grantAt role vcat path) then
      " (it inherits a parent schema's - revoke that one)".toList else []) ++ " - nothing to revoke".toList)

/-- The operations on schemas and their grants. -/
inductive SchemaOperation where
  | addSchemaAlias (vcat path phys origin : Text)
  | alterSchemaAlias (vcat path phys : Text)
  | expandSchema (vcat path phys : Text)
  | grantSchema (request : SchemaGrantRequest)
  | revokeSchema (role vcat path : Text)
  | dropSchemaAlias (vcat path : Text) (cascade : Bool)

/-- An operation that returns. -/
def schemaStep (facts : SchemaFacts) (store : PolicyTables) (operation : SchemaOperation) : Option PolicyTables :=
  (match operation with
    | .addSchemaAlias vcat path phys origin => store.catalogAddSchemaAlias facts vcat path phys origin
    | .alterSchemaAlias vcat path phys => store.catalogAlterSchemaAlias facts vcat path phys
    | .expandSchema vcat path phys => store.catalogExpandSchema facts vcat path phys
    | .grantSchema request => store.catalogGrantSchema facts request
    | .revokeSchema role vcat path => store.catalogRevokeSchema role vcat path
    | .dropSchemaAlias vcat path cascade => store.catalogDropSchemaAlias vcat path cascade).toOption

/-! ## What a name is decided by -/

/-- The row is one of the role's on a schema above the name. -/
def coversName (role vcat name : Text) (row : Row) : Bool :=
  row.is .role role && row.is .vcat vcat &&
    match row .schemaPath with
    | .text path => Text.isUnder name path
    | _ => false

/-- `length("schema_path")`. -/
def pathLength (row : Row) : ℕ := ((textOf .schemaPath row).getD []).length

/-- The row `SchemaCapsExpr` picks for a name: the one of the longest path above it. -/
def schemaCapsRow (store : PolicyTables) (role vcat name : Text) : Option Row :=
  (((store.rows .roleSchemas).filter (coversName role vcat name)).insertionSort fun a b =>
    pathLength b ≤ pathLength a).head?

end PolicyTables

end DuckAcl
