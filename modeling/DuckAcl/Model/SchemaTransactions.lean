import DuckAcl.Library.Faults
import DuckAcl.Model.SchemaGrants

/-! # The transactions of the statements on schemas

`CatalogGrantSchema`, `CatalogRevokeSchema`, `CatalogAddSchemaAlias` and `CatalogExpandSchema` write in
one transaction and rebuild the inherited capabilities in another; an expansion has two more between
them. Here each is the list of its transactions, with the queries it makes, so that any step of the
database may be the one that fails (`acl_catalog_admin.cpp`, `WriteWithReads` and `Write` in
`acl_policy_catalog.cpp`).
-/

namespace DuckAcl.PolicyTables

open Faults

abbrev PolicyTransaction := Transaction PolicyTables Write Text

abbrev PolicyStatement := Statement PolicyTables Write Text

/-- `WriteWithReads`: the version is read back before the commit. -/
def writeWithReads (reads : PolicyTables → ℕ) (body : PolicyTables → Except Text (List Write)) : PolicyTransaction where
  reads := reads
  body := body
  closing := 2

/-- The statements of `CatalogRematerializeSchemaCaps`. -/
def rematerializeWrites (vcat path : Text) (store : PolicyTables) : List Write :=
  .delete ⟨.roleSchemas, fun row => inheritedIn vcat row && inSubtree path .schemaPath row⟩ ::
    (store.inheritedRows vcat path).map (.insert .roleSchemas)

/-- `CatalogRematerializeSchemaCaps`: it reads the schemas of the subtree and the stated grants. -/
def rematerializeTransaction (vcat path : Text) : PolicyTransaction :=
  writeWithReads (fun _ => 2) fun store => .ok (rematerializeWrites vcat path store)

/-- `CatalogAddSchemaAlias`: it reads the comment and the author. -/
def addSchemaTransactions (facts : SchemaFacts) (vcat path phys origin : Text) : List PolicyTransaction :=
  [writeWithReads (fun _ => 2) fun store => .ok (addSchemaWrites facts store vcat path phys origin),
   rematerializeTransaction vcat path]

/-- `RequireNotPolicyStore`, which asks the database for nothing that can fail. -/
def refusePolicyStore (facts : SchemaFacts) (phys : Text) : Except Text Unit :=
  match facts.policyStore phys with
  | some refusal => .error refusal
  | none => .ok ()

def addSchemaAliasStatement (facts : SchemaFacts) (vcat path phys origin : Text) : PolicyStatement where
  lookups := 0
  checks := fun _ => refusePolicyStore facts phys
  transactions := addSchemaTransactions facts vcat path phys origin

/-- The queries of an expansion's loop: whether a name is there, and the author of a new record. -/
def expandReads (store : PolicyTables) (vcat path : Text) : List Text → List Text → ℕ
  | [], _ => 0
  | name :: rest, known =>
    let vname := NamePath.childKey path name
    if caseSibling vname known then store.expandReads vcat path rest known
    else if store.has .relations (named vcat vname) then 1 + store.expandReads vcat path rest known
    else 2 + store.expandReads vcat path rest (known ++ [vname])

/-- The records of an expansion; a path that is no key is refused here, inside the transaction. -/
def expandTransaction (facts : SchemaFacts) (vcat path phys : Text) (names : List Text) : PolicyTransaction :=
  writeWithReads
    (fun store => match NamePath.fromKey path with
      | some (head :: _) => 1 + store.expandReads vcat path names (store.namesUnder vcat (NamePath.quotePart head))
      | _ => 0)
    fun store => match NamePath.fromKey path with
      | some (head :: _) => .ok (expandWrites facts store vcat path head phys names)
      | _ => .error "acl: a name is not a valid name".toList

/-- The physical objects of an expansion, or the refusal of a schema that is not there. -/
def expandNames (facts : SchemaFacts) (phys : Text) : Except Text (List Text) :=
  match facts.physicalObjects phys with
  | none => .error ("acl admin: physical schema \"".toList ++ phys ++
      "\" does not exist (is its database attached?)".toList)
  | some names => .ok names

def expandSchemaStatement (facts : SchemaFacts) (vcat path phys : Text) : PolicyStatement where
  lookups := 2
  checks := fun _ => do
    refusePolicyStore facts phys
    let _ ← expandNames facts phys
    refusePolicyStore facts []
  transactions := addSchemaTransactions facts vcat path [] phys ++
    [expandTransaction facts vcat path phys ((facts.physicalObjects phys).getD []),
     rematerializeTransaction vcat path]

/-- The checks of `CatalogGrantSchema`. -/
def grantSchemaChecks (facts : SchemaFacts) (store : PolicyTables) (request : SchemaGrantRequest) :
    Except Text Unit := do
  if ← facts.namesManage request.capsJson then
    throw ("acl admin: `manage` is granted per catalog, not per schema - administering the ACL is catalog-scoped " ++
      "(spec 009)").toList
  if store.has .schemas (schemaAt request.vcat request.path) = false then
    throw (schemaMissing request.vcat request.path)
  if request.into ≠ [] then
    match facts.policyStore request.into with
    | some refusal => throw refusal
    | none => pure ()
    if facts.physicalSchema request.into = false then
      throw ("acl admin: physical schema \"".toList ++ request.into ++
        "\" does not exist (is its database attached?)".toList)
  if request.virtualOnly ∧ request.into ≠ [] then
    throw ("acl admin: INTO and VIRTUAL ONLY are opposites - one names where the role creates, the other says it " ++
      "never does").toList

/-- `CatalogGrantSchema` writes with `Write`, which does not read the version back. The statement that
ensures a grant on the catalog is run whether or not there is one. -/
def grantSchemaStatement (facts : SchemaFacts) (request : SchemaGrantRequest) : PolicyStatement where
  lookups := if request.into = [] then 1 else 2
  checks := fun store => grantSchemaChecks facts store request
  transactions :=
    [{ reads := fun store => if request.ensureGrant ∧ store.has .roleCatalogs (fun row =>
         row.is .role request.role && row.is .vcat request.vcat) = true then 1 else 0
       body := fun store => .ok (store.grantSchemaWrites request)
       closing := 1 },
     rematerializeTransaction request.vcat request.path]

/-- Nothing to revoke: the text names the role and says where an inherited row comes from. -/
def noSchemaGrantToRevoke (store : PolicyTables) (role vcat path : Text) : Text :=
  "acl admin: ".toList ++ (if role = [] then "ALL ROLES".toList else "role \"".toList ++ role ++ "\"".toList) ++
    " holds no grant on schema \"".toList ++ vcat ++ ".".toList ++
    path ++ "\"".toList ++ (if store.has .roleSchemas (grantAt role vcat path) then
      " (it inherits a parent schema's - revoke that one)".toList else []) ++ " - nothing to revoke".toList

/-- `CatalogRevokeSchema`: a second query only where there is nothing to revoke. -/
def revokeSchemaStatement (role vcat path : Text) : PolicyStatement where
  lookups := 0
  checks := fun _ => .ok ()
  transactions :=
    [writeWithReads
      (fun store => if store.has .roleSchemas (fun row => grantAt role vcat path row &&
        decide (row .inherited = .boolean false)) then 1 else 2)
      (fun store => if store.has .roleSchemas (fun row => grantAt role vcat path row &&
          decide (row .inherited = .boolean false)) then .ok [.delete ⟨.roleSchemas, grantAt role vcat path⟩]
        else .error (store.noSchemaGrantToRevoke role vcat path)),
     rematerializeTransaction vcat path]

/-- An administrative statement on a schema or a grant on one. -/
inductive SchemaStatement where
  | grantSchema (request : SchemaGrantRequest)
  | revokeSchema (role vcat path : Text)
  | addSchemaAlias (vcat path phys origin : Text)
  | expandSchema (vcat path phys : Text)

def SchemaStatement.plan (facts : SchemaFacts) : SchemaStatement → PolicyStatement
  | .grantSchema request => grantSchemaStatement facts request
  | .revokeSchema role vcat path => revokeSchemaStatement role vcat path
  | .addSchemaAlias vcat path phys origin => addSchemaAliasStatement facts vcat path phys origin
  | .expandSchema vcat path phys => expandSchemaStatement facts vcat path phys

/-- What the statement does to the tables when every step succeeds. -/
def SchemaStatement.whole (facts : SchemaFacts) (store : PolicyTables) : SchemaStatement → Except Text PolicyTables
  | .grantSchema request => store.catalogGrantSchema facts request
  | .revokeSchema role vcat path => store.catalogRevokeSchema role vcat path
  | .addSchemaAlias vcat path phys origin => store.catalogAddSchemaAlias facts vcat path phys origin
  | .expandSchema vcat path phys => store.catalogExpandSchema facts vcat path phys

end DuckAcl.PolicyTables
