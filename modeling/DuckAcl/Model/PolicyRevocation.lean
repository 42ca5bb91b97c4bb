import Mathlib
import DuckAcl.Model.PolicyTables

/-! # Revoking and dropping

`CatalogRevoke`, `CatalogDropRole` and `CatalogDropCatalog` (`acl_catalog_admin.cpp`) each list by hand
the tables they clear. A refusal leaves the store as it was.
-/

namespace DuckAcl

namespace PolicyTables

/-- `DELETE FROM table WHERE "role" = role`. -/
def deleteRole (role : Text) (table : TableName) : Delete :=
  ⟨table, fun row => row.is .role role⟩

/-- `DELETE FROM table WHERE "vcat" = vcat`. -/
def deleteCatalog (vcat : Text) (table : TableName) : Delete :=
  ⟨table, fun row => row.is .vcat vcat⟩

/-- `DELETE FROM table WHERE "role" = role AND "vcat" = vcat`. -/
def deletePair (role vcat : Text) (table : TableName) : Delete :=
  ⟨table, fun row => row.is .role role && row.is .vcat vcat⟩

/-- `ThrowNothingToRevoke`; the empty role is all of them. -/
def nothingToRevoke (role what : Text) : Text :=
  "acl admin: ".toList ++ (if role = [] then "ALL ROLES".toList else "role \"".toList ++ role ++ "\"".toList) ++
    " holds no ".toList ++ what ++ " - nothing to revoke".toList

/-- The tables `CatalogRevoke` clears of the pair, which are also those it asks. -/
def revokedTables : List TableName := [.roleCatalogs, .roleObjectCaps, .grantColumns]

/-- `CatalogRevoke`. -/
def catalogRevoke (store : PolicyTables) (role vcat : Text) : Except Text PolicyTables :=
  if revokedTables.any fun table => store.has table fun row => row.is .role role && row.is .vcat vcat then
    .ok (store.deleteAll (revokedTables.map (deletePair role vcat)))
  else .error (nothingToRevoke role ("grant on catalog \"".toList ++ vcat ++ "\"".toList))

/-- The tables `CatalogDropRole` clears of the role, the role's own last. -/
def droppedWithRole : List TableName :=
  [.roleClaims, .roleCatalogs, .roleObjectCaps, .grantColumns, .roleSchemas, .admins, .roleMappings,
    .roleResourceGroups, .roles]

/-- `CatalogDropRole`. -/
def catalogDropRole (store : PolicyTables) (role : Text) : Except Text PolicyTables :=
  if store.has .roles fun row => row.is .role role then
    .ok (store.deleteAll (droppedWithRole.map (deleteRole role)))
  else .error ("acl admin: role \"".toList ++ role ++ "\" does not exist".toList)

/-- The tables `CatalogDropCatalog` clears of the catalog. -/
def droppedWithCatalog : List TableName :=
  [.relations, .relationColumns, .relationTypes, .schemas, .functions, .objectColumns, .columnComments, .references,
    .referenceColumns, .schemaDropped, .keys]

/-- The tables a cascading drop clears besides. -/
def droppedByCascade : List TableName := [.roleCatalogs, .roleObjectCaps, .grantColumns, .roleSchemas]

/-- The roles that hold a catalog, in the order the refusal names them. -/
def holders (store : PolicyTables) (vcat : Text) : List Text :=
  ((store.rows .roleCatalogs).filter fun row => row.is .vcat vcat).filterMap (fun row =>
    match row .role with
    | .text role => some role
    | _ => none) |>.mergeSort (fun a b => decide (a ≤ b))

/-- `CatalogDropCatalog`. -/
def catalogDropCatalog (store : PolicyTables) (vcat : Text) (cascade : Bool) : Except Text PolicyTables :=
  if store.has .catalogs (fun row => row.is .vcat vcat) = false then
    .error ("acl admin: catalog \"".toList ++ vcat ++ "\" does not exist".toList)
  else if store.has .roleCatalogs (fun row => row.is .vcat vcat) ∧ cascade = false then
    .error ("acl admin: catalog \"".toList ++ vcat ++ "\" is still granted to ".toList ++
      (", ".toList).intercalate (store.holders vcat) ++ " - repeat with CASCADE to drop those grants too".toList)
  else
    .ok (store.deleteAll ((droppedWithCatalog ++ (if cascade then droppedByCascade else []) ++ [TableName.catalogs]).map
      (deleteCatalog vcat)))

end PolicyTables

end DuckAcl
