import DuckAcl.Model.FunctionCategories

/-! # The function model of a policy

`CatalogBackend::FunctionModel` (`acl_policy_catalog.cpp`) builds the model from the rows of three tables,
each read by a query without an order.
-/

namespace DuckAcl

/-- A row of `function_category_members`. -/
structure FunctionMemberRow where
  category : Text
  database : Text
  schema : Text
  name : Text
  kind : Text
deriving DecidableEq, Repr

/-- A row of `function_grants`: on a category, or on a function where the category is empty. -/
structure FunctionGrantRow where
  role : Text
  category : Text := []
  database : Text := []
  schema : Text := []
  name : Text := []
  kind : Text := []
  allowed : Option Bool
deriving DecidableEq, Repr

/-- The rows of the three tables. -/
structure FunctionRows where
  categories : List (Text × Text × Option Bool) := []
  members : List FunctionMemberRow := []
  grants : List FunctionGrantRow := []
deriving DecidableEq, Repr

/-- The key a row names; none when this build does not know its kind. -/
def FunctionMemberRow.key (row : FunctionMemberRow) : Option FunctionKey :=
  (FunctionKind.parse row.kind).map fun kind => { database := row.database, schema := row.schema, name := row.name, kind }

def FunctionGrantRow.key (row : FunctionGrantRow) : Option FunctionKey :=
  (FunctionKind.parse row.kind).map fun kind => { database := row.database, schema := row.schema, name := row.name, kind }

namespace FunctionCategoryModel

def addCategoryRow (model : FunctionCategoryModel) (row : Text × Text × Option Bool) : FunctionCategoryModel :=
  model.addCategory row.1 row.2.1 (row.2.2.getD false)

def addMemberRow (model : FunctionCategoryModel) (row : FunctionMemberRow) : FunctionCategoryModel :=
  match row.key with
  | none => model
  | some key => model.addMember row.category key

def addGrantRow (model : FunctionCategoryModel) (row : FunctionGrantRow) : FunctionCategoryModel :=
  if row.category ≠ [] then model.addCategoryGrant row.role row.category (row.allowed.getD false)
  else
    match row.key with
    | none => model
    | some key => model.addNameGrant row.role key (row.allowed.getD false)

end FunctionCategoryModel

/-- `FunctionModel`. -/
def FunctionRows.functionModel (rows : FunctionRows) : FunctionCategoryModel :=
  let categories := rows.categories.foldl FunctionCategoryModel.addCategoryRow {}
  let members := rows.members.foldl FunctionCategoryModel.addMemberRow categories
  rows.grants.foldl FunctionCategoryModel.addGrantRow members

end DuckAcl
