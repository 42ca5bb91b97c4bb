import DuckAcl.Model.GrantPolicy

/-! # The policy of one relation

A lookup answers a `TablePolicy`: how a read of the relation is built and what a write may touch.
`ApplyGrantPolicy` folds a principal's united grants into the policy of the object
(`acl_policy_catalog.cpp`, `acl_policy.hpp`). Where the source composes SQL text, the model keeps the
pieces: a select item is a value and the name it is read under, and a query is built from items.
-/

namespace DuckAcl

/-- Membership in a `case_insensitive_set_t`. -/
def ciContains (names : List Text) (name : Text) : Bool := names.any (Text.ciEquals · name)

/-- What a value is read from, in physical terms: a name, which is emitted quoted, or SQL text. -/
inductive Source where
  | column (name : Text)
  | text (sql : Text)
deriving DecidableEq, Repr

/-- What a role reads of a column: its source, a mask, or the source through a field tree. -/
inductive ReadValue where
  | whole (source : Source)
  | mask (sql : Text)
  | compiled (tree : FieldNode) (source : Source)

/-- A select item `value AS name`; the `AS` is left out where the value is the quoted name. -/
structure SelectItem where
  value : ReadValue
  name : Text

/-- `TablePolicy::ReadFrom`: the physical relation, cast column by column where types are exposed
differently, with its row filter under the cast. -/
structure ReadFrom where
  phys : Text
  casts : List (Text × Text)
  rls : Text
deriving DecidableEq, Repr

/-- The queries a policy composes. -/
inductive PolicyQuery where
  /-- a view's own SQL -/
  | view (sql : Text)
  /-- `SELECT * REPLACE (CAST(c AS t) AS c, …) FROM (query) AS __acl_typed [WHERE predicate]` -/
  | typed (casts : List (Text × Text)) (query : PolicyQuery) (predicate : Text)
  /-- `SELECT items FROM (query) AS __acl_granted [WHERE predicate]` -/
  | granted (items : List SelectItem) (query : PolicyQuery) (predicate : Text)
  /-- `SELECT * FROM (query) AS __acl_granted [WHERE predicate]` -/
  | filtered (query : PolicyQuery) (predicate : Text)
  /-- `SELECT COLUMNS(lambda c: fold(c) IN (names)) FROM (SELECT * [REPLACE (replaces)] FROM …)` -/
  | matching (names : List Text) (replaces : List SelectItem) (source : ReadFrom)

/-- `TablePolicy`, with the fields a read and a write are built from. -/
structure TablePolicy where
  subqueryForm : Bool := true
  phys : Text := []
  projection : List SelectItem := []
  rls : Text := []
  rlsUnchecked : Bool := false
  query : Option PolicyQuery := none
  caps : List Text := []
  renames : List (Text × Text) := []
  writable : Bool := false
  injections : List (Text × Text) := []
  writeColumns : List Text := []
  writeOrder : List Text := []
  visibleColumns : List Text := []
  narrowedReads : List (Text × Text) := []
  fieldWrites : List (Text × Text) := []
  casts : List (Text × Text) := []

/-- `TablePolicy::ReadFrom` of a policy. -/
def TablePolicy.readFrom (policy : TablePolicy) : ReadFrom := ⟨policy.phys, policy.casts, policy.rls⟩

/-! ## What a grant lists -/

/-- `ItemsCsv`. -/
def itemsCsv (items : ColumnItems) : Text :=
  ", ".toList.intercalate (items.map fun item => if item.2 = [] then item.1 else item.1 ++ " = ".toList ++ item.2)

/-- `ListedColumn`: shown as it is, masked whole, or narrowed to some of its fields. -/
structure ListedColumn where
  name : Text
  mask : Text := []
  tree : Option FieldNode := none

namespace ListedColumn

/-- `ListedColumn::Writable`: a narrowed column is written through unless its tree steps into list
elements. -/
def writable (column : ListedColumn) : Bool := column.tree.all (!hasElementStep ·)

/-- `ListedColumn::TreeItems`: the tree as `COLUMNS` items rooted at `root`, if there is one. -/
def treeItems (column : ListedColumn) (root : Text) : Option Text :=
  column.tree.map fun tree =>
    let copy := { tree with name := root }
    itemsCsv (serializeNode (ColumnTrees.rootName copy) copy)

/-- `ListedColumn::Read`: what the role reads of the column, over its source. -/
def read (column : ListedColumn) (source : Source) : ReadValue :=
  match column.tree with
  | some tree => .compiled tree source
  | none => if column.mask = [] then .whole source else .mask column.mask

/-- Whether the grant masks the column or narrows it. -/
def guarded (column : ListedColumn) : Bool := column.mask ≠ [] || column.tree.isSome

end ListedColumn

/-- One column of a tree list as `ListColumns` lists it. -/
def listedColumn (column : FieldNode) : ListedColumn :=
  if column.masked then { name := column.name, mask := column.mask }
  else if column.plain then { name := column.name }
  else { name := column.name, tree := some column }

/-- `ListColumns`. -/
def listColumns (items : ColumnItems) : Except BinderException (List ListedColumn) := do
  let trees ← ColumnTrees.fromItems items
  return trees.columns.map listedColumn

/-- `ViewItems`: the grant's items over a view's output, where every column is its own source. -/
def viewItems (items : ColumnItems) : Except BinderException (List SelectItem) := do
  let listed ← listColumns items
  return listed.map fun column => ⟨column.read (.column column.name), column.name⟩

/-! ## Folding a grant into an object -/

/-- The item an object's own column is read as. -/
def objectItem (column : Text × Text) : SelectItem :=
  ⟨.whole (if column.2 = [] then .column column.1 else .text column.2), column.1⟩

/-- Whether the object declares a column of that name. -/
def declares (objectColumns : List (Text × Text)) (name : Text) : Bool :=
  objectColumns.any fun defined => Text.ciEquals defined.1 name

/-- The error of a mask the object has no column for. -/
def maskUnknown (vname column : Text) : BinderException :=
  "acl: the grant on \"".toList ++ vname ++ "\" masks column \"".toList ++ column ++
    "\", which the object does not have - a mask that cannot be applied would leave it unprotected".toList

/-- Take the first listed column of a name; what stays behind has been moved from. -/
def takeListed (name : Text) : List ListedColumn → Option (ListedColumn × List ListedColumn)
  | [] => none
  | column :: rest =>
    if Text.ciEquals name column.name then some (column, { name := [] } :: rest)
    else (takeListed name rest).map fun (taken, left) => (taken, column :: left)

/-- The listed columns in the object's order. -/
def orderListed : List (Text × Text) → List ListedColumn → List ListedColumn
  | [], _ => []
  | defined :: rest, listed =>
    match takeListed defined.1 listed with
    | some (column, left) => column :: orderListed rest left
    | none => orderListed rest listed

/-- The error of a listed column whose physical name the object renamed away. -/
def renamedAway (vname column : Text) : BinderException :=
  "acl: grant on \"".toList ++ vname ++ "\" lists column \"".toList ++ column ++
    "\", which the object renamed away".toList

/-- What a listed column is read from: the object's own entry, then its rename, walking the renames
in order. -/
def renameSource (vname name : Text) (source : Source) : List (Text × Text) → Except BinderException Source
  | [] => .ok source
  | rename :: rest =>
    if Text.ciEquals rename.1 name then .ok (.text rename.2)
    else if Text.ciEquals rename.2 name then .error (renamedAway vname name)
    else renameSource vname name source rest

/-- The object's own source of a listed column. -/
def definedSource (objectColumns : List (Text × Text)) (name : Text) : Source :=
  match objectColumns.find? fun defined => Text.ciEquals defined.1 name with
  | some defined => if defined.2 = [] then .column defined.1 else .text defined.2
  | none => .column name

/-- A source's text: the physical name a write goes to. -/
def Source.name : Source → Text
  | .column name => name
  | .text sql => sql

/-- What a listed column adds to the write side: nothing when the relation or the column is not
written through. -/
def TablePolicy.listWrite (policy : TablePolicy) (column : ListedColumn) (source : Text) : TablePolicy :=
  let policy :=
    { policy with
      visibleColumns := policy.visibleColumns ++ [source]
      narrowedReads := policy.narrowedReads ++ ((column.treeItems source).map (source, ·)).toList }
  if !policy.writable || !column.writable then policy
  else
    { policy with
      writeColumns := policy.writeColumns ++ [source]
      writeOrder := policy.writeOrder ++ [column.name]
      injections := policy.injections ++ (if column.mask = [] then [] else [(source, column.mask)])
      fieldWrites := policy.fieldWrites ++ ((column.treeItems source).map (source, ·)).toList }

/-- One listed column of an object that declares its columns. -/
def TablePolicy.listDeclared (vname : Text) (objectColumns : List (Text × Text)) (policy : TablePolicy)
    (column : ListedColumn) : Except BinderException TablePolicy := do
  let source ← renameSource vname column.name (definedSource objectColumns column.name) policy.renames
  let item : SelectItem := ⟨column.read source, column.name⟩
  let policy := { policy with projection := policy.projection ++ [item] }
  return policy.listWrite column source.name

/-- Every listed column of an object that declares its columns, folded in the object's order. -/
def TablePolicy.restrictDeclared (vname : Text) (objectColumns : List (Text × Text)) (listed : List ListedColumn)
    (policy : TablePolicy) : Except BinderException TablePolicy := do
  match listed.find? fun column => !declares objectColumns column.name && column.guarded with
  | some column => throw (maskUnknown vname column.name)
  | none => pure ()
  let policy ← (orderListed objectColumns listed).foldlM (TablePolicy.listDeclared vname objectColumns) policy
  return { policy with subqueryForm := true }

/-- The listed columns of an object that declares none: the engine matches the names while it binds
the query, the masks go into an inner `REPLACE`. -/
def TablePolicy.restrictUndeclared (listed : List ListedColumn) (policy : TablePolicy) : TablePolicy :=
  let query := PolicyQuery.matching (listed.map fun column => Text.fold column.name)
    ((listed.filter ListedColumn.guarded).map fun column => ⟨column.read (.column column.name), column.name⟩)
    policy.readFrom
  let policy := listed.foldl (fun policy column => policy.listWrite column column.name) { policy with query := some query }
  { policy with subqueryForm := true }

/-- The composed row filter: the object's own and the grant's. -/
def composeRls (own predicate : Text) : Text :=
  if predicate = [] then own
  else if own = [] then predicate
  else '(' :: own ++ ") AND (".toList ++ predicate ++ [')']

/-- `CatalogBackend::ApplyGrantPolicy`. -/
def applyGrantPolicy (vname : Text) (grants : GrantUnion) (objectColumns : List (Text × Text)) (out : TablePolicy) :
    Except BinderException TablePolicy := do
  let predicate := grants.predicate
  let out := { out with rlsUnchecked := out.rlsUnchecked || grants.isUnchecked }
  match out.query with
  | some query =>
    if out.casts ≠ [] then
      -- a view's output is cast right above the grant's row filter
      let typed := PolicyQuery.typed out.casts query predicate
      let items ← viewItems grants.columns
      return { out with casts := [], query := some (if grants.restricts then .granted items typed [] else typed) }
    if predicate = [] ∧ grants.restricts = false then
      return { out with projection := out.projection ++ objectColumns.map objectItem }
    let items ← viewItems grants.columns
    return { out with query := some (if grants.restricts then .granted items query predicate else .filtered query predicate) }
  | none =>
    if predicate = [] ∧ grants.restricts = false then
      return { out with projection := out.projection ++ objectColumns.map objectItem }
    let out := { out with rls := composeRls out.rls predicate }
    if grants.restricts = false then
      return { out with projection := out.projection ++ objectColumns.map objectItem,
                        subqueryForm := out.subqueryForm || out.rls ≠ [] }
    let out := { out with writeColumns := [], writeOrder := [], visibleColumns := [], narrowedReads := [] }
    let listed ← listColumns grants.columns
    if objectColumns = [] then return out.restrictUndeclared listed
    else out.restrictDeclared vname objectColumns listed

/-- An alias-form object as the catalog stores it: a real table, its own row filter, its declared
columns (virtual name, physical name), the columns exposed as another type, and the capabilities
of the principal. -/
structure AliasObject where
  phys : Text
  rls : Text := []
  rlsChecked : Bool := true
  columns : List (Text × Text) := []
  casts : List (Text × Text) := []
  caps : List Text := []

/-- The policy `LookupRelation` has of an alias-form object when it comes to the grants. -/
def AliasObject.policy (object : AliasObject) : TablePolicy where
  phys := object.phys
  rls := object.rls
  rlsUnchecked := object.rls ≠ [] && !object.rlsChecked
  subqueryForm := object.columns ≠ []
  writable := true
  caps := object.caps
  casts := object.casts
  renames := object.columns.filterMap fun column => if column.2 = [] then none else some column
  writeColumns := object.columns.map fun column => if column.2 = [] then column.1 else column.2
  visibleColumns := object.columns.map fun column => if column.2 = [] then column.1 else column.2

/-- `LookupRelation` of an alias-form object under a principal's united grants. -/
def AliasObject.lookup (object : AliasObject) (vname : Text) (grants : GrantUnion) : Except BinderException TablePolicy :=
  applyGrantPolicy vname grants object.columns object.policy

end DuckAcl
