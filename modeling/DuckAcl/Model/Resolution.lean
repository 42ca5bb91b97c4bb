import Mathlib.Data.Finset.Basic
import DuckAcl.Model.NamePath
import DuckAcl.Model.TablePolicy

/-! # Resolving a name

`LookupRelation`, `LookupSchemaAlias` and the lookup of `ResolveFunction` (`acl_policy_catalog.cpp`)
each send one query to the policy database and build a policy from its rows. The query reads the
roles through an `IN` list and compares names folded (`KeyEqSql`, `KeyPrefixSql`); the rows it answers
are taken from the engine, and so are the readers of JSON and of SQL expressions.
-/

namespace DuckAcl

/-- The capabilities a resolution is asked for. -/
inductive Capability where
  | select
  | insert
  | update
  | delete
  | merge
deriving DecidableEq, Repr

def Capability.text : Capability → Text
  | select => "select".toList
  | insert => "insert".toList
  | update => "update".toList
  | delete => "delete".toList
  | merge => "merge".toList

/-- What a row of each of the queries says about one role's grant: its stored capabilities, and the
policy of the catalog and the object level. -/
structure GrantRow where
  role : Text
  caps : Option Text
  catalogLevel : GrantLevel
  objectLevel : GrantLevel
  /-- `prio = 1`: the name was read as a catalog and a name in it. -/
  qualified : Bool

/-- One column of `relation_types`: its type without the alias, without enums, without both. -/
structure TypeFact where
  column : Text
  asBase : Option Text
  asVarchar : Option Text
  asBoth : Option Text

/-- A row of the query of `LookupRelation`; an absent text is empty. -/
structure RelationRow extends GrantRow where
  form : Text
  phys : Text
  viewSql : Text
  rls : Text
  columns : List (Text × Text)
  rlsChecked : Bool
  aliasTypes : Option Text
  enumTypes : Option Text
  facts : List TypeFact
  vcat : Text
  vname : Text

/-- A row of the query of `LookupSchemaAlias`. -/
structure AliasRow extends GrantRow where
  vcat : Text
  aliasPath : Text
  physPath : Text

/-- A row of the query of `ResolveFunction`. -/
structure FunctionRow extends GrantRow where
  vcat : Text
  vname : Text
  form : Text
  target : Text
  template : Text

/-- The engine over one policy: the rows of the three queries, by the roles and the folded names they
compare, and the readers of stored text. -/
structure PolicyEngine where
  relations : Finset Text → (head rest unqualified : Text) → List RelationRow
  aliases : Finset Text → (head rest vname : Text) → List AliasRow
  functions : Finset Text → Bool → (head rest vname : Text) → List FunctionRow
  /-- `StoredExpressionsOk`. -/
  storedExpressionsOk : List Text → Bool
  /-- `ParseCaps`, not strict. -/
  parseCaps : Text → Except BinderException (List Text)

/-- The node's type settings, which shape a read. -/
structure NodeSettings where
  stripsAliases : Bool
  enumsToVarchar : Bool
deriving DecidableEq, Repr

/-- What a resolution of a table answers: the policy, and what the rewriter asks about the object. -/
structure ResolvedTable where
  policy : TablePolicy
  isView : Bool
  canonical : Text
  capabilityRowsRead : Bool
  fromSchemaAlias : Bool

/-- What a resolution of a function answers: the policy, and how the grant narrows the result. -/
structure ResolvedFunction where
  policy : TablePolicy
  wrapSql : Option PolicyQuery
  grantedItems : ColumnItems

namespace PolicyEngine

/-! ## Uniting the rows -/

/-- `RowPolicy`. -/
def rowPolicy (row : GrantRow) : Except BinderException GrantPolicy :=
  narrowAll [row.catalogLevel, row.objectLevel]

/-- `EffectiveCaps`: absent capabilities are every data capability. -/
def effectiveCaps (engine : PolicyEngine) (stored : Option Text) : Except BinderException (List Text) :=
  let text := stored.getD []
  if Text.trim text ≠ [] then engine.parseCaps text
  else .ok ([Capability.select, .insert, .update, .delete, .merge].map Capability.text)

/-- What the loops over the rows gather: the capabilities of any row, and of the rows that hold the
capability asked for their policies, the union of them, and whether each of them also reads. -/
structure UnitedRows where
  caps : List Text := []
  grants : GrantUnion := {}
  policies : List GrantPolicy := []
  rowsRead : Bool := true

/-- One row. -/
def uniteRow (engine : PolicyEngine) (capability : Capability) (united : UnitedRows) (row : GrantRow) :
    Except BinderException UnitedRows := do
  let caps ← engine.effectiveCaps row.caps
  let united := { united with caps := united.caps ++ caps.filter fun cap => !ciContains united.caps cap }
  if ciContains caps capability.text then
    let policy ← rowPolicy row
    return { united with
      grants := ← united.grants.add policy
      policies := united.policies ++ [policy]
      rowsRead := united.rowsRead && ciContains caps "select".toList }
  else return united

def unite (engine : PolicyEngine) (capability : Capability) (rows : List GrantRow) : Except BinderException UnitedRows :=
  rows.foldlM (engine.uniteRow capability) {}

/-- `RequireStoredExpressions`. -/
def requireStoredExpressions (engine : PolicyEngine) (object ownRls : Text) (ownColumns : List (Text × Text))
    (united : List GrantPolicy) : Except BinderException Unit :=
  if engine.storedExpressionsOk (ownRls :: ownColumns.map Prod.snd ++
      united.flatMap fun policy => policy.predicates ++ policy.columns.map Prod.snd) then .ok ()
  else .error ("acl: the policy of \"".toList ++ object ++
    "\" holds a stored expression that is not one expression (spec 148) - acl_check_catalog names it".toList)

/-! ## Relations -/

/-- `ApplyTypeFacts`. -/
def typeCasts (settings : NodeSettings) (row : RelationRow) : List (Text × Text) :=
  let stripAlias := match row.aliasTypes with
    | none => settings.stripsAliases
    | some types => decide (types = "base".toList)
  let enumsToVarchar := match row.enumTypes with
    | none => settings.enumsToVarchar
    | some types => decide (types = "varchar".toList)
  if !stripAlias && !enumsToVarchar then []
  else row.facts.filterMap fun fact =>
    (if stripAlias && enumsToVarchar then fact.asBoth else if stripAlias then fact.asBase else fact.asVarchar).map
      (fact.column, ·)

/-- The columns the object declares; a view's own SQL is its list. -/
def objectColumns (row : RelationRow) : List (Text × Text) :=
  if row.form = "view".toList then [] else row.columns

/-- The policy of the object, before the grants. -/
def objectPolicy (settings : NodeSettings) (row : RelationRow) : TablePolicy :=
  let isAlias := decide (row.form = "alias".toList)
  let listed := if isAlias then
      (objectColumns row).map fun column => if column.2 = [] then column.1 else column.2
    else []
  { phys := row.phys
    query := if row.viewSql = [] then none else some (.view row.viewSql)
    rls := row.rls
    rlsUnchecked := row.rls ≠ [] && !row.rlsChecked
    subqueryForm := !isAlias || objectColumns row ≠ []
    writable := isAlias
    casts := typeCasts settings row
    renames := if isAlias then (objectColumns row).filter fun column => column.2 ≠ [] else []
    writeColumns := listed
    visibleColumns := listed }

/-- The error of a name that matches two objects. -/
def ambiguousObject (vname : Text) : BinderException :=
  "acl: ambiguous name \"".toList ++ vname ++
    "\" - it matches more than one object of the policy (names compare case-insensitively)".toList

/-- The rows of the reading that wins: the query orders them by it. -/
def winning {ρ : Type} (qualified : ρ → Bool) (first : ρ) (rest : List ρ) : List ρ :=
  first :: rest.takeWhile fun row => qualified row == qualified first

/-- What `LookupRelation` makes of the rows. -/
def relationOf (engine : PolicyEngine) (settings : NodeSettings) (capability : Capability) (vname : Text) :
    List RelationRow → Except BinderException (Option ResolvedTable)
  | [] => .ok none
  | first :: rest => do
    let rows := winning (·.qualified) first rest
    let object (row : RelationRow) : Text := row.vcat ++ '\x1f' :: row.vname
    if rows.any fun row => decide (object row ≠ object first) then throw (ambiguousObject vname)
    let united ← engine.unite capability (rows.map RelationRow.toGrantRow)
    engine.requireStoredExpressions vname first.rls (objectColumns first) united.policies
    let own := { objectPolicy settings first with caps := united.caps }
    let policy ← applyGrantPolicy vname united.grants (objectColumns first) own
    return some
      { policy
        isView := decide (first.form = "view".toList)
        canonical := first.vcat ++ '.' :: first.vname
        capabilityRowsRead := united.rowsRead
        fromSchemaAlias := false }

/-- The name an unqualified reading looks for: an object of the default schema is stored bare. -/
def unqualifiedName (vname : Text) : Text :=
  let (head, rest) := NamePath.splitHeadKey vname
  if Text.ciEquals head "main".toList && rest ≠ [] then rest else vname

/-- The rows of the query of `LookupRelation`. -/
def relationRows (engine : PolicyEngine) (roles : List Text) (vname : Text) : List RelationRow :=
  let (head, rest) := NamePath.splitHeadKey vname
  engine.relations roles.toFinset (Text.fold head) (Text.fold rest) (Text.fold (unqualifiedName vname))

/-- `LookupRelation`. -/
def lookupRelation (engine : PolicyEngine) (settings : NodeSettings) (roles : List Text) (vname : Text)
    (capability : Capability) : Except BinderException (Option ResolvedTable) :=
  engine.relationOf settings capability vname (engine.relationRows roles vname)

/-! ## Schema aliases -/

/-- The error of a name that matches two schemas. -/
def ambiguousSchema (vname : Text) (first other : AliasRow) : BinderException :=
  "acl: ambiguous name \"".toList ++ vname ++ "\" - it matches schema ".toList ++
    NamePath.joinKeys first.vcat first.aliasPath ++ " and schema ".toList ++
    NamePath.joinKeys other.vcat other.aliasPath ++ " of the policy".toList

/-- The part of the written name below the alias, by parts; none where nothing is below it. -/
def tailBelow (aliasPath path : Text) : Except BinderException (Option Text) :=
  match NamePath.fromKey path with
  | none => .error "acl: a name is not a valid name".toList
  | some written =>
    let aliasParts := NamePath.keySize aliasPath
    if aliasParts = 0 ∨ written.length ≤ aliasParts then .ok none
    else .ok (some (NamePath.toKey (written.drop aliasParts)))

/-- The name as the winning reading has it. -/
def writtenPath (first : AliasRow) (vname : Text) : Text :=
  if first.qualified then (NamePath.splitHeadKey vname).2 else vname

/-- What `LookupSchemaAlias` makes of the rows. -/
def schemaAliasOf (engine : PolicyEngine) (capability : Capability) (vname : Text) :
    List AliasRow → Except BinderException (Option ResolvedTable)
  | [] => .ok none
  | first :: rest => do
    -- a shorter alias loses to the longest, and two that match equally are refused
    let equals := rest.takeWhile fun row =>
      row.qualified == first.qualified && NamePath.keySize row.aliasPath == NamePath.keySize first.aliasPath
    match equals.find? fun row => decide (row.vcat ≠ first.vcat ∨ row.aliasPath ≠ first.aliasPath) with
    | some other => throw (ambiguousSchema vname first other)
    | none => pure ()
    match ← tailBelow first.aliasPath (writtenPath first vname) with
    | none => return none
    | some tail =>
      let rows := (first :: rest).filter fun row => row.qualified == first.qualified &&
        decide (row.vcat = first.vcat) && decide (row.aliasPath = first.aliasPath)
      let united ← engine.unite capability (rows.map AliasRow.toGrantRow)
      engine.requireStoredExpressions vname [] [] united.policies
      let own : TablePolicy :=
        { subqueryForm := false
          writable := true
          phys := NamePath.joinKeys first.physPath tail
          caps := united.caps }
      let policy ← applyGrantPolicy vname united.grants [] own
      return some
        { policy
          isView := false
          canonical := NamePath.joinKeys first.vcat (NamePath.joinKeys first.aliasPath tail)
          capabilityRowsRead := united.rowsRead
          fromSchemaAlias := true }

/-- The rows of the query of `LookupSchemaAlias`. -/
def aliasRows (engine : PolicyEngine) (roles : List Text) (vname : Text) : List AliasRow :=
  let (head, rest) := NamePath.splitHeadKey vname
  engine.aliases roles.toFinset (Text.fold head) (Text.fold rest) (Text.fold vname)

/-- `LookupSchemaAlias`. -/
def lookupSchemaAlias (engine : PolicyEngine) (roles : List Text) (vname : Text) (capability : Capability) :
    Except BinderException (Option ResolvedTable) :=
  engine.schemaAliasOf capability vname (engine.aliasRows roles vname)

/-- The lookup of `ResolveTable`: a stored relation, or a name under a live schema alias. -/
def lookupTable (engine : PolicyEngine) (settings : NodeSettings) (roles : List Text) (vname : Text)
    (capability : Capability) : Except BinderException (Option ResolvedTable) := do
  match ← engine.lookupRelation settings roles vname capability with
  | some found => return some found
  | none => engine.lookupSchemaAlias roles vname capability

/-! ## Functions -/

/-- The word for a kind of function. -/
def kindText (tableKind : Bool) : Text :=
  if tableKind then "table".toList else "scalar".toList

/-- The error of a name that matches two functions. -/
def ambiguousFunction (vname : Text) (tableKind : Bool) : BinderException :=
  "acl: ambiguous name \"".toList ++ vname ++ "\" - it matches more than one ".toList ++ kindText tableKind ++
    " function of the policy (names compare case-insensitively)".toList

/-- `ApplyFunctionGrantPolicy`. -/
def applyFunctionGrantPolicy (vname : Text) (tableKind : Bool) (grants : GrantUnion) (out : TablePolicy) :
    Except BinderException ResolvedFunction :=
  let out := { out with rlsUnchecked := grants.isUnchecked }
  if grants.predicate = [] ∧ grants.restricts = false then .ok ⟨out, none, []⟩
  else if tableKind = false then
    .error ("acl: the grant on scalar function \"".toList ++ vname ++
      "\" carries a policy, but a scalar function has no rows or columns to narrow".toList)
  else
    let out := { out with rls := grants.predicate }
    if grants.restricts = false then .ok ⟨out, none, []⟩
    else
      let replaces := (grants.columns.filter fun column => column.2 ≠ []).map fun column =>
        (⟨.mask column.2, column.1⟩ : SelectItem)
      .ok ⟨out, some (.matching (grants.columns.map fun column => Text.fold column.1) replaces
        ⟨"__acl_inner".toList, [], out.rls⟩), grants.columns⟩

/-- What `ResolveFunction` makes of the rows. -/
def functionOf (engine : PolicyEngine) (tableKind : Bool) (vname : Text) :
    List FunctionRow → Except BinderException (Option ResolvedFunction)
  | [] => .ok none
  | first :: rest => do
    let rows := winning (·.qualified) first rest
    if rows.any fun row => decide (row.vcat ≠ first.vcat ∨ row.vname ≠ first.vname) then
      throw (ambiguousFunction vname tableKind)
    let united ← engine.unite .select (rows.map FunctionRow.toGrantRow)
    engine.requireStoredExpressions vname [] [] united.policies
    let own : TablePolicy :=
      { subqueryForm := decide (first.form ≠ "alias".toList)
        phys := first.target
        query := if first.template = [] then none else some (.view first.template)
        caps := united.caps }
    return some (← applyFunctionGrantPolicy vname tableKind united.grants own)

/-- The lookup of `ResolveFunction`. -/
def lookupFunction (engine : PolicyEngine) (roles : List Text) (vname : Text) (tableKind : Bool) :
    Except BinderException (Option ResolvedFunction) :=
  let (head, rest) := NamePath.splitHeadKey vname
  engine.functionOf tableKind vname
    (engine.functions roles.toFinset tableKind (Text.fold head) (Text.fold rest) (Text.fold vname))

end PolicyEngine

end DuckAcl
