import Mathlib.Data.Finset.Basic
import DuckAcl.Library.Entries
import DuckAcl.Model.NamePath

/-! # Function categories

What a principal may call (`acl_function_categories.cpp`). A function's key is its database, schema, name
and kind; a category is a set of keys; a role holds categories and keys by grant, allowed or denied, and a
deny anywhere among a principal's roles wins. A bare name may stand for several keys, its candidates.

The source keeps the candidates by kind and name. Here they are one list, in the order they came, and a
name's candidates are its sublist. Maps and sets that compare names up to case have folded keys.
-/

namespace DuckAcl

/-- `FunctionKind`: whether a call is in an expression or in FROM. -/
inductive FunctionKind where
  | scalar
  | table
deriving DecidableEq, Repr

/-- `FunctionKindName`. -/
def FunctionKind.text : FunctionKind → Text
  | .scalar => "scalar".toList
  | .table => "table".toList

/-- `ParseFunctionKind`. -/
def FunctionKind.parse (text : Text) : Option FunctionKind :=
  if Text.ciEquals text "scalar".toList then some .scalar
  else if Text.ciEquals text "table".toList then some .table
  else none

structure FunctionKey where
  database : Text
  schema : Text
  name : Text
  kind : FunctionKind
deriving DecidableEq, Repr

namespace FunctionKey

def separator : Char := '\x1f'

/-- `Serialize`. -/
def serialize (key : FunctionKey) : Text :=
  Text.fold key.database ++ separator :: Text.fold key.schema ++ separator :: Text.fold key.name ++
    separator :: key.kind.text

/-- The key with its name in lower case. -/
def lowered (key : FunctionKey) : FunctionKey := { key with name := Text.fold key.name }

/-- The same function: the test of `FindCandidate`, under one kind and name. -/
def same (key other : FunctionKey) : Bool :=
  key.kind = other.kind ∧ key.name = other.name ∧ Text.ciEquals key.database other.database ∧
    Text.ciEquals key.schema other.schema

end FunctionKey

/-! ## The never set -/

/-- `FunctionNeverOnlyInSystem`. -/
def functionNeverOnlyInSystem (name : Text) : Bool := name = "whoami".toList

/-- The prefixes no principal calls. -/
def neverStarts : List Text := ["acl_", "ducklake_", "quack_", "uc_", "__internal_"].map String.toList

/-- SQL past the rewriter, pointers, generated queries, and the engine's own. -/
def neverNames : List Text :=
  ["arrow_scan", "arrow_scan_dumb", "seq_scan", "query", "query_table", "json_execute_serialized_sql", "tpch", "tpcds",
    "sqlsmith", "fuzzyduck", "reduce_sql_statement", "fuzz_all_functions", "scan_data_from_quack_client",
    "act_for_sessions", "error", "constant_or_null", "create_sort_key", "invoke", "combine", "finalize",
    "to_aggregate_state"].map String.toList

def scanners : List Text := ["postgres_", "pg_", "mysql_", "mssql_", "sqlite_", "odbc_"].map String.toList

def scannerVerbs : List Text :=
  ["query", "execute", "attach", "clear_cache", "configure_pool", "pin_connection", "close_pinned_connection",
    "bind_params", "create_params"].map String.toList

/-- `FunctionNeverCallable`. -/
def functionNeverCallable (name database : Text) : Bool :=
  neverStarts.any (·.isPrefixOf name) || neverNames.any (Text.ciEquals · name) ||
    functionNeverOnlyInSystem name && (database = [] || Text.ciEquals database "system".toList) ||
    scanners.any fun scanner => scanner.isPrefixOf name && scannerVerbs.any (name.drop scanner.length = ·)

/-! ## The model -/

/-- `Candidate`. -/
structure FunctionCandidate where
  key : FunctionKey
  categories : List Text := []
deriving DecidableEq, Repr

/-- `RoleRules`: folded categories, serialized keys. -/
structure RoleRules where
  categoriesAllowed : Finset Text := ∅
  categoriesDenied : Finset Text := ∅
  keysAllowed : Finset Text := ∅
  keysDenied : Finset Text := ∅

/-- `CategoryRow`. -/
structure CategoryRow where
  name : Text
  comment : Text
  builtin : Bool
deriving DecidableEq, Repr

structure FunctionCategoryModel where
  candidates : List FunctionCandidate := []
  categories : Entries Text CategoryRow := .empty
  rules : Entries Text RoleRules := .empty

namespace FunctionCategoryModel

/-- A role's rows; a role without an entry has none. -/
def rulesOf (model : FunctionCategoryModel) (role : Text) : RoleRules := (model.rules.find (Text.fold role)).getD {}

/-- A role's entry with its rows changed: made when there is none. -/
def changeRules (model : FunctionCategoryModel) (role : Text) (change : RoleRules → RoleRules) : FunctionCategoryModel :=
  { model with rules := model.rules.put (Text.fold role) (change (model.rulesOf role)) }

/-- `NameGranted`. -/
def nameGranted (model : FunctionCategoryModel) (key : FunctionKey) : Bool :=
  model.rules.list.any fun rule => key.serialize ∈ rule.2.keysAllowed ∨ key.serialize ∈ rule.2.keysDenied

/-- `FindCandidate`. -/
def findCandidate (model : FunctionCategoryModel) (key : FunctionKey) : Option FunctionCandidate :=
  model.candidates.find? (·.key.same key)

/-- The candidates with the first of a key changed. -/
def changeFirst (key : FunctionKey) (change : FunctionCandidate → FunctionCandidate) :
    List FunctionCandidate → List FunctionCandidate
  | [] => []
  | candidate :: rest =>
    if candidate.key.same key then change candidate :: rest else candidate :: changeFirst key change rest

/-- `AddCategory`. -/
def addCategory (model : FunctionCategoryModel) (name comment : Text) (builtin : Bool) : FunctionCategoryModel :=
  { model with categories := model.categories.put (Text.fold name) { name, comment, builtin } }

/-- `HasCategory`. -/
def hasCategory (model : FunctionCategoryModel) (name : Text) : Bool := model.categories.has (Text.fold name)

/-- A candidate no longer in a category. -/
def withoutCategory (category : Text) (candidate : FunctionCandidate) : FunctionCandidate :=
  { candidate with categories := candidate.categories.filter fun other => !Text.ciEquals other category }

/-- `RemoveCategory`: with its members and grants. -/
def removeCategory (model : FunctionCategoryModel) (name : Text) : FunctionCategoryModel :=
  if model.hasCategory name then
    { candidates := (model.candidates.map (withoutCategory name)).filter fun candidate =>
        !(candidate.categories.isEmpty && !model.nameGranted candidate.key)
      categories := model.categories.drop (Text.fold name)
      rules :=
        { list := model.rules.list.map fun rule =>
            (rule.1,
              { rule.2 with
                categoriesAllowed := rule.2.categoriesAllowed.erase (Text.fold name)
                categoriesDenied := rule.2.categoriesDenied.erase (Text.fold name) })
          distinct := by
            rw [List.map_map]
            exact model.rules.distinct } }
  else model

/-- `AddMember`. -/
def addMember (model : FunctionCategoryModel) (category : Text) (key : FunctionKey) : FunctionCategoryModel :=
  let model := if model.hasCategory category then model else model.addCategory category [] false
  let key := key.lowered
  match model.findCandidate key with
  | some existing =>
    if existing.categories.any (Text.ciEquals · category) then model
    else
      { model with
        candidates := changeFirst key (fun candidate => { candidate with categories := candidate.categories ++ [category] })
          model.candidates }
  | none => { model with candidates := model.candidates ++ [{ key := key, categories := [category] }] }

/-- `PruneCandidate`. -/
def pruneCandidate (model : FunctionCategoryModel) (key : FunctionKey) : FunctionCategoryModel :=
  { model with
    candidates := model.candidates.filter fun candidate =>
      !(candidate.categories.isEmpty && decide (candidate.key = key) && !model.nameGranted candidate.key) }

/-- `RemoveMember`. -/
def removeMember (model : FunctionCategoryModel) (category : Text) (key : FunctionKey) : FunctionCategoryModel :=
  let key := key.lowered
  match model.findCandidate key with
  | none => model
  | some existing =>
    let left := (withoutCategory category existing).categories
    if left.length = existing.categories.length then model
    else
      let removed := { model with candidates := changeFirst key (withoutCategory category) model.candidates }
      if left = [] then removed.pruneCandidate key else removed

/-- `AddCategoryGrant`: a row replaces one with the same role and category. -/
def addCategoryGrant (model : FunctionCategoryModel) (role category : Text) (allowed : Bool) : FunctionCategoryModel :=
  model.changeRules role fun rules =>
    let category := Text.fold category
    if allowed then
      { rules with
        categoriesAllowed := insert category (rules.categoriesAllowed.erase category)
        categoriesDenied := rules.categoriesDenied.erase category }
    else
      { rules with
        categoriesAllowed := rules.categoriesAllowed.erase category
        categoriesDenied := insert category (rules.categoriesDenied.erase category) }

/-- `AddNameGrant`: the key becomes a candidate. -/
def addNameGrant (model : FunctionCategoryModel) (role : Text) (key : FunctionKey) (allowed : Bool) :
    FunctionCategoryModel :=
  let key := key.lowered
  let model : FunctionCategoryModel := match model.findCandidate key with
    | some _ => model
    | none => { model with candidates := model.candidates ++ [{ key := key }] }
  model.changeRules role fun rules =>
    if allowed then
      { rules with
        keysAllowed := insert key.serialize (rules.keysAllowed.erase key.serialize)
        keysDenied := rules.keysDenied.erase key.serialize }
    else
      { rules with
        keysAllowed := rules.keysAllowed.erase key.serialize
        keysDenied := insert key.serialize (rules.keysDenied.erase key.serialize) }

/-- `RemoveCategoryGrant`. -/
def removeCategoryGrant (model : FunctionCategoryModel) (role category : Text) : FunctionCategoryModel :=
  if model.rules.has (Text.fold role) then
    model.changeRules role fun rules =>
      { rules with
        categoriesAllowed := rules.categoriesAllowed.erase (Text.fold category)
        categoriesDenied := rules.categoriesDenied.erase (Text.fold category) }
  else model

/-- `RemoveNameGrant`. -/
def removeNameGrant (model : FunctionCategoryModel) (role : Text) (key : FunctionKey) : FunctionCategoryModel :=
  if model.rules.has (Text.fold role) then
    let key := key.lowered
    (model.changeRules role fun rules =>
      { rules with
        keysAllowed := rules.keysAllowed.erase key.serialize
        keysDenied := rules.keysDenied.erase key.serialize }).pruneCandidate key
  else model

/-- `CategoriesOf`. -/
def categoriesOf (model : FunctionCategoryModel) (key : FunctionKey) : List Text :=
  ((model.findCandidate key.lowered).map (·.categories)).getD []

end FunctionCategoryModel

/-- An edit of the model. -/
inductive FunctionEdit where
  | addCategory (name comment : Text) (builtin : Bool)
  | removeCategory (name : Text)
  | addMember (category : Text) (key : FunctionKey)
  | removeMember (category : Text) (key : FunctionKey)
  | addCategoryGrant (role category : Text) (allowed : Bool)
  | removeCategoryGrant (role category : Text)
  | addNameGrant (role : Text) (key : FunctionKey) (allowed : Bool)
  | removeNameGrant (role : Text) (key : FunctionKey)
deriving DecidableEq, Repr

def FunctionCategoryModel.apply (model : FunctionCategoryModel) : FunctionEdit → FunctionCategoryModel
  | .addCategory name comment builtin => model.addCategory name comment builtin
  | .removeCategory name => model.removeCategory name
  | .addMember category key => model.addMember category key
  | .removeMember category key => model.removeMember category key
  | .addCategoryGrant role category allowed => model.addCategoryGrant role category allowed
  | .removeCategoryGrant role category => model.removeCategoryGrant role category
  | .addNameGrant role key allowed => model.addNameGrant role key allowed
  | .removeNameGrant role key => model.removeNameGrant role key

/-- The model a list of edits makes. -/
def FunctionCategoryModel.edited (edits : List FunctionEdit) : FunctionCategoryModel := edits.foldl apply {}

/-! ## Resolving a call -/

/-- A name as it was written: bare, with its schema, or with its catalog and schema. -/
structure WrittenName where
  path : List Text
  isName : NamePath.IsName path
  short : path.length ≤ 3

namespace WrittenName

def name (written : WrittenName) : Text := written.path.getLast written.isName.1

/-- `Schema()`, empty for a bare name. -/
def schema (written : WrittenName) : Text := (written.path.reverse[1]?).getD []

/-- `Catalog()`, empty where none was written. -/
def catalog (written : WrittenName) : Text := (written.path.reverse[2]?).getD []

def qualified (written : WrittenName) : Bool := 1 < written.path.length

end WrittenName

inductive FunctionVerdict where
  | admitted
  | never
  | denied
  | notGranted
  | uncategorized
  | ambiguous
  | unknownQualified
deriving DecidableEq, Repr

structure FunctionDecision where
  verdict : FunctionVerdict
  key : FunctionKey
  category : Text := []
  decidedBy : Text := []
deriving DecidableEq, Repr

/-- `SchemaRank`: where a bare name is looked for first. -/
def schemaRank (key : FunctionKey) : ℕ :=
  if !Text.ciEquals key.database "system".toList then 3
  else if Text.ciEquals key.schema "main".toList then 0
  else if Text.ciEquals key.schema "pg_catalog".toList then 1
  else 2

namespace FunctionCategoryModel

/-- One role's rows in one of the two passes of `Judge`: the category that decides, none for the key itself. -/
def decides (keys categories : Finset Text) (candidate : FunctionCandidate) : Option (Option Text) :=
  if candidate.key.serialize ∈ keys then some none
  else (candidate.categories.find? (Text.fold · ∈ categories)).map some

/-- A pass of `Judge` over the roles. -/
def judgePass (model : FunctionCategoryModel) (keys categories : RoleRules → Finset Text) (verdict : FunctionVerdict)
    (candidate : FunctionCandidate) : List Text → Option FunctionDecision
  | [] => none
  | role :: rest =>
    match decides (keys (model.rulesOf role)) (categories (model.rulesOf role)) candidate with
    | some none => some { verdict, key := candidate.key, decidedBy := "name:".toList ++ role }
    | some (some category) =>
      some
        { verdict, key := candidate.key, category
          decidedBy := "category:".toList ++ category ++ '@' :: role }
    | none => judgePass model keys categories verdict candidate rest

/-- `Judge`: a deny of any role, then an allow of any. -/
def judge (model : FunctionCategoryModel) (roles : List Text) (candidate : FunctionCandidate) : FunctionDecision :=
  let everyone := roles ++ [[]]
  match model.judgePass RoleRules.keysDenied RoleRules.categoriesDenied .denied candidate everyone with
  | some decision => decision
  | none =>
    match model.judgePass RoleRules.keysAllowed RoleRules.categoriesAllowed .admitted candidate everyone with
    | some decision => decision
    | none => { verdict := .notGranted, key := candidate.key, decidedBy := "none".toList }

/-- `never_by_key`. -/
def neverByKey (decision : FunctionDecision) : FunctionDecision :=
  if functionNeverCallable decision.key.name decision.key.database then
    { decision with verdict := .never, decidedBy := "never".toList }
  else decision

/-- The candidates of a name. -/
def named (model : FunctionCategoryModel) (kind : FunctionKind) (name : Text) : List FunctionCandidate :=
  model.candidates.filter fun candidate => candidate.key.kind = kind ∧ candidate.key.name = name

/-- The loop body over a qualified name's candidates. -/
def pickQualified (catalog schema : Text) (found : Option FunctionCandidate) (candidate : FunctionCandidate) :
    Option FunctionCandidate :=
  if !Text.ciEquals candidate.key.schema schema then found
  else if catalog ≠ [] ∧ !Text.ciEquals candidate.key.database catalog then found
  else
    let system := Text.ciEquals candidate.key.database "system".toList
    if catalog = [] ∧ !system ∧ found.isSome then found
    else if found.isNone ∨ (catalog = [] ∧ system) then some candidate
    else found

/-- The candidate of a qualified name; `x.f` may be database `x`'s default schema too. -/
def findQualified (catalog schema : Text) (candidates : List FunctionCandidate) : Option FunctionCandidate :=
  match candidates.foldl (pickQualified catalog schema) none with
  | some found => some found
  | none =>
    if catalog = [] then
      candidates.find? fun candidate =>
        Text.ciEquals candidate.key.database schema && Text.ciEquals candidate.key.schema "main".toList
    else none

/-- The loop body over a bare name's candidates: the best with its rank, and whether another ties. -/
def pickBare (best : Option (FunctionCandidate × ℕ × Bool)) (candidate : FunctionCandidate) :
    Option (FunctionCandidate × ℕ × Bool) :=
  let rank := schemaRank candidate.key
  match best with
  | none => some (candidate, rank, false)
  | some (found, bestRank, tie) =>
    if rank < bestRank then some (candidate, rank, false)
    else if rank = bestRank ∧ rank = 3 then some (found, bestRank, true)
    else some (found, bestRank, tie)

/-- `Resolve`. -/
def resolve (model : FunctionCategoryModel) (roles : List Text) (written : WrittenName) (kind : FunctionKind) :
    FunctionDecision :=
  let name := Text.fold written.name
  let key : FunctionKey := { database := "system".toList, schema := "main".toList, name, kind }
  if functionNeverCallable name [] && !functionNeverOnlyInSystem name then
    { verdict := .never, key, decidedBy := "never".toList }
  else if written.qualified then
    match findQualified written.catalog written.schema (model.named kind name) with
    | none =>
      { verdict := .unknownQualified, key := { key with database := written.catalog, schema := written.schema }
        decidedBy := "none".toList }
    | some found => neverByKey (model.judge roles found)
  else
    match (model.named kind name).foldl pickBare none with
    | none => neverByKey { verdict := .uncategorized, key, decidedBy := "none".toList }
    | some (_, _, true) => { verdict := .ambiguous, key, decidedBy := "none".toList }
    | some (best, _, false) => neverByKey (model.judge roles best)

/-! ## Listing what may be called -/

/-- `Resolve` of a bare name. -/
def resolveBare (model : FunctionCategoryModel) (roles : List Text) (written : Text) (kind : FunctionKind) :
    FunctionDecision :=
  let name := Text.fold written
  let key : FunctionKey := { database := "system".toList, schema := "main".toList, name, kind }
  if functionNeverCallable name [] && !functionNeverOnlyInSystem name then
    { verdict := .never, key, decidedBy := "never".toList }
  else
    match (model.named kind name).foldl pickBare none with
    | none => neverByKey { verdict := .uncategorized, key, decidedBy := "none".toList }
    | some (_, _, true) => { verdict := .ambiguous, key, decidedBy := "none".toList }
    | some (best, _, false) => neverByKey (model.judge roles best)

/-- One candidate of `AdmittedKeys`: outside the system catalog it is listed by its bare name only, and so
only when that name reaches it. -/
def listed (model : FunctionCategoryModel) (roles : List Text) (candidate : FunctionCandidate) : Bool :=
  let key := candidate.key
  if (functionNeverCallable key.name [] && !functionNeverOnlyInSystem key.name) ||
      functionNeverCallable key.name key.database then false
  else if (model.judge roles candidate).verdict ≠ .admitted then false
  else if !Text.ciEquals key.database "system".toList then
    let bare := model.resolveBare roles key.name key.kind
    decide (bare.verdict = .admitted ∧ bare.key = key)
  else true

/-- `AdmittedKeys`. -/
def admittedKeys (model : FunctionCategoryModel) (roles : List Text) : List FunctionKey :=
  [FunctionKind.scalar, FunctionKind.table].flatMap fun kind =>
    ((model.candidates.filter fun candidate => decide (candidate.key.kind = kind)).filter (model.listed roles)).map (·.key)

end FunctionCategoryModel

end DuckAcl
