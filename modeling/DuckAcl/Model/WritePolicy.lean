import DuckAcl.Model.FieldSql
import DuckAcl.Model.Markers
import DuckAcl.Model.TablePolicy

/-! # A policy on what is written

The steps a write takes under its target's policy (`acl_rewriter.cpp`): names mapped back onto the
physical table, columns checked against the grant, values the grant assigns, narrowed columns folded
into what is stored, and the row predicate on what may be reached and on what it may become. The
policy's SQL is parsed by the engine.
-/

namespace DuckAcl

/-- How the policy's SQL becomes a tree: the store's parser, and the markers' values. -/
structure PolicySql where
  templates : Templates
  /-- `PolicyStore::InstantiateExpr` -/
  instantiateExpr : Text → Except Refusal Expr
  /-- `Parser::ParseExpressionList` of SQL that is one expression -/
  parseExpression : Text → Except Refusal Expr

/-- A policy's expression, its claims baked in. -/
def PolicySql.baked (sql : PolicySql) (text : Text) : Except Refusal Expr := do
  (← sql.instantiateExpr text).bakeMarkers sql.templates none

/-- `Shown`. -/
def shown (key : Text) : Text := if key.contains '"' then key else '"' :: key ++ ['"']

/-! ## Names -/

/-- `MapWrittenColumn`: a written name onto the physical one; a physical name that the object renamed
away is no column of it any more. -/
def mapWrittenColumn (policy : TablePolicy) (vname written : Text) : Except Refusal Text :=
  match policy.renames.find? fun rename => Text.ciEquals rename.1 written with
  | some rename => .ok rename.2
  | none =>
    if policy.renames.any fun rename => Text.ciEquals rename.2 written then
      .error (shown vname ++ " has no column \"".toList ++ written ++ ['"'])
    else .ok written

/-- `MapColumnRefs`: the references of the target's own scope. With another relation in scope
(`targetAlias` not empty) a reference qualified by something else is left alone. -/
def mapColumnRefs (policy : TablePolicy) (vname targetAlias : Text) (expr : Expr) : Except Refusal Expr :=
  expr.mapRefs fun origin names =>
    match names.getLast? with
    | none => .ok (.columnRef origin names)
    | some column =>
      if targetAlias ≠ [] ∧ 2 ≤ names.length ∧
          Text.ciEquals (names.getD (names.length - 2) []) targetAlias = false then .ok (.columnRef origin names)
      else do return .columnRef origin (names.dropLast ++ [← mapWrittenColumn policy vname column])

/-- `MapTargetQualifier`: an INSERT target is bound under its own name. -/
def mapTargetQualifier (leaf physical : Text) (expr : Expr) : Except Refusal Expr :=
  expr.mapRefs fun origin names =>
    if 2 ≤ names.length ∧ Text.ciEquals (names.getD (names.length - 2) []) leaf then
      .ok (.columnRef origin (names.set (names.length - 2) physical))
    else .ok (.columnRef origin names)

/-- `VirtualColumn`: the name the principal knows a physical column by. -/
def virtualColumn (policy : TablePolicy) (physical : Text) : Text :=
  match policy.renames.find? fun rename => Text.ciEquals rename.2 physical with
  | some rename => rename.1
  | none => physical

/-- `RequireWritableColumn`. -/
def requireWritableColumn (policy : TablePolicy) (vname column : Text) : Except Refusal Unit :=
  if policy.writeColumns.isEmpty ∨ ciContains policy.writeColumns column then .ok ()
  else .error ("column \"".toList ++ column ++ "\" of ".toList ++ shown vname ++ " is not writable".toList)

/-- Each written column mapped onto the physical table and checked against the grant. -/
def mapWritableColumns (policy : TablePolicy) (vname : Text) : List Text → Except Refusal (List Text)
  | [] => .ok []
  | column :: columns => do
    let physical ← mapWrittenColumn policy vname column
    requireWritableColumn policy vname physical
    return physical :: (← mapWritableColumns policy vname columns)

/-! ## Values the grant assigns -/

/-- The error of a value that reads the row. -/
def computedFromRow (column vname : Text) : Refusal :=
  "column \"".toList ++ column ++ "\" of ".toList ++ shown vname ++
    " is computed from the row, so it cannot be written".toList

/-- `RequireValueExpression`: claims and constants only. -/
def requireValueExpression (column vname : Text) (expr : Expr) : Except Refusal Unit :=
  if expr.columnRefs = [] then .ok () else .error (computedFromRow column vname)

/-- `InjectedValue`. -/
def injectedValue (sql : PolicySql) (vname : Text) (injection : Text × Text) : Except Refusal Expr := do
  let value ← sql.baked injection.2
  requireValueExpression injection.1 vname value
  return value

/-- The injection of a column, the first that names it. -/
def TablePolicy.injectionOf (policy : TablePolicy) (column : Text) : Option (Text × Text) :=
  policy.injections.find? fun injection => Text.ciEquals injection.1 column

/-- The values of a SET list with the grant's own put in, assigned rather than suggested
(`ApplySetInjections`); a column without a value ends the list. -/
def injectValues (sql : PolicySql) (policy : TablePolicy) (vname : Text) : List Text → List Expr → Except Refusal (List Expr)
  | column :: columns, value :: values => do
    let value ← match policy.injectionOf column with
      | some injection => injectedValue sql vname injection
      | none => .ok value
    return value :: (← injectValues sql policy vname columns values)
  | _, values => .ok values

/-! ## Narrowed columns -/

/-- `FieldWriteTree`: the grant's tree for a narrowed column. -/
def fieldWriteTree (policy : TablePolicy) (column : Text) : Except Refusal (Option FieldNode) :=
  match policy.fieldWrites.find? fun entry => Text.ciEquals entry.1 column with
  | none => .ok none
  | some entry => do
    let trees ← ColumnTrees.fromItems (parseColumnList entry.2)
    return trees.find entry.1

/-- `SubstitutePlaceholder`. -/
def substitutePlaceholder (name : Text) (value expr : Expr) : Except Refusal Expr :=
  expr.mapRefs fun origin names => .ok (if names = [name] then value else .columnRef origin names)

mutual

/-- `RequireFieldMasksAreValues`: a field mask is an assignment on a write, like a column's. -/
def requireFieldMasksAreValues (sql : PolicySql) (column vname : Text) : FieldNode → Except Refusal Unit
  | ⟨_, _, masked, mask, fields, element⟩ =>
    if masked then do requireValueExpression column vname (← sql.instantiateExpr mask)
    else do
      requireMasksAreValues sql column vname fields
      match element with
      | some child => requireFieldMasksAreValues sql column vname child
      | none => .ok ()

/-- The same over the fields. -/
def requireMasksAreValues (sql : PolicySql) (column vname : Text) : List FieldNode → Except Refusal Unit
  | [] => .ok ()
  | child :: rest => do
    requireFieldMasksAreValues sql column vname child
    requireMasksAreValues sql column vname rest

end

/-- The error of a written struct with a field the role cannot write. -/
def foreignFieldWritten (column vname : Text) : Refusal :=
  "acl_rewrite: the value written to \"".toList ++ column ++ "\" of \"".toList ++ vname ++
    "\" carries a field this role cannot write".toList

/-- `FieldWriteValue`: the statement's value folded into what is stored, `absent` for an insert. -/
def fieldWriteValue (sql : PolicySql) (column vname : Text) (tree : FieldNode) (written stored : Expr) :
    Except Refusal Expr := do
  let placeholder := if stored.isAbsent then [] else "\"__acl_stored\"".toList
  let value ← sql.parseExpression
    (compileWriteSql "\"__acl_written\"".toList placeholder (foreignFieldWritten column vname) 0 tree)
  let value ← value.bakeMarkers sql.templates none
  requireFieldMasksAreValues sql column vname tree
  let value ← substitutePlaceholder "__acl_written".toList written value
  if stored.isAbsent then return value else substitutePlaceholder "__acl_stored".toList stored value

/-- The reference to a stored column, qualified where another relation is in scope. -/
def storedColumn (target column : Text) : Expr :=
  .columnRef .policy (if target = [] then [column] else [target, column])

/-- The values of a SET list with the narrowed columns folded into what is stored
(`ApplyFieldWrites`). -/
def foldFieldWrites (sql : PolicySql) (policy : TablePolicy) (vname target : Text) :
    List Text → List Expr → Except Refusal (List Expr)
  | column :: columns, value :: values => do
    let value ← match ← fieldWriteTree policy column with
      | some tree => fieldWriteValue sql (virtualColumn policy column) vname tree value (storedColumn target column)
      | none => .ok value
    return value :: (← foldFieldWrites sql policy vname target columns values)
  | _, values => .ok values

/-! ## The row predicate -/

/-- `WritePredicate`: the grant's predicate, `absent` when it has none. -/
def writePredicate (sql : PolicySql) (policy : TablePolicy) : Except Refusal Expr :=
  if policy.rls = [] then .ok .absent else sql.baked policy.rls

/-- `AndInto`. -/
def andInto (condition predicate : Expr) : Expr :=
  if predicate.isAbsent then condition
  else if condition.isAbsent then predicate
  else .call .conjunction [condition, predicate]

/-- `AndPolicyPredicate`. -/
def andPolicyPredicate (sql : PolicySql) (policy : TablePolicy) (condition : Expr) : Except Refusal Expr := do
  return andInto condition (← writePredicate sql policy)

/-- `QualifyWithTarget`: a bare name is bound to the target; a subquery's body keeps its scope. -/
def qualifyWithTarget (aliasName : Text) (expr : Expr) : Except Refusal Expr :=
  expr.mapRefs fun origin names => .ok (.columnRef origin (if names.length = 1 then aliasName :: names else names))

/-- `TargetPredicate`: the predicate where a second relation is in scope; one that was never bound
against its object may hold no subquery there. -/
def targetPredicate (sql : PolicySql) (policy : TablePolicy) (aliasName vname : Text) : Except Refusal Expr := do
  let predicate ← writePredicate sql policy
  if policy.rlsUnchecked && predicate.containsSubquery then
    .error ("acl: the predicate of \"".toList ++ vname ++
      "\" contains a subquery and was never checked against the object".toList)
  else qualifyWithTarget aliasName predicate

/-- The value a SET list gives a column, the first entry that names it. -/
def setValue (column : Text) : List Text → List Expr → Option Expr
  | name :: names, value :: values => if Text.ciEquals name column then some value else setValue column names values
  | _, _ => none

/-- `SubstituteSetValues`: a reference is judged by its last part. -/
def substituteSetValues (columns : List Text) (values : List Expr) (expr : Expr) : Except Refusal Expr :=
  expr.mapRefs fun origin names =>
    .ok (((names.getLast?).bind fun column => setValue column columns values).getD (.columnRef origin names))

/-- The message of a row outside the grant. -/
def outsideGrant (vname : Text) : Text :=
  "acl_rewrite: the row does not satisfy the grant on \"".toList ++ vname ++ "\", so it cannot be written".toList

/-- `GuardedValue`: `CASE WHEN predicate THEN value ELSE error('…') END`. -/
def guardedValue (vname : Text) (value predicate : Expr) : Expr :=
  .call .case [predicate, value, .call (.function ["error".toList]) [.constant (.text (outsideGrant vname))]]

/-- Whether a SET list touches a column the predicate reads, by the last part of its names. -/
def touchesPredicate (predicate : Expr) (columns : List Text) : Bool :=
  predicate.collectColumnNames.any fun name => columns.any (Text.ciEquals · name)

/-- `ApplyUpdateCheck`: the guard rides the first value. -/
def applyUpdateCheck (sql : PolicySql) (policy : TablePolicy) (vname targetAlias : Text) (setInfo : UpdateSetInfo) :
    Except Refusal UpdateSetInfo := do
  let predicate ← writePredicate sql policy
  match setInfo.columns, setInfo.expressions with
  | _ :: _, value :: values =>
    if predicate.isAbsent || !touchesPredicate predicate setInfo.columns then return setInfo
    else
      let predicate ← if targetAlias = [] then .ok predicate else qualifyWithTarget targetAlias predicate
      let predicate ← substituteSetValues setInfo.columns setInfo.expressions predicate
      return { setInfo with expressions := guardedValue vname value predicate :: values }
  | _, _ => return setInfo

/-- `HasWritePolicy`: whether a grant narrows what may be written at all. -/
def TablePolicy.hasWritePolicy (policy : TablePolicy) : Bool :=
  !policy.injections.isEmpty || !policy.writeColumns.isEmpty || policy.rls ≠ [] || !policy.fieldWrites.isEmpty

/-! ## RETURNING -/

/-- The error of a column the grant hides or computes. -/
def notReadable (column vname : Text) : Refusal :=
  "column \"".toList ++ column ++ "\" of ".toList ++ shown vname ++ " is not readable".toList

/-- Whether the grant exposes a column as it is stored. -/
def TablePolicy.exposesAsIs (policy : TablePolicy) (column : Text) : Bool :=
  (policy.injectionOf column).isNone && !policy.fieldWrites.any (fun narrowed => Text.ciEquals narrowed.1 column) &&
    ciContains policy.writeColumns column

mutual

/-- `RequireReadableExpr`: no star, and every reference judged by its last part. -/
def requireReadableExpr (policy : TablePolicy) (vname : Text) : Expr → Except Refusal Unit
  | .star _ _ _ _ _ =>
    .error ("RETURNING * on ".toList ++ shown vname ++ " is not allowed under a column policy".toList)
  | .columnRef _ names =>
    match names.getLast? with
    | none => .ok ()
    | some column => if policy.exposesAsIs column then .ok () else .error (notReadable column vname)
  | .call _ args => requireReadableExprs policy vname args
  | .lambda _ left right => do
    requireReadableExpr policy vname left
    requireReadableExpr policy vname right
  | .subquery operand _ => requireReadableExpr policy vname operand
  | .absent | .constant _ | .positional _ => .ok ()

/-- The same over a list. -/
def requireReadableExprs (policy : TablePolicy) (vname : Text) : List Expr → Except Refusal Unit
  | [] => .ok ()
  | expr :: exprs => do
    requireReadableExpr policy vname expr
    requireReadableExprs policy vname exprs

end

/-- `RequireReadableReturning`; `refused` is why the target's rows may not be returned at all. -/
def requireReadableReturning (policy : TablePolicy) (vname refused : Text) (returning : List Expr) : Except Refusal Unit :=
  if returning ≠ [] ∧ refused ≠ [] then .error ("RETURNING: ".toList ++ refused)
  else if policy.writeColumns.isEmpty then .ok ()
  else requireReadableExprs policy vname returning

end DuckAcl
