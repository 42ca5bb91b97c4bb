import DuckAcl.Library.Scope

/-! # Statements as the parser hands them over

The rewriter works on DuckDB's parsed tree: expressions, table references and query nodes, which
hold one another at any depth. A null pointer of the source is the constructor `absent`. An
expression keeps its class only where the rewriter looks at it; every other class is an operator
over its children.

Two things stand in the tree that the rewriter neither reads nor changes. An `Origin` says whose
text a name is. A `Frame` says which relations the engine's binder has in scope at a place of the
final statement, so that what a name binds to can be stated; the catalog decides it, and a theorem
takes it as it comes.
-/

namespace DuckAcl

/-- What a denied statement answers. -/
abbrev Refusal := Text

/-- Whose text a name comes from: the principal's statement, or the policy's SQL. -/
inductive Origin where
  | written
  | policy
deriving DecidableEq, Repr

/-- A literal of the parser. -/
inductive Literal where
  | null
  | integer (value : Int)
  | text (value : Text)
  | other (sql : Text)
deriving DecidableEq, Repr

/-- The classes of expressions that are their children and a name. -/
inductive Operator where
  | conjunction
  | case
  | function (name : List Text)
  | window (name : List Text)
  | other (name : Text)
deriving DecidableEq, Repr

/-- A DML target: the table's name, and the alias it was written with. -/
structure TargetRef where
  name : List Text
  aliasName : Text := []
deriving DecidableEq, Repr

/-- `OnConflictAction`; `throw` is an insert without the clause. -/
inductive OnConflictAction where
  | throw
  | nothing
  | update
  | replace
deriving DecidableEq, Repr

/-- `MergeActionType`. -/
inductive MergeActionType where
  | update
  | delete
  | insert
  | doNothing
  | error
deriving DecidableEq, Repr

/-- `MergeActionCondition`. -/
inductive MergeActionCondition where
  | whenMatched
  | whenNotMatchedByTarget
  | whenNotMatchedBySource
deriving DecidableEq, Repr

mutual

/-- `ParsedExpression`. -/
inductive Expr where
  | absent
  | columnRef (origin : Origin) (names : List Text)
  | constant (literal : Literal)
  | positional (index : Nat)
  /-- a star, `relation.*`, or `COLUMNS(pattern)`, with its EXCLUDE and REPLACE lists -/
  | star (relation : Text) (exclude replaced : List Text) (replace : List Expr) (pattern : Expr)
  | call (operator : Operator) (args : List Expr)
  /-- `left -> right`; whether the function it stands in takes it as a lambda, and with which
  parameters, is the binder's -/
  | lambda (params : Option (List Text)) (left right : Expr)
  /-- a scalar, EXISTS or IN subquery; the operand is that of an IN -/
  | subquery (operand : Expr) (query : QueryNode)

/-- `TableRef`. The frame of a reference is what an expression inside it sees of its FROM. -/
inductive TableRef where
  | absent
  | base (origin : Origin) (name : List Text) (aliasName : Text) (time : Expr)
  | subquery (query : QueryNode) (aliasName : Text) (columns : List Text) (lateral : Frame)
  | join (left right : TableRef) (condition ranking : Expr) (scope : Frame)
  | tableFunction (name : List Text) (args : List Expr) (query : QueryNode) (aliasName : Text) (lateral : Frame)
  | showRef (query : QueryNode)
  /-- a `ShowRef` that names what it describes -/
  | showName (name : List Text)
  /-- the aggregates, then the ON and IN expressions, then the IN subqueries -/
  | pivot (source : TableRef) (aggregates pivots : List Expr) (queries : List QueryNode) (aliasName : Text)
      (scope : Frame)
  | expressionList (values : List Expr) (aliasName : Text) (lateral : Frame)
  | emptyFrom
  | other

/-- One entry of a `CommonTableExpressionMap`. -/
structure Cte where
  name : Text
  query : QueryNode

/-- `UpdateSetInfo`; a null one sets nothing. -/
structure UpdateSetInfo where
  columns : List Text
  expressions : List Expr
  condition : Expr

/-- `OnConflictInfo`. -/
structure OnConflictInfo where
  action : OnConflictAction
  condition : Expr
  setInfo : UpdateSetInfo

/-- `MergeIntoAction`, with the condition of its branch. -/
structure MergeIntoAction where
  branch : MergeActionCondition
  action : MergeActionType
  condition : Expr
  updateInfo : UpdateSetInfo
  insertColumns : List Text
  expressions : List Expr
  byName : Bool
  defaultValues : Bool

/-- `SelectNode`: the clauses after the WHERE are HAVING, QUALIFY and the groups. -/
structure SelectNode where
  selectList : List Expr
  fromTable : TableRef
  whereClause : Expr
  clauses : List Expr
  scope : Frame

/-- `InsertQueryNode`. -/
structure InsertQueryNode where
  target : TargetRef
  columns : List Text
  defaultValues : Bool
  byName : Bool
  selectStatement : QueryNode
  onConflictInfo : OnConflictInfo
  returningList : List Expr

/-- `UpdateQueryNode`. -/
structure UpdateQueryNode where
  target : TargetRef
  fromTable : TableRef
  setInfo : UpdateSetInfo
  returningList : List Expr

/-- `DeleteQueryNode`. -/
structure DeleteQueryNode where
  target : TargetRef
  usingClauses : List TableRef
  condition : Expr
  returningList : List Expr

/-- `MergeQueryNode`. -/
structure MergeQueryNode where
  target : TargetRef
  source : TableRef
  joinCondition : Expr
  actions : List MergeIntoAction
  returningList : List Expr

/-- What kind of node a `QueryNode` is. -/
inductive QueryBody where
  | absent
  | select (node : SelectNode)
  | setOperation (children : List QueryNode)
  | cte (name : Text) (query child : QueryNode)
  | recursiveCte (name : Text) (left right : QueryNode)
  | insert (node : InsertQueryNode)
  | update (node : UpdateQueryNode)
  | delete (node : DeleteQueryNode)
  | merge (node : MergeQueryNode)
  | other

/-- `QueryNode`: its WITH, its modifiers (ORDER BY, LIMIT, DISTINCT ON) and its body. -/
structure QueryNode where
  cteMap : List Cte
  modifiers : List Expr
  body : QueryBody

end

/-- A query without a WITH and without modifiers. -/
def QueryBody.query (body : QueryBody) : QueryNode := ⟨[], [], body⟩

/-- A set list that sets nothing. -/
def UpdateSetInfo.none : UpdateSetInfo := ⟨[], [], .absent⟩

/-- `QueryNode` of a null pointer. -/
def QueryNode.absent : QueryNode := QueryBody.absent.query

/-! ## The children of an expression

`ParsedExpressionIterator::EnumerateChildren` visits the operand of a subquery, never its body.
-/

mutual

/-- Replace every column reference that `change` reaches through `EnumerateChildren`. -/
def Expr.mapRefs {ε : Type} (change : Origin → List Text → Except ε Expr) : Expr → Except ε Expr
  | .absent => .ok .absent
  | .columnRef origin names => change origin names
  | .constant literal => .ok (.constant literal)
  | .positional index => .ok (.positional index)
  | .star relation exclude replaced replace pattern => do
    return .star relation exclude replaced (← mapRefsList change replace) (← pattern.mapRefs change)
  | .call operator args => do return .call operator (← mapRefsList change args)
  | .lambda params left right => do return .lambda params (← left.mapRefs change) (← right.mapRefs change)
  | .subquery operand query => do return .subquery (← operand.mapRefs change) query

/-- The same over a list. -/
def Expr.mapRefsList {ε : Type} (change : Origin → List Text → Except ε Expr) : List Expr → Except ε (List Expr)
  | [] => .ok []
  | expr :: exprs => do return (← expr.mapRefs change) :: (← mapRefsList change exprs)

end

mutual

/-- The column references `EnumerateChildren` reaches. -/
def Expr.columnRefs : Expr → List (List Text)
  | .columnRef _ names => [names]
  | .star _ _ _ replace pattern => columnRefsList replace ++ pattern.columnRefs
  | .call _ args => columnRefsList args
  | .lambda _ left right => left.columnRefs ++ right.columnRefs
  | .subquery operand _ => operand.columnRefs
  | .absent | .constant _ | .positional _ => []

/-- The same over a list. -/
def Expr.columnRefsList : List Expr → List (List Text)
  | [] => []
  | expr :: exprs => expr.columnRefs ++ columnRefsList exprs

end

/-- `CollectColumnNames`: every column name an expression reads, whatever it is qualified by. -/
def Expr.collectColumnNames (expr : Expr) : List Text := expr.columnRefs.filterMap List.getLast?

/-- Whether a null pointer stands there. -/
def Expr.isAbsent : Expr → Bool
  | .absent => true
  | _ => false

/-- `ContainsSubquery`. -/
def Expr.containsSubquery : Expr → Bool
  | .star _ _ _ replace pattern => anySubquery replace || pattern.containsSubquery
  | .call _ args => anySubquery args
  | .lambda _ left right => left.containsSubquery || right.containsSubquery
  | .subquery _ _ => true
  | .absent | .columnRef _ _ | .constant _ | .positional _ => false
where
  /-- The same over a list. -/
  anySubquery : List Expr → Bool
    | [] => false
    | expr :: exprs => expr.containsSubquery || anySubquery exprs

end DuckAcl
