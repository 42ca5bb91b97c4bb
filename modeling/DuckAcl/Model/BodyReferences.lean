import DuckAcl.Model.Syntax

/-! # The names a stored body reads

The source gate judges a definition by the tables its body names (`ScopedReferences`,
`acl_platform_rights.cpp`). The walk reports every table or view name as it is written, except a name of
one part that is a CTE of the scope it is written in. A node that is neither a SELECT, a set operation nor
a recursive CTE is left to DuckDB's own iterator, which is not part of this repository: what it hands over
is a parameter.
-/

namespace DuckAcl

/-- What `EnumerateQueryNodeChildren` hands over of a node, at any depth. -/
structure NodeIterator where
  exprs : QueryNode → List Expr
  refs : QueryNode → List TableRef
  smaller : ∀ {node expr}, expr ∈ exprs node → sizeOf expr < sizeOf node

/-- The names of the CTEs in scope. -/
abbrev CteScope := List Text

/-- Whether a name is the CTE of its scope: it has one part. -/
def CteScope.binds (scope : CteScope) : List Text → Bool
  | [name] => scope.any (Text.ciEquals name)
  | _ => false

/-- `ScopedReferences::Name`. -/
def CteScope.report (scope : CteScope) (name : List Text) : List (List Text) :=
  if scope.binds name then [] else [name]

/-- The names of a WITH. -/
def cteNames (ctes : List Cte) : CteScope := ctes.map Cte.name

/-- `ScopedReferences::Base` under no scope: a handed over reference that is no table names nothing. -/
def TableRef.writtenName : TableRef → Option (List Text)
  | .base _ name _ _ => some name
  | _ => none

/-- The nodes `ScopedReferences::Node` walks by itself. -/
def QueryBody.isWalked : QueryBody → Bool
  | .absent | .select _ | .setOperation _ | .recursiveCte _ _ _ => true
  | .cte _ _ _ | .insert _ | .update _ | .delete _ | .merge _ | .other => false

section

variable (iterator : NodeIterator)

mutual

/-- `ScopedReferences::Expr`. -/
def Expr.references (scope : CteScope) : Expr → List (List Text)
  | .subquery operand query => query.references scope ++ operand.references scope
  | .star _ _ _ replace pattern => Expr.referencesList scope replace ++ pattern.references scope
  | .call _ args => Expr.referencesList scope args
  | .lambda _ left right => left.references scope ++ right.references scope
  | .absent | .columnRef _ _ | .constant _ | .positional _ => []
termination_by expr => sizeOf expr

/-- The same over a list. -/
def Expr.referencesList (scope : CteScope) : List Expr → List (List Text)
  | [] => []
  | expr :: exprs => expr.references scope ++ Expr.referencesList scope exprs
termination_by exprs => sizeOf exprs

/-- `ScopedReferences::Ref`. -/
def TableRef.references (scope : CteScope) : TableRef → List (List Text)
  | .base _ name _ _ => scope.report name
  | .join left right condition ranking _ =>
    left.references scope ++ right.references scope ++ condition.references scope ++ ranking.references scope
  | .subquery query _ _ _ => query.references scope
  | .tableFunction _ args _ _ _ => Expr.referencesList scope args
  | .pivot source aggregates _ queries _ _ =>
    source.references scope ++ Expr.referencesList scope aggregates ++ QueryNode.referencesList scope queries
  | .expressionList values _ _ => Expr.referencesList scope values
  | .showRef query => query.references scope
  | .showName name => if name = [] then [] else scope.report name
  | .absent | .emptyFrom | .other => []
termination_by ref => sizeOf ref

/-- The definitions of a WITH: each sees the CTEs before it. -/
def Cte.referencesList (scope : CteScope) : List Cte → List (List Text)
  | [] => []
  | ⟨name, query⟩ :: ctes => query.references scope ++ Cte.referencesList (name :: scope) ctes
termination_by ctes => sizeOf ctes

/-- The queries of a list, each in the same scope. -/
def QueryNode.referencesList (scope : CteScope) : List QueryNode → List (List Text)
  | [] => []
  | query :: queries => query.references scope ++ QueryNode.referencesList scope queries
termination_by queries => sizeOf queries

/-- The clauses of a SELECT. -/
def SelectNode.references (scope : CteScope) : SelectNode → List (List Text)
  | ⟨selectList, fromTable, whereClause, clauses, _⟩ =>
    fromTable.references scope ++ Expr.referencesList scope selectList ++ Expr.referencesList scope clauses ++
      whereClause.references scope
termination_by node => sizeOf node

/-- What a node is, after its WITH. -/
def QueryBody.references (scope : CteScope) : QueryBody → List (List Text)
  | .select node => node.references scope
  | .setOperation children => QueryNode.referencesList scope children
  | .recursiveCte name left right => left.references scope ++ right.references (name :: scope)
  | .absent | .cte _ _ _ | .insert _ | .update _ | .delete _ | .merge _ | .other => []
termination_by body => sizeOf body

/-- `ScopedReferences::Node`. -/
def QueryNode.references (scope : CteScope) : QueryNode → List (List Text)
  | ⟨cteMap, modifiers, body⟩ =>
    let inner := (cteNames cteMap).reverse ++ scope
    Cte.referencesList scope cteMap ++
      if body.isWalked then body.references inner ++ Expr.referencesList inner modifiers
      else
        -- a stored body is a SELECT or an expression; anything else is judged by every name it writes
        (iterator.exprs ⟨cteMap, modifiers, body⟩).attach.flatMap (fun handed => handed.1.references inner) ++
          (iterator.refs ⟨cteMap, modifiers, body⟩).filterMap TableRef.writtenName
termination_by node => sizeOf node
decreasing_by
  all_goals first
    | decreasing_tactic
    | exact iterator.smaller handed.2

end

end

/-- A statement of a stored body. -/
inductive BodyStatement where
  | select (node : QueryNode)
  | other (statementType : Text)

/-- A stored body as it is parsed: the expressions of a predicate or a mask, or statements. -/
inductive StoredBody where
  | expressions (exprs : List Expr)
  | statements (statements : List BodyStatement)

/-- The references of statements; one that is no SELECT is refused. -/
def BodyStatement.referencesList (iterator : NodeIterator) : List BodyStatement → Except Refusal (List (List Text))
  | [] => .ok []
  | .select node :: rest => do return node.references iterator [] ++ (← BodyStatement.referencesList iterator rest)
  | .other statementType :: _ => .error ("acl admin: a stored body is a SELECT, not a ".toList ++ statementType)

/-- `BodyReferences`, after the parser. -/
def bodyReferences (iterator : NodeIterator) : StoredBody → Except Refusal (List (List Text))
  | .expressions exprs => .ok (Expr.referencesList iterator [] exprs)
  | .statements statements => BodyStatement.referencesList iterator statements

end DuckAcl
