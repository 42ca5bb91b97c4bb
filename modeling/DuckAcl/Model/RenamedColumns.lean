import DuckAcl.Model.WritePolicy

/-! # Renames in a write's own expressions

`RewriteUpdateNode`, `RewriteDeleteNode`, `RewriteMergeNode` and `RewriteInsertNode` (`acl_rewriter.cpp`) map the references
in their expressions onto the physical table, each place with the target's alias or without. Whatever else they do there
(gates, reads under the grant, injected values, predicates) leaves these references to `MapColumnRefs`.
-/

namespace DuckAcl

/-- Where an expression stands in a write. -/
inductive WritePlace
  | value
  | condition
  | returning
deriving DecidableEq, Repr

/-- One call of `MapColumnRefs`: the expression, and the alias it is called with. -/
structure MapCall where
  place : WritePlace
  targetAlias : Text
  expr : Expr

/-- `TargetAliasOf`, after `ResolveDmlTarget`: the alias written, else the virtual name. -/
def TargetRef.answersTo (target : TargetRef) : Text :=
  if target.aliasName = [] then target.name.getLast?.getD [] else target.aliasName

/-- Whether there is no second relation. -/
def TableRef.isAbsent : TableRef → Bool
  | .absent => true
  | _ => false

/-- `CollectRefNames`: the names a FROM's relations answer to. -/
def TableRef.refNames : TableRef → List Text
  | .base _ name aliasName _ => [aliasName].filter (· ≠ []) ++ name.getLast?.toList
  | .join left right _ _ _ => left.refNames ++ right.refNames
  | .subquery _ aliasName _ _ | .tableFunction _ _ _ aliasName _ | .pivot _ _ _ _ aliasName _ | .expressionList _ aliasName _ =>
    [aliasName].filter (· ≠ [])
  | .absent | .showRef _ | .showName _ | .emptyFrom | .other => []

/-- The calls on a SET list. -/
def UpdateSetInfo.calls (setInfo : UpdateSetInfo) (values condition : Text) : List MapCall :=
  setInfo.expressions.map (⟨.value, values, ·⟩) ++ [⟨.condition, condition, setInfo.condition⟩]

/-- The calls of `RewriteUpdateNode`. -/
def UpdateQueryNode.calls (node : UpdateQueryNode) : List MapCall :=
  node.setInfo.calls [] (if node.fromTable.isAbsent then [] else node.target.answersTo) ++
    node.returningList.map (⟨.returning, [], ·⟩)

/-- The calls of `RewriteDeleteNode`. -/
def DeleteQueryNode.calls (node : DeleteQueryNode) : List MapCall :=
  ⟨.condition, if node.usingClauses.isEmpty then [] else node.target.answersTo, node.condition⟩ ::
    node.returningList.map (⟨.returning, [], ·⟩)

/-- The calls on one branch of a MERGE. -/
def MergeIntoAction.calls (target : Text) (action : MergeIntoAction) : List MapCall :=
  ⟨.condition, target, action.condition⟩ :: action.updateInfo.calls target target ++
    action.expressions.map (⟨.value, target, ·⟩)

/-- The calls of `RewriteMergeNode`. -/
def MergeQueryNode.calls (node : MergeQueryNode) : List MapCall :=
  ⟨.condition, node.target.answersTo, node.joinCondition⟩ :: node.actions.flatMap (MergeIntoAction.calls node.target.answersTo) ++
    node.returningList.map (⟨.returning, node.target.answersTo, ·⟩)

/-- The calls of `RewriteInsertNode`, those of `ApplyConflictPolicy` first. -/
def InsertQueryNode.calls (node : InsertQueryNode) : List MapCall :=
  ⟨.condition, [], node.onConflictInfo.condition⟩ :: node.onConflictInfo.setInfo.calls [] [] ++
    node.returningList.map (⟨.returning, [], ·⟩)

namespace QueryBody

/-- The calls of a write. -/
def calls : QueryBody → List MapCall
  | .insert node => node.calls
  | .update node => node.calls
  | .delete node => node.calls
  | .merge node => node.calls
  | _ => []

/-- The name the target of a write answers to. -/
def target : QueryBody → Text
  | .insert node => node.target.name.getLast?.getD []
  | .update node => node.target.answersTo
  | .delete node => node.target.answersTo
  | .merge node => node.target.answersTo
  | _ => []

/-- The names of the other relations that a write joins. The `excluded` row of an INSERT is one of its target. -/
def others : QueryBody → List Text
  | .update node => node.fromTable.refNames
  | .delete node => node.usingClauses.flatMap TableRef.refNames
  | .merge node => node.source.refNames
  | _ => []

/-- Every call of `MapColumnRefs` that a write makes, in order. -/
def mapColumns (policy : TablePolicy) (vname : Text) (body : QueryBody) : Except Refusal (List MapCall) :=
  body.calls.mapM fun call => do return { call with expr := ← mapColumnRefs policy vname call.targetAlias call.expr }

end QueryBody

end DuckAcl
