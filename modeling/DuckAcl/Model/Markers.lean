import DuckAcl.Model.Binding

/-! # Markers of a template

A policy's SQL is stored with markers: `acl_claim('name')` stands for a claim of the principal, and in
a function's template `acl_arg(n)` for the n-th argument of a call. `BakeMarkers` replaces them in
every expression of the template, below its subqueries too; an argument goes in as the tree it is.
-/

namespace DuckAcl

/-- What baking a template knows of the principal, and what it asks the engine of a literal. -/
structure Templates where
  claims : Text → Option Text
  /-- a stored body keeps its claims for whoever reads it -/
  keepClaimMarkers : Bool
  literalText : Literal → Text
  literalInt : Literal → Except Refusal Int

/-- `ClaimValue`: an absent claim is NULL. -/
def Templates.claimValue (templates : Templates) : List Expr → Except Refusal Expr
  | [.constant literal] =>
    match templates.claims (templates.literalText literal) with
    | some value => .ok (.constant (.text value))
    | none => .ok (.constant .null)
  | _ => .error "acl_claim() expects a single constant claim name".toList

/-- The n-th argument of a call, counted from one. -/
def argumentAt (args : List Expr) (position : Int) : Except Refusal Expr :=
  if position < 1 then .error ("acl_arg(".toList ++ (toString position).toList ++ ") has no matching call argument".toList)
  else
    match args[(position - 1).toNat]? with
    | some .absent | none =>
      .error ("acl_arg(".toList ++ (toString position).toList ++ ") has no matching call argument".toList)
    | some arg => .ok arg

/-- `ArgExpression`. -/
def Templates.argExpression (templates : Templates) (args : Option (List Expr)) (callArgs : List Expr) :
    Except Refusal Expr :=
  match args with
  | none => .error "acl_arg() is only valid inside a table-function template".toList
  | some args =>
    match callArgs with
    | [.constant literal] => (templates.literalInt literal).bind (argumentAt args)
    | _ => .error "acl_arg() expects a single constant position".toList

/-- The marker a call is, by its name. -/
inductive Marker where
  | claim
  | argument
deriving DecidableEq, Repr

/-- Which marker a function's name is. -/
def markerOf : Operator → Option Marker
  | .function name =>
    if Text.fold (name.getLastD []) = "acl_claim".toList then some .claim
    else if Text.fold (name.getLastD []) = "acl_arg".toList then some .argument
    else none
  | _ => none

section

variable (templates : Templates) (args : Option (List Expr))

/-- The iterator's answer to a node it has no case for. -/
def notTraversed : Refusal := "query node type is not traversed".toList

mutual

/-- `BakeMarkers`. -/
def Expr.bakeMarkers : Expr → Except Refusal Expr
  | .subquery operand query => do
    let query ← query.bakeMarkersInNode
    return .subquery (← operand.bakeMarkers) query
  | .call operator callArgs =>
    match markerOf operator with
    | some .claim =>
      if templates.keepClaimMarkers then .ok (.call operator callArgs) else templates.claimValue callArgs
    | some .argument => templates.argExpression args callArgs
    | none => do return .call operator (← Expr.bakeMarkersList callArgs)
  | .star relation exclude replaced replace pattern => do
    return .star relation exclude replaced (← Expr.bakeMarkersList replace) (← pattern.bakeMarkers)
  | .lambda params left right => do return .lambda params (← left.bakeMarkers) (← right.bakeMarkers)
  | .absent => .ok .absent
  | .columnRef origin names => .ok (.columnRef origin names)
  | .constant literal => .ok (.constant literal)
  | .positional index => .ok (.positional index)

/-- The same over a list. -/
def Expr.bakeMarkersList : List Expr → Except Refusal (List Expr)
  | [] => .ok []
  | expr :: exprs => do return (← expr.bakeMarkers) :: (← Expr.bakeMarkersList exprs)

/-- `EnumerateTableRefChildren`: the expressions of a FROM, with those of its derived tables. -/
def TableRef.bakeMarkers : TableRef → Except Refusal TableRef
  | .subquery query aliasName columns lateral => do
    return .subquery (← query.bakeMarkersInNode) aliasName columns lateral
  | .join left right condition ranking scope => do
    return .join (← left.bakeMarkers) (← right.bakeMarkers) (← condition.bakeMarkers) ranking scope
  | .tableFunction name args query aliasName lateral => do
    return .tableFunction name (← Expr.bakeMarkersList args) query aliasName lateral
  | .showRef query => .ok (.showRef query)
  | .showName name => .ok (.showName name)
  | .pivot source aggregates pivots queries aliasName scope => do
    return .pivot (← source.bakeMarkers) (← Expr.bakeMarkersList aggregates) pivots queries aliasName scope
  | .expressionList values aliasName lateral => do
    return .expressionList (← Expr.bakeMarkersList values) aliasName lateral
  | .absent => .ok .absent
  | .base origin name aliasName time => .ok (.base origin name aliasName time)
  | .emptyFrom => .ok .emptyFrom
  | .other => .ok .other

/-- The bodies of a WITH. -/
def Cte.bakeMarkersList : List Cte → Except Refusal (List Cte)
  | [] => .ok []
  | ⟨name, query⟩ :: ctes => do return ⟨name, ← query.bakeMarkersInNode⟩ :: (← Cte.bakeMarkersList ctes)

/-- The branches of a set operation. -/
def QueryNode.bakeMarkersList : List QueryNode → Except Refusal (List QueryNode)
  | [] => .ok []
  | query :: queries => do return (← query.bakeMarkersInNode) :: (← QueryNode.bakeMarkersList queries)

/-- The expressions of a SELECT. -/
def SelectNode.bakeMarkers : SelectNode → Except Refusal SelectNode
  | ⟨selectList, fromTable, whereClause, clauses, scope⟩ => do
    return ⟨← Expr.bakeMarkersList selectList, ← fromTable.bakeMarkers, ← whereClause.bakeMarkers,
      ← Expr.bakeMarkersList clauses, scope⟩

/-- `EnumerateQueryNodeChildren`; a statement that writes is no template. -/
def QueryBody.bakeMarkers : QueryBody → Except Refusal QueryBody
  | .select node => do return .select (← node.bakeMarkers)
  | .setOperation children => do return .setOperation (← QueryNode.bakeMarkersList children)
  | .cte name query child => do return .cte name (← query.bakeMarkersInNode) (← child.bakeMarkersInNode)
  | .recursiveCte name left right => do
    return .recursiveCte name (← left.bakeMarkersInNode) (← right.bakeMarkersInNode)
  | .absent => .ok .absent
  | .insert _ | .update _ | .delete _ | .merge _ | .other => .error notTraversed

/-- `BakeMarkersInNode`: every expression of a node, with those of its WITH and its FROM. -/
def QueryNode.bakeMarkersInNode : QueryNode → Except Refusal QueryNode
  | ⟨cteMap, modifiers, body⟩ => do
    return ⟨← Cte.bakeMarkersList cteMap, ← Expr.bakeMarkersList modifiers, ← body.bakeMarkers⟩

end

end

/-- A virtual function's template: a query for a table function, an expression for a scalar one. -/
inductive FunctionTemplate where
  | table (query : QueryNode)
  | scalar (expr : Expr)

/-- `BuildFunctionSubquery` and `BuildScalarExpr`: the template with the call's arguments in it; what
the markers of claims become is the same for every call. -/
def FunctionTemplate.expand (templates : Templates) (args : List Expr) :
    FunctionTemplate → Except Refusal FunctionTemplate
  | .table query => do return .table (← query.bakeMarkersInNode templates (some args))
  | .scalar expr => do return .scalar (← expr.bakeMarkers templates (some args))

/-! ## Where the arguments go -/

/-- A place of a template that an argument is put at: the template's frames around it. -/
structure ArgumentPlace where
  frames : List Frame
  argument : Expr

/-- The argument that an expression is replaced by. -/
def Expr.argumentPlace (templates : Templates) (args : List Expr) (frames : List Frame) : Expr → List ArgumentPlace
  | .call operator callArgs =>
    match markerOf operator with
    | some .argument =>
      match templates.argExpression (some args) callArgs with
      | .ok argument => [⟨frames, argument⟩]
      | .error _ => []
    | some .claim | none => []
  | _ => []

/-- A marker is replaced whole. -/
def Expr.isNoMarker : Expr → Bool
  | .call operator _ => (markerOf operator).isNone
  | _ => true

/-- The places of a template that arguments are put at. -/
def FunctionTemplate.argumentPlaces (templates : Templates) (args : List Expr) : FunctionTemplate → List ArgumentPlace
  | .table query => query.collect false (Expr.argumentPlace templates args) Expr.isNoMarker []
  | .scalar expr => expr.collect false (Expr.argumentPlace templates args) Expr.isNoMarker []

/-- The references of a template or of what it expands to. -/
def FunctionTemplate.occurrences : FunctionTemplate → List Occurrence
  | .table query => query.occurrences []
  | .scalar expr => expr.occurrences []

end DuckAcl
