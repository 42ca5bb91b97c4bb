import DuckAcl.Model.Syntax

/-! # What an expression reads

A walk over an expression and every query inside it collects what stands at each place, together
with the frames that the tree itself has opened there, the innermost first. The references of an
expression are what such a walk finds; a reference binds in the frames of its place and then in
those around the expression.
-/

namespace DuckAcl

/-- The frame a query's modifiers are bound in. -/
def QueryBody.scope : QueryBody → Frame
  | .select node => node.scope
  | _ => []

/-- The frame of a lambda's parameters. -/
def lambdaFrame (params : List Text) : Frame := [⟨[], params⟩]

section

variable {α : Type} (all : Bool) (visit : List Frame → Expr → List α) (enter : Expr → Bool)

mutual

/-- What `visit` finds in an expression, below the nodes `enter` lets through. With `all`, also where
DuckDB's expression iterator does not go: a NEAREST join's ranking, a table function's query, what a
PIVOT turns on, what a SHOW describes. -/
def Expr.collect (frames : List Frame) : Expr → List α
  | .star relation exclude replaced replace pattern =>
    visit frames (.star relation exclude replaced replace pattern) ++
      if enter (.star relation exclude replaced replace pattern) then
        Expr.collectList frames replace ++ pattern.collect frames else []
  | .call operator args =>
    visit frames (.call operator args) ++ if enter (.call operator args) then Expr.collectList frames args else []
  | .lambda (some params) left right =>
    visit frames (.lambda (some params) left right) ++
      if enter (.lambda (some params) left right) then right.collect (lambdaFrame params :: frames) else []
  | .lambda none left right =>
    visit frames (.lambda none left right) ++
      if enter (.lambda none left right) then left.collect frames ++ right.collect frames else []
  | .subquery operand query =>
    visit frames (.subquery operand query) ++
      if enter (.subquery operand query) then operand.collect frames ++ query.collect frames else []
  | .absent => visit frames .absent
  | .columnRef origin names => visit frames (.columnRef origin names)
  | .constant literal => visit frames (.constant literal)
  | .positional index => visit frames (.positional index)

/-- The same over a list. -/
def Expr.collectList (frames : List Frame) : List Expr → List α
  | [] => []
  | expr :: exprs => expr.collect frames ++ Expr.collectList frames exprs

/-- The expressions inside a FROM; an AT clause sees no columns. -/
def TableRef.collect (frames : List Frame) : TableRef → List α
  | .subquery query _ _ lateral => query.collect (lateral :: frames)
  | .join left right condition ranking scope =>
    left.collect frames ++ right.collect frames ++ condition.collect (scope :: frames) ++
      if all then ranking.collect (scope :: frames) else []
  | .tableFunction _ args query _ lateral =>
    Expr.collectList (lateral :: frames) args ++ if all then query.collect (lateral :: frames) else []
  | .showRef query => if all then query.collect frames else []
  | .pivot source aggregates pivots queries _ scope =>
    source.collect frames ++ Expr.collectList (scope :: frames) aggregates ++
      if all then Expr.collectList (scope :: frames) pivots ++ QueryNode.collectList frames queries else []
  | .expressionList values _ lateral => Expr.collectList (lateral :: frames) values
  | .absent | .base _ _ _ _ | .showName _ | .emptyFrom | .other => []

/-- The expressions of a WITH's bodies. -/
def Cte.collectList (frames : List Frame) : List Cte → List α
  | [] => []
  | ⟨_, query⟩ :: ctes => query.collect frames ++ Cte.collectList frames ctes

/-- The queries of a list. -/
def QueryNode.collectList (frames : List Frame) : List QueryNode → List α
  | [] => []
  | query :: queries => query.collect frames ++ QueryNode.collectList frames queries

/-- The expressions of a SELECT. -/
def SelectNode.collect (frames : List Frame) : SelectNode → List α
  | ⟨selectList, fromTable, whereClause, clauses, scope⟩ =>
    Expr.collectList (scope :: frames) selectList ++ fromTable.collect frames ++
      whereClause.collect (scope :: frames) ++ Expr.collectList (scope :: frames) clauses

/-- The expressions of a query's body; a statement that writes does not stand below an expression. -/
def QueryBody.collect (frames : List Frame) : QueryBody → List α
  | .select node => node.collect frames
  | .setOperation children => QueryNode.collectList frames children
  | .cte _ query child => query.collect frames ++ child.collect frames
  | .recursiveCte _ left right => left.collect frames ++ right.collect frames
  | .absent | .insert _ | .update _ | .delete _ | .merge _ | .other => []

/-- The expressions of a query. -/
def QueryNode.collect (frames : List Frame) : QueryNode → List α
  | ⟨cteMap, modifiers, body⟩ =>
    Cte.collectList frames cteMap ++ Expr.collectList (body.scope :: frames) modifiers ++ body.collect frames

end

section

variable {all : Bool} {visit : List Frame → Expr → List α} {enter : Expr → Bool} {outer : List Frame} {shift : α → α}

mutual

/-- A walk under further frames finds the same, seen from further in. -/
theorem Expr.collect_append (moves : ∀ frames expr, visit (frames ++ outer) expr = (visit frames expr).map shift) :
    ∀ (frames : List Frame) (expr : Expr),
      expr.collect all visit enter (frames ++ outer) = (expr.collect all visit enter frames).map shift
  | frames, .star relation exclude replaced replace pattern => by
    simp only [Expr.collect, moves, List.map_append]
    split_ifs
    · rw [Expr.collectList_append moves frames replace, Expr.collect_append moves frames pattern, List.map_append]
    · rfl
  | frames, .call operator args => by
    simp only [Expr.collect, moves, List.map_append]
    split_ifs
    · rw [Expr.collectList_append moves frames args]
    · rfl
  | frames, .lambda (some params) left right => by
    simp only [Expr.collect, moves, List.map_append]
    split_ifs
    · rw [← List.cons_append, Expr.collect_append moves (lambdaFrame params :: frames) right]
    · rfl
  | frames, .lambda none left right => by
    simp only [Expr.collect, moves, List.map_append]
    split_ifs
    · rw [Expr.collect_append moves frames left, Expr.collect_append moves frames right, List.map_append]
    · rfl
  | frames, .subquery operand query => by
    simp only [Expr.collect, moves, List.map_append]
    split_ifs
    · rw [Expr.collect_append moves frames operand, QueryNode.collect_append moves frames query, List.map_append]
    · rfl
  | frames, .absent | frames, .columnRef _ _ | frames, .constant _ | frames, .positional _ => by
    simp only [Expr.collect, moves]

private theorem Expr.collectList_append (moves : ∀ frames expr, visit (frames ++ outer) expr = (visit frames expr).map shift) :
    ∀ (frames : List Frame) (exprs : List Expr),
      Expr.collectList all visit enter (frames ++ outer) exprs = (Expr.collectList all visit enter frames exprs).map shift
  | _, [] => rfl
  | frames, expr :: exprs => by
    simp only [Expr.collectList, List.map_append]
    rw [Expr.collect_append moves frames expr, Expr.collectList_append moves frames exprs]

private theorem TableRef.collect_append (moves : ∀ frames expr, visit (frames ++ outer) expr = (visit frames expr).map shift) :
    ∀ (frames : List Frame) (ref : TableRef),
      ref.collect all visit enter (frames ++ outer) = (ref.collect all visit enter frames).map shift
  | frames, .subquery query _ _ lateral => by
    simp only [TableRef.collect]
    rw [← List.cons_append, QueryNode.collect_append moves (lateral :: frames) query]
  | frames, .join left right condition ranking scope => by
    simp only [TableRef.collect, List.map_append]
    rw [TableRef.collect_append moves frames left, TableRef.collect_append moves frames right, ← List.cons_append,
      Expr.collect_append moves (scope :: frames) condition, Expr.collect_append moves (scope :: frames) ranking]
    split_ifs <;> rfl
  | frames, .tableFunction _ args query _ lateral => by
    simp only [TableRef.collect, List.map_append]
    rw [← List.cons_append, Expr.collectList_append moves (lateral :: frames) args,
      QueryNode.collect_append moves (lateral :: frames) query]
    split_ifs <;> rfl
  | frames, .showRef query => by
    simp only [TableRef.collect]
    rw [QueryNode.collect_append moves frames query]
    split_ifs <;> rfl
  | frames, .pivot source aggregates pivots queries _ scope => by
    simp only [TableRef.collect, List.map_append]
    rw [TableRef.collect_append moves frames source, ← List.cons_append,
      Expr.collectList_append moves (scope :: frames) aggregates, Expr.collectList_append moves (scope :: frames) pivots,
      QueryNode.collectList_append moves frames queries]
    split_ifs
    · rw [List.map_append]
    · rfl
  | frames, .expressionList values _ lateral => by
    simp only [TableRef.collect]
    rw [← List.cons_append, Expr.collectList_append moves (lateral :: frames) values]
  | _, .absent | _, .base _ _ _ _ | _, .showName _ | _, .emptyFrom | _, .other => by
    simp only [TableRef.collect, List.map_nil]

private theorem Cte.collectList_append (moves : ∀ frames expr, visit (frames ++ outer) expr = (visit frames expr).map shift) :
    ∀ (frames : List Frame) (ctes : List Cte),
      Cte.collectList all visit enter (frames ++ outer) ctes = (Cte.collectList all visit enter frames ctes).map shift
  | _, [] => rfl
  | frames, ⟨_, query⟩ :: ctes => by
    simp only [Cte.collectList, List.map_append]
    rw [QueryNode.collect_append moves frames query, Cte.collectList_append moves frames ctes]

private theorem QueryNode.collectList_append (moves : ∀ frames expr, visit (frames ++ outer) expr = (visit frames expr).map shift) :
    ∀ (frames : List Frame) (queries : List QueryNode),
      QueryNode.collectList all visit enter (frames ++ outer) queries =
        (QueryNode.collectList all visit enter frames queries).map shift
  | _, [] => rfl
  | frames, query :: queries => by
    simp only [QueryNode.collectList, List.map_append]
    rw [QueryNode.collect_append moves frames query, QueryNode.collectList_append moves frames queries]

private theorem SelectNode.collect_append (moves : ∀ frames expr, visit (frames ++ outer) expr = (visit frames expr).map shift) :
    ∀ (frames : List Frame) (node : SelectNode),
      node.collect all visit enter (frames ++ outer) = (node.collect all visit enter frames).map shift
  | frames, ⟨selectList, fromTable, whereClause, clauses, scope⟩ => by
    simp only [SelectNode.collect, List.map_append]
    rw [TableRef.collect_append moves frames fromTable, ← List.cons_append,
      Expr.collectList_append moves (scope :: frames) selectList, Expr.collect_append moves (scope :: frames) whereClause,
      Expr.collectList_append moves (scope :: frames) clauses]

private theorem QueryBody.collect_append (moves : ∀ frames expr, visit (frames ++ outer) expr = (visit frames expr).map shift) :
    ∀ (frames : List Frame) (body : QueryBody),
      body.collect all visit enter (frames ++ outer) = (body.collect all visit enter frames).map shift
  | frames, .select node => by
    simp only [QueryBody.collect]
    exact SelectNode.collect_append moves frames node
  | frames, .setOperation children => by
    simp only [QueryBody.collect]
    exact QueryNode.collectList_append moves frames children
  | frames, .cte _ query child => by
    simp only [QueryBody.collect, List.map_append]
    rw [QueryNode.collect_append moves frames query, QueryNode.collect_append moves frames child]
  | frames, .recursiveCte _ left right => by
    simp only [QueryBody.collect, List.map_append]
    rw [QueryNode.collect_append moves frames left, QueryNode.collect_append moves frames right]
  | _, .absent | _, .insert _ | _, .update _ | _, .delete _ | _, .merge _ | _, .other => by
    simp only [QueryBody.collect, List.map_nil]

private theorem QueryNode.collect_append (moves : ∀ frames expr, visit (frames ++ outer) expr = (visit frames expr).map shift) :
    ∀ (frames : List Frame) (query : QueryNode),
      query.collect all visit enter (frames ++ outer) = (query.collect all visit enter frames).map shift
  | frames, ⟨cteMap, modifiers, body⟩ => by
    simp only [QueryNode.collect, List.map_append]
    rw [Cte.collectList_append moves frames cteMap, ← List.cons_append,
      Expr.collectList_append moves (body.scope :: frames) modifiers, QueryBody.collect_append moves frames body]

end

end

end

/-- What reads a relation: a name, a position of the select list, or a star. -/
inductive Reference where
  | named (origin : Origin) (names : List Text)
  | positional (index : Nat)
  | star
deriving DecidableEq, Repr

/-- A reference and the frames its own expression opens around it. -/
structure Occurrence where
  frames : List Frame
  reference : Reference
deriving DecidableEq, Repr

/-- The occurrence under further frames. -/
def Occurrence.under (outer : List Frame) (occurrence : Occurrence) : Occurrence :=
  ⟨occurrence.frames ++ outer, occurrence.reference⟩

/-- The reference an expression is by itself. -/
def Expr.reference? : Expr → Option Reference
  | .columnRef origin names => some (.named origin names)
  | .positional index => some (.positional index)
  | .star _ _ _ _ _ => some .star
  | _ => none

/-- What an expression contributes by itself to the references. -/
def Expr.ownOccurrence (frames : List Frame) (expr : Expr) : List Occurrence :=
  (expr.reference?.map (⟨frames, ·⟩)).toList

/-- Every reference of an expression. -/
def Expr.occurrences (frames : List Frame) (expr : Expr) : List Occurrence :=
  expr.collect true Expr.ownOccurrence (fun _ => true) frames

/-- Every reference of a query. -/
def QueryNode.occurrences (frames : List Frame) (query : QueryNode) : List Occurrence :=
  query.collect true Expr.ownOccurrence (fun _ => true) frames

/-- Under further frames an expression has the same references. -/
theorem Expr.occurrences_append (frames outer : List Frame) (expr : Expr) :
    expr.occurrences (frames ++ outer) = (expr.occurrences frames).map (Occurrence.under outer) := by
  apply Expr.collect_append
  intro frames expr
  rw [Expr.ownOccurrence, Expr.ownOccurrence]
  cases expr.reference? <;> rfl

/-- The column at a position of a frame, the relations one after the other. -/
def Frame.position (index : Nat) (frame : Frame) : Resolution :=
  let columns := frame.zipIdx.flatMap fun relation => relation.1.columns.map fun column => (relation.2, column)
  match columns[index - 1]? with
  | some (relation, column) => .bound 0 ⟨relation, column, []⟩
  | none => .unbound

/-- A frame as a whole, if it has a relation. -/
def Frame.whole (frame : Frame) : Resolution := if frame = [] then .unbound else .bound 0 ⟨0, ['*'], []⟩

/-- A lambda's parameters are no query; a relation always has a name. -/
def Frame.isLambda (frame : Frame) : Bool := frame.any (·.name = [])

/-- What binds in the innermost query, through the lambdas around it. -/
def inQuery (bind : Frame → Resolution) : List Frame → Resolution
  | [] => .unbound
  | frame :: outer => if frame.isLambda then (inQuery bind outer).under 1 else bind frame

/-- Where a reference binds: a name in the innermost frame that has it, a position and a star in the
innermost query. -/
def Reference.resolve (frames : List Frame) : Reference → Resolution
  | .named _ names => DuckAcl.resolve frames names
  | .positional index => inQuery (Frame.position index) frames
  | .star => inQuery Frame.whole frames

/-- Whether frames decide a reference, so that nothing further out is asked. -/
def Reference.decidedBy (frames : List Frame) : Reference → Bool
  | .named _ names => DuckAcl.resolve frames names ≠ .unbound
  | .positional _ | .star => frames.any (!·.isLambda)

private theorem inQuery_append (bind : Frame → Resolution) (inner outer : List Frame) :
    inQuery bind (inner ++ outer) =
      if inner.any (!·.isLambda) then inQuery bind inner else (inQuery bind outer).under inner.length := by
  induction inner with
  | nil => simp
  | cons frame inner ih =>
    rw [List.cons_append, inQuery, inQuery, ih, List.any_cons, List.length_cons]
    cases frame.isLambda with
    | false => simp
    | true =>
      simp only [↓reduceIte, Bool.not_true, Bool.false_or]
      split_ifs
      · rfl
      · rw [Resolution.under_under]

/-- The inner frames decide, or the outer ones are asked. -/
theorem Reference.resolve_append (inner outer : List Frame) (reference : Reference) :
    reference.resolve (inner ++ outer) =
      if reference.decidedBy inner then reference.resolve inner else (reference.resolve outer).under inner.length := by
  cases reference with
  | named origin names =>
    simp only [Reference.resolve, Reference.decidedBy, DuckAcl.resolve_append, decide_eq_true_eq]
    by_cases decided : DuckAcl.resolve inner names = .unbound
    · rw [if_neg (not_not.mpr decided), decided, Resolution.unbound_or]
    · rw [if_pos decided, Resolution.or_of_ne decided]
  | positional index => exact inQuery_append ..
  | star => exact inQuery_append ..

private theorem inQuery_within {bind : Frame → Resolution} (first : ∀ frame, (bind frame).Within 1) (frames : List Frame) :
    (inQuery bind frames).Within frames.length := by
  induction frames with
  | nil => trivial
  | cons frame frames ih =>
    rw [inQuery]
    split_ifs
    · exact ih.under 1
    · exact (first frame).mono (by simp)

/-- What a reference binds to stands in one of the frames. -/
theorem Reference.resolve_within (frames : List Frame) (reference : Reference) :
    (reference.resolve frames).Within frames.length := by
  cases reference with
  | named origin names => exact DuckAcl.resolve_within frames names
  | positional index =>
    refine inQuery_within (fun frame => ?_) frames
    rw [Frame.position]
    split
    · exact Nat.one_pos
    · trivial
  | star =>
    refine inQuery_within (fun frame => ?_) frames
    rw [Frame.whole]
    split_ifs
    · trivial
    · exact Nat.one_pos

end DuckAcl
