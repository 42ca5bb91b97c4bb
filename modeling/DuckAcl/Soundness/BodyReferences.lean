import Mathlib.Logic.Relation
import DuckAcl.Model.BodyReferences

/-! # The tables the source gate judges

The binder reads a stored body place by place: an expression, a table reference or a query, each under the
CTEs that are in scope there. A CTE's definition sees the CTEs written before it and those around it; only
the right side of a recursive CTE sees its own name; what follows a WITH sees all of it. At a place that
writes a table's name the binder looks the name up in the catalog, unless it is a CTE in scope.

The walk of the source gate reports exactly the names looked up at the places it goes to. Three kinds of
places are left out: what a PIVOT turns on, a query that a table function keeps apart from its arguments,
and an AT clause, where the engine takes no subquery.
-/

namespace DuckAcl

/-- A part of a parsed tree. -/
inductive TreePart where
  | node (node : QueryNode)
  | body (body : QueryBody)
  | ref (ref : TableRef)
  | expr (expr : Expr)

/-- A part of a tree and the CTEs in scope there. -/
structure TreePlace where
  part : TreePart
  scope : CteScope

/-- The definitions of a WITH, each under the CTEs written before it. -/
def Cte.places (scope : CteScope) : List Cte → List TreePlace
  | [] => []
  | cte :: ctes => ⟨.node cte.query, scope⟩ :: Cte.places (cte.name :: scope) ctes

/-- Expressions in one scope. -/
def Expr.places (scope : CteScope) (exprs : List Expr) : List TreePlace := exprs.map fun expr => ⟨.expr expr, scope⟩

/-- Queries in one scope. -/
def QueryNode.places (scope : CteScope) (queries : List QueryNode) : List TreePlace :=
  queries.map fun query => ⟨.node query, scope⟩

section

variable (iterator : NodeIterator)

/-- The places written directly inside a place. Of a node that writes, these are the places that the
engine's iterator hands over. -/
def TreePlace.inside : TreePlace → List TreePlace
  | ⟨.node ⟨cteMap, modifiers, body⟩, scope⟩ =>
    let after := (cteNames cteMap).reverse ++ scope
    Cte.places scope cteMap ++
      if body.isWalked then ⟨.body body, after⟩ :: Expr.places after modifiers
      else Expr.places after (iterator.exprs ⟨cteMap, modifiers, body⟩)
  | ⟨.body (.select node), scope⟩ =>
    ⟨.ref node.fromTable, scope⟩ :: Expr.places scope (node.selectList ++ node.clauses ++ [node.whereClause])
  | ⟨.body (.setOperation children), scope⟩ => QueryNode.places scope children
  | ⟨.body (.recursiveCte name left right), scope⟩ => [⟨.node left, scope⟩, ⟨.node right, name :: scope⟩]
  | ⟨.ref (.subquery query _ _ _), scope⟩ => [⟨.node query, scope⟩]
  | ⟨.ref (.join left right condition ranking _), scope⟩ =>
    [⟨.ref left, scope⟩, ⟨.ref right, scope⟩, ⟨.expr condition, scope⟩, ⟨.expr ranking, scope⟩]
  | ⟨.ref (.tableFunction _ args _ _ _), scope⟩ => Expr.places scope args
  | ⟨.ref (.showRef query), scope⟩ => [⟨.node query, scope⟩]
  | ⟨.ref (.pivot source aggregates _ queries _ _), scope⟩ =>
    ⟨.ref source, scope⟩ :: Expr.places scope aggregates ++ QueryNode.places scope queries
  | ⟨.ref (.expressionList values _ _), scope⟩ => Expr.places scope values
  | ⟨.expr (.subquery operand query), scope⟩ => [⟨.node query, scope⟩, ⟨.expr operand, scope⟩]
  | ⟨.expr (.star _ _ _ replace pattern), scope⟩ => Expr.places scope (pattern :: replace)
  | ⟨.expr (.call _ args), scope⟩ => Expr.places scope args
  | ⟨.expr (.lambda _ left right), scope⟩ => [⟨.expr left, scope⟩, ⟨.expr right, scope⟩]
  | _ => []

/-- The places written directly inside a place that are left out. -/
def TreePlace.leftOut : TreePlace → List TreePlace
  | ⟨.ref (.base _ _ _ time), scope⟩ => [⟨.expr time, scope⟩]
  | ⟨.ref (.tableFunction _ _ query _ _), scope⟩ => [⟨.node query, scope⟩]
  | ⟨.ref (.pivot _ _ pivots _ _ _), scope⟩ => Expr.places scope pivots
  | _ => []

/-- The binder looks the name up in the catalog at this place; of a node that writes, every table the
iterator hands over. -/
def TreePlace.LooksUp (place : TreePlace) (name : List Text) : Prop :=
  match place.part with
  | .ref (.base _ written _ _) => name = written ∧ place.scope.binds written = false
  | .ref (.showName written) => name = written ∧ written ≠ [] ∧ place.scope.binds written = false
  | .node node => node.body.isWalked = false ∧ ∃ ref ∈ iterator.refs node, ref.writtenName = some name
  | _ => False

/-- What the walk reports from a place on. -/
def TreePlace.references : TreePlace → List (List Text)
  | ⟨.node node, scope⟩ => node.references iterator scope
  | ⟨.body body, scope⟩ => body.references iterator scope
  | ⟨.ref ref, scope⟩ => ref.references iterator scope
  | ⟨.expr expr, scope⟩ => expr.references iterator scope

/-- All the places inside a place, at any depth. -/
def TreePlace.Holds : TreePlace → TreePlace → Prop :=
  Relation.ReflTransGen fun place inner => inner ∈ place.inside iterator ++ place.leftOut

/-- The places a stored body starts from. -/
def StoredBody.places : StoredBody → List TreePlace
  | .expressions exprs => Expr.places [] exprs
  | .statements written => written.filterMap fun statement =>
      match statement with
      | .select node => some ⟨.node node, []⟩
      | .other _ => none

/-- The binder looks the name up somewhere in the body. -/
def StoredBody.LooksUp (body : StoredBody) (name : List Text) : Prop :=
  ∃ start ∈ body.places, ∃ place, start.Holds iterator place ∧ place.LooksUp iterator name

/-- The binder looks the name up inside a place that is left out. -/
def StoredBody.LooksUpLeftOut (body : StoredBody) (name : List Text) : Prop :=
  ∃ start ∈ body.places, ∃ place, start.Holds iterator place ∧ ∃ inner ∈ place.leftOut,
    ∃ deeper, inner.Holds iterator deeper ∧ deeper.LooksUp iterator name

/-- The body has nothing but SELECT statements. -/
def StoredBody.IsSelect : StoredBody → Prop
  | .expressions _ => True
  | .statements written => ∀ statement ∈ written, ∃ node, statement = .select node

end

/-! ## One place -/

section

variable {iterator : NodeIterator} {name : List Text}

attribute [local simp] TreePlace.inside TreePlace.references TreePlace.LooksUp

theorem CteScope.mem_report {scope : CteScope} {written : List Text} :
    name ∈ scope.report written ↔ name = written ∧ scope.binds written = false := by
  unfold CteScope.report
  split_ifs with binds <;> simp [binds]

theorem Expr.mem_referencesList {scope : CteScope} {exprs : List Expr} :
    name ∈ Expr.referencesList iterator scope exprs ↔
      ∃ inner ∈ Expr.places scope exprs, name ∈ inner.references iterator := by
  induction exprs with
  | nil => simp [Expr.referencesList, Expr.places]
  | cons expr exprs ih =>
    rw [Expr.referencesList, List.mem_append, ih]
    simp [Expr.places, TreePlace.references]

theorem QueryNode.mem_referencesList {scope : CteScope} {queries : List QueryNode} :
    name ∈ QueryNode.referencesList iterator scope queries ↔
      ∃ inner ∈ QueryNode.places scope queries, name ∈ inner.references iterator := by
  induction queries with
  | nil => simp [QueryNode.referencesList, QueryNode.places]
  | cons query queries ih =>
    rw [QueryNode.referencesList, List.mem_append, ih]
    simp [QueryNode.places, TreePlace.references]

theorem Cte.mem_referencesList {scope : CteScope} {ctes : List Cte} :
    name ∈ Cte.referencesList iterator scope ctes ↔
      ∃ inner ∈ Cte.places scope ctes, name ∈ inner.references iterator := by
  induction ctes generalizing scope with
  | nil => simp [Cte.referencesList, Cte.places]
  | cons cte ctes ih =>
    obtain ⟨defined, query⟩ := cte
    rw [Cte.referencesList, List.mem_append, ih]
    simp [Cte.places, TreePlace.references]

private theorem Expr.mem_references {expr : Expr} {scope : CteScope} :
    name ∈ expr.references iterator scope ↔
      ∃ inner ∈ TreePlace.inside iterator ⟨.expr expr, scope⟩, name ∈ inner.references iterator := by
  cases expr with
  | subquery operand query => simp [Expr.references, TreePlace.inside, TreePlace.references]
  | star relation exclude replaced replace pattern =>
    simp only [Expr.references, TreePlace.inside, List.mem_append, Expr.mem_referencesList]
    simp [Expr.places, TreePlace.references, or_comm]
  | call operator args => simp only [Expr.references, TreePlace.inside, Expr.mem_referencesList]
  | lambda params left right => simp [Expr.references, TreePlace.inside, TreePlace.references]
  | absent => simp [Expr.references, TreePlace.inside]
  | columnRef => simp [Expr.references, TreePlace.inside]
  | constant => simp [Expr.references, TreePlace.inside]
  | positional => simp [Expr.references, TreePlace.inside]

private theorem TableRef.mem_references {ref : TableRef} {scope : CteScope} :
    name ∈ ref.references iterator scope ↔ TreePlace.LooksUp iterator ⟨.ref ref, scope⟩ name ∨
      ∃ inner ∈ TreePlace.inside iterator ⟨.ref ref, scope⟩, name ∈ inner.references iterator := by
  cases ref with
  | base origin written aliasName time =>
    simp [TableRef.references, TreePlace.inside, TreePlace.LooksUp, CteScope.mem_report]
  | showName written =>
    by_cases empty : written = []
    · simp [TableRef.references, TreePlace.inside, TreePlace.LooksUp, empty]
    · simp [TableRef.references, TreePlace.inside, TreePlace.LooksUp, CteScope.mem_report, empty]
  | subquery | showRef | join =>
    simp [TableRef.references, TreePlace.inside, TreePlace.LooksUp, TreePlace.references]
  | tableFunction name args query aliasName lateral =>
    simp only [TableRef.references, TreePlace.inside, TreePlace.LooksUp, Expr.mem_referencesList, false_or]
  | expressionList values aliasName lateral =>
    simp only [TableRef.references, TreePlace.inside, TreePlace.LooksUp, Expr.mem_referencesList, false_or]
  | pivot source aggregates pivots queries aliasName frame =>
    simp only [TableRef.references, TreePlace.inside, TreePlace.LooksUp, Expr.mem_referencesList,
      QueryNode.mem_referencesList, List.mem_append, List.mem_cons, or_and_right, exists_or, exists_eq_left, false_or]
    rfl
  | absent | emptyFrom | other => simp [TableRef.references, TreePlace.inside, TreePlace.LooksUp]

private theorem QueryBody.mem_references {body : QueryBody} {scope : CteScope} :
    name ∈ body.references iterator scope ↔
      ∃ inner ∈ TreePlace.inside iterator ⟨.body body, scope⟩, name ∈ inner.references iterator := by
  cases body with
  | select node =>
    obtain ⟨selectList, fromTable, whereClause, clauses, frame⟩ := node
    simp only [QueryBody.references, SelectNode.references, TreePlace.inside, List.mem_append, Expr.mem_referencesList]
    simp [Expr.places, TreePlace.references, or_and_right, exists_or, or_assoc]
  | setOperation children => simp only [QueryBody.references, TreePlace.inside, QueryNode.mem_referencesList]
  | recursiveCte defined left right => simp [QueryBody.references, TreePlace.inside, TreePlace.references]
  | absent | cte | insert | update | delete | merge | other => simp [QueryBody.references, TreePlace.inside]

private theorem QueryNode.mem_references {node : QueryNode} {scope : CteScope} :
    name ∈ node.references iterator scope ↔ TreePlace.LooksUp iterator ⟨.node node, scope⟩ name ∨
      ∃ inner ∈ TreePlace.inside iterator ⟨.node node, scope⟩, name ∈ inner.references iterator := by
  obtain ⟨cteMap, modifiers, body⟩ := node
  simp only [QueryNode.references, TreePlace.inside, TreePlace.LooksUp, List.mem_append, Cte.mem_referencesList]
  cases walked : body.isWalked with
  | true =>
    simp only [↓reduceIte, List.mem_append, Expr.mem_referencesList, List.mem_cons, or_and_right, exists_or, exists_eq_left,
      Bool.true_eq_false, false_and, false_or]
    rfl
  | false =>
    have handed : (∃ expr ∈ (iterator.exprs ⟨cteMap, modifiers, body⟩).attach,
        name ∈ expr.1.references iterator ((cteNames cteMap).reverse ++ scope)) ↔
        ∃ inner ∈ Expr.places ((cteNames cteMap).reverse ++ scope) (iterator.exprs ⟨cteMap, modifiers, body⟩),
          name ∈ inner.references iterator := by
      simp [Expr.places, TreePlace.references]
    simp only [Bool.false_eq_true, ↓reduceIte, List.mem_append, List.mem_flatMap, List.mem_filterMap, handed, or_and_right,
      exists_or, true_and]
    rw [← or_assoc, or_comm]

/-- The walk reports what is looked up at a place and what it reports inside it. -/
theorem TreePlace.mem_references {place : TreePlace} :
    name ∈ place.references iterator ↔
      place.LooksUp iterator name ∨ ∃ inner ∈ place.inside iterator, name ∈ inner.references iterator := by
  obtain ⟨part, scope⟩ := place
  cases part with
  | node node => exact QueryNode.mem_references
  | body body => exact QueryBody.mem_references.trans (by simp [TreePlace.LooksUp])
  | ref ref => exact TableRef.mem_references
  | expr expr => exact Expr.mem_references.trans (by simp [TreePlace.LooksUp])

/-! ## Every place -/

/-- The size of a part. -/
noncomputable def TreePart.size : TreePart → ℕ
  | .node query => sizeOf query
  | .body content => sizeOf content
  | .ref source => sizeOf source
  | .expr value => sizeOf value

@[simp] theorem TreePart.size_node (query : QueryNode) : (TreePart.node query).size = sizeOf query := rfl
@[simp] theorem TreePart.size_body (content : QueryBody) : (TreePart.body content).size = sizeOf content := rfl
@[simp] theorem TreePart.size_ref (source : TableRef) : (TreePart.ref source).size = sizeOf source := rfl
@[simp] theorem TreePart.size_expr (value : Expr) : (TreePart.expr value).size = sizeOf value := rfl

theorem Expr.size_places {scope : CteScope} {exprs : List Expr} {inner : TreePlace}
    (written : inner ∈ Expr.places scope exprs) : inner.part.size < sizeOf exprs := by
  obtain ⟨expr, member, rfl⟩ := List.mem_map.mp written
  exact List.sizeOf_lt_of_mem member

theorem QueryNode.size_places {scope : CteScope} {queries : List QueryNode} {inner : TreePlace}
    (written : inner ∈ QueryNode.places scope queries) : inner.part.size < sizeOf queries := by
  obtain ⟨query, member, rfl⟩ := List.mem_map.mp written
  exact List.sizeOf_lt_of_mem member

theorem Cte.size_places {scope : CteScope} {ctes : List Cte} {inner : TreePlace}
    (written : inner ∈ Cte.places scope ctes) : inner.part.size < sizeOf ctes := by
  induction ctes generalizing scope with
  | nil => cases written
  | cons cte ctes ih =>
    obtain ⟨defined, query⟩ := cte
    rcases List.mem_cons.mp written with rfl | later
    · simp only [TreePart.size_node, List.cons.sizeOf_spec, Cte.mk.sizeOf_spec]
      omega
    · have := ih later
      simp only [List.cons.sizeOf_spec]
      omega

/-- A place inside another is smaller. -/
theorem TreePlace.size_inside {place inner : TreePlace} (written : inner ∈ place.inside iterator) :
    inner.part.size < place.part.size := by
  obtain ⟨part, scope⟩ := place
  rcases part with ⟨cteMap, modifiers, body⟩ | body | ref | expr
  · simp only [inside, List.mem_append] at written
    simp only [TreePart.size_node]
    rcases written with defined | later
    · have := Cte.size_places defined
      simp only [QueryNode.mk.sizeOf_spec]
      omega
    · split_ifs at later
      · rcases List.mem_cons.mp later with rfl | modifier
        · simp only [TreePart.size_body, QueryNode.mk.sizeOf_spec]
          omega
        · have := Expr.size_places modifier
          simp only [QueryNode.mk.sizeOf_spec]
          omega
      · obtain ⟨expr, handed, rfl⟩ := List.mem_map.mp later
        exact iterator.smaller handed
  · cases body with
    | select node =>
      obtain ⟨selectList, fromTable, whereClause, clauses, frame⟩ := node
      simp only [inside, Expr.places, List.mem_cons, List.mem_map, List.mem_append, List.not_mem_nil, or_false] at written
      simp only [TreePart.size_body, QueryBody.select.sizeOf_spec, SelectNode.mk.sizeOf_spec]
      rcases written with rfl | ⟨expr, (selected | clause) | rfl, rfl⟩
      · simp only [TreePart.size_ref]
        omega
      · have := List.sizeOf_lt_of_mem selected
        simp only [TreePart.size_expr]
        omega
      · have := List.sizeOf_lt_of_mem clause
        simp only [TreePart.size_expr]
        omega
      · simp only [TreePart.size_expr]
        omega
    | setOperation children =>
      have := QueryNode.size_places written
      simp only [TreePart.size_body, QueryBody.setOperation.sizeOf_spec]
      omega
    | recursiveCte defined left right =>
      simp only [inside, List.mem_cons, List.not_mem_nil, or_false] at written
      rcases written with rfl | rfl
      all_goals
        simp only [TreePart.size_node, TreePart.size_body, QueryBody.recursiveCte.sizeOf_spec]
        omega
    | absent | cte | insert | update | delete | merge | other => cases written
  · cases ref with
    | subquery | showRef =>
      rw [List.mem_singleton.mp written]
      simp only [TreePart.size_node, TreePart.size_ref, TableRef.subquery.sizeOf_spec, TableRef.showRef.sizeOf_spec]
      omega
    | join left right condition ranking frame =>
      simp only [inside, List.mem_cons, List.not_mem_nil, or_false] at written
      rcases written with rfl | rfl | rfl | rfl
      all_goals
        simp only [TreePart.size_ref, TreePart.size_expr, TableRef.join.sizeOf_spec]
        omega
    | tableFunction | expressionList =>
      have := Expr.size_places written
      simp only [TreePart.size_ref, TableRef.tableFunction.sizeOf_spec, TableRef.expressionList.sizeOf_spec]
      omega
    | pivot source aggregates pivots queries aliasName frame =>
      simp only [inside, List.mem_append, List.mem_cons] at written
      simp only [TreePart.size_ref, TableRef.pivot.sizeOf_spec]
      rcases written with (rfl | aggregate) | query
      · simp only [TreePart.size_ref]
        omega
      · have := Expr.size_places aggregate
        omega
      · have := QueryNode.size_places query
        omega
    | absent | base | showName | emptyFrom | other => cases written
  · cases expr with
    | subquery operand query =>
      simp only [inside, List.mem_cons, List.not_mem_nil, or_false] at written
      rcases written with rfl | rfl
      all_goals
        simp only [TreePart.size_node, TreePart.size_expr, Expr.subquery.sizeOf_spec]
        omega
    | lambda params left right =>
      simp only [inside, List.mem_cons, List.not_mem_nil, or_false] at written
      rcases written with rfl | rfl
      all_goals
        simp only [TreePart.size_expr, Expr.lambda.sizeOf_spec]
        omega
    | star | call =>
      have := Expr.size_places written
      simp only [TreePart.size_expr, Expr.star.sizeOf_spec, Expr.call.sizeOf_spec, List.cons.sizeOf_spec] at this ⊢
      omega
    | absent | columnRef | constant | positional => cases written

/-- What is reported is looked up inside the place. -/
theorem TreePlace.lookedUp_of_reported {place : TreePlace} (reported : name ∈ place.references iterator) :
    ∃ inner, place.Holds iterator inner ∧ inner.LooksUp iterator name := by
  induction size : place.part.size using Nat.strong_induction_on generalizing place with
  | _ _ ih =>
    rcases TreePlace.mem_references.mp reported with here | ⟨inner, written, inside⟩
    · exact ⟨place, .refl, here⟩
    · obtain ⟨deeper, holds, looksUp⟩ := ih _ (size ▸ size_inside written) inside rfl
      exact ⟨deeper, .head (List.mem_append_left _ written) holds, looksUp⟩

/-- What is looked up inside a place is reported, or looked up inside a place that is left out. -/
theorem TreePlace.Holds.reported {place inner : TreePlace} (holds : place.Holds iterator inner)
    (looksUp : inner.LooksUp iterator name) :
    name ∈ place.references iterator ∨ ∃ outer, place.Holds iterator outer ∧ ∃ skipped ∈ outer.leftOut,
      ∃ deeper, skipped.Holds iterator deeper ∧ deeper.LooksUp iterator name := by
  induction holds using Relation.ReflTransGen.head_induction_on with
  | refl => exact .inl (TreePlace.mem_references.mpr (.inl looksUp))
  | @head place next written rest ih =>
    rcases List.mem_append.mp written with walked | skipped
    · rcases ih with reported | ⟨outer, reaches, rest⟩
      · exact .inl (TreePlace.mem_references.mpr (.inr ⟨next, walked, reported⟩))
      · exact .inr ⟨outer, .head written reaches, rest⟩
    · exact .inr ⟨place, .refl, next, skipped, inner, rest, looksUp⟩

/-! ## A stored body -/

theorem BodyStatement.referencesList_spec (written : List BodyStatement) :
    match BodyStatement.referencesList iterator written with
    | .ok references => (StoredBody.statements written).IsSelect ∧
        (name ∈ references ↔ ∃ start ∈ (StoredBody.statements written).places, name ∈ start.references iterator)
    | .error _ => ¬ (StoredBody.statements written).IsSelect := by
  induction written with
  | nil => simp [BodyStatement.referencesList, StoredBody.IsSelect, StoredBody.places]
  | cons statement rest ih =>
    cases statement with
    | other statementType =>
      intro selects
      obtain ⟨node, same⟩ := selects _ List.mem_cons_self
      cases same
    | select node =>
      cases answer : BodyStatement.referencesList iterator rest with
      | error refusal =>
        rw [answer] at ih
        simp only [BodyStatement.referencesList, answer]
        exact fun selects => ih fun statement member => selects statement (List.mem_cons_of_mem _ member)
      | ok references =>
        rw [answer] at ih
        simp only [BodyStatement.referencesList, answer]
        refine ⟨?_, ?_⟩
        · intro statement member
          rcases List.mem_cons.mp member with rfl | later
          · exact ⟨node, rfl⟩
          · exact ih.1 statement later
        · have later := ih.2
          simp only [StoredBody.places] at later
          simp [StoredBody.places, TreePlace.references, later]

/-- A body that is no SELECT is refused. Of any other, every name the binder looks up is reported, unless
it is looked up inside a place that is left out; and nothing else is reported. -/
theorem stored_body_references (iterator : NodeIterator) (body : StoredBody) :
    match bodyReferences iterator body with
    | .ok references => body.IsSelect ∧
        (∀ name, body.LooksUp iterator name → name ∈ references ∨ body.LooksUpLeftOut iterator name) ∧
        ∀ name ∈ references, body.LooksUp iterator name
    | .error _ => ¬ body.IsSelect := by
  have reports : ∀ references : List (List Text),
      (∀ name, name ∈ references ↔ ∃ start ∈ body.places, name ∈ start.references iterator) →
      (∀ name, body.LooksUp iterator name → name ∈ references ∨ body.LooksUpLeftOut iterator name) ∧
        ∀ name ∈ references, body.LooksUp iterator name := by
    intro references members
    refine ⟨?_, ?_⟩
    · rintro name ⟨start, written, place, holds, looksUp⟩
      rcases holds.reported looksUp with reported | ⟨outer, reaches, skipped⟩
      · exact .inl ((members name).mpr ⟨start, written, reported⟩)
      · exact .inr ⟨start, written, outer, reaches, skipped⟩
    · intro name reported
      obtain ⟨start, written, inside⟩ := (members name).mp reported
      obtain ⟨place, holds, looksUp⟩ := TreePlace.lookedUp_of_reported inside
      exact ⟨start, written, place, holds, looksUp⟩
  cases body with
  | expressions exprs => exact ⟨trivial, reports _ fun name => Expr.mem_referencesList⟩
  | statements written =>
    have spec := fun name => @BodyStatement.referencesList_spec iterator name written
    simp only [bodyReferences]
    cases answer : BodyStatement.referencesList iterator written with
    | error refusal =>
      simp only [answer] at spec
      exact spec []
    | ok references =>
      simp only [answer] at spec
      exact ⟨(spec []).1, reports references fun name => (spec name).2⟩

end

/-- The table function a place calls. -/
def TreePlace.calls : TreePlace → Option (List Text)
  | ⟨.ref (.tableFunction name _ _ _ _), _⟩ => some name
  | _ => none

/-- `SELECT * FROM f()`. -/
def callNode : SelectNode where
  selectList := [.star [] [] [] [] .absent]
  fromTable := .tableFunction ["f".toList] [] .absent [] []
  whereClause := .absent
  clauses := []
  scope := []

/-- An iterator for bodies it is not asked about. -/
def unasked : NodeIterator where
  exprs := fun _ => []
  refs := fun _ => []
  smaller := fun member => nomatch member

/-- A table function that a body calls is not reported. -/
theorem table_function_not_reported :
    ¬ ∀ body references, bodyReferences unasked body = .ok references → ∀ start ∈ body.places, ∀ place name,
      start.Holds unasked place → place.LooksUp unasked name ∨ place.calls = some name → name ∈ references := by
  intro reports
  have answered : bodyReferences unasked (.statements [.select (QueryBody.select callNode).query]) = .ok [] := by
    simp [bodyReferences, BodyStatement.referencesList, QueryBody.query, QueryNode.references, Cte.referencesList,
      QueryBody.isWalked, QueryBody.references, callNode, SelectNode.references, TableRef.references,
      Expr.referencesList, Expr.references]
  have toBody : (⟨.body (.select callNode), []⟩ : TreePlace) ∈
      TreePlace.inside unasked ⟨.node (QueryBody.select callNode).query, []⟩ := by
    simp [TreePlace.inside, QueryBody.query, QueryBody.isWalked, cteNames, Cte.places]
  have reported := reports _ [] answered ⟨.node (QueryBody.select callNode).query, []⟩ (by simp [StoredBody.places])
    ⟨.ref callNode.fromTable, []⟩ ["f".toList]
    (.head (List.mem_append_left _ toBody) (.single (by simp [TreePlace.inside]))) (.inr rfl)
  cases reported

end DuckAcl
