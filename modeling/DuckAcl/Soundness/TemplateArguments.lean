import DuckAcl.Library.Outcome
import DuckAcl.Model.Markers

/-! # Arguments of a virtual function

An argument is put into the template as a tree, so its names are bound where they end up. The
references of an expansion are the template's own and, at every marker, those of the argument below
the frames the template opened there. An argument reads what it reads at the call exactly when no
such frame has one of its names.
-/

namespace DuckAcl

/-- The references of an expansion: the template's own, and at every place those of the argument. -/
def Splices (own result : List Occurrence) (places : List ArgumentPlace) : Prop :=
  ∀ occurrence, occurrence ∈ result ↔ occurrence ∈ own ∨
    ∃ place ∈ places, ∃ inner ∈ place.argument.occurrences [], occurrence = inner.under place.frames

theorem Splices.same (own : List Occurrence) : Splices own own [] := by
  intro occurrence
  simp

theorem Splices.append {own own' result result' : List Occurrence} {places places' : List ArgumentPlace}
    (left : Splices own result places) (right : Splices own' result' places') :
    Splices (own ++ own') (result ++ result') (places ++ places') := by
  intro occurrence
  simp only [List.mem_append, left occurrence, right occurrence, or_and_right, exists_or]
  exact or_or_or_comm

/-- Where no argument goes, nothing changes. -/
theorem Splices.append_same {own result : List Occurrence} {places : List ArgumentPlace} (left : Splices own result places)
    (rest : List Occurrence) : Splices (own ++ rest) (result ++ rest) places := by
  have := left.append (Splices.same rest)
  rwa [List.append_nil] at this

section

variable {templates : Templates} {args : List Expr}

/-- At a marker the whole expression is the argument. -/
private theorem splices_argument {callArgs : List Expr} {result : Expr} (frames : List Frame)
    (found : templates.argExpression (some args) callArgs = .ok result) :
    Splices (Expr.collectList true Expr.ownOccurrence (fun _ => true) frames callArgs) (result.occurrences frames)
      [⟨frames, result⟩] := by
  have constant : ∃ literal, callArgs = [.constant literal] := by
    simp only [Templates.argExpression] at found
    split at found
    · exact ⟨_, rfl⟩
    · cases found
  obtain ⟨literal, rfl⟩ := constant
  have moved := Expr.occurrences_append [] frames result
  rw [List.nil_append] at moved
  intro occurrence
  rw [moved, List.mem_map]
  simp [Expr.collectList, Expr.collect, Expr.ownOccurrence, Expr.reference?, eq_comm]

private theorem claimValue_ok {callArgs : List Expr} {result : Expr} (found : templates.claimValue callArgs = .ok result) :
    ∃ literal value, callArgs = [.constant literal] ∧ result = .constant value := by
  rw [Templates.claimValue.eq_def] at found
  split at found
  · split at found
    · cases found
      exact ⟨_, _, rfl, rfl⟩
    · cases found
      exact ⟨_, _, rfl, rfl⟩
  · cases found

mutual

/-- Baking an expression puts the arguments where its markers stand. -/
theorem Expr.bakeMarkers_splices : ∀ (frames : List Frame) (expr result : Expr),
    expr.bakeMarkers templates (some args) = .ok result →
      Splices (expr.occurrences frames) (result.occurrences frames)
        (expr.collect false (Expr.argumentPlace templates args) Expr.isNoMarker frames)
  | frames, .subquery operand query, result, baked => by
    simp only [Expr.bakeMarkers, Outcome.bind_eq_ok, Outcome.pure_eq_ok] at baked
    obtain ⟨query', bakedQuery, operand', bakedOperand, rfl⟩ := baked
    exact (Expr.bakeMarkers_splices frames operand operand' bakedOperand).append
      (QueryNode.bakeMarkers_splices frames query query' bakedQuery)
  | frames, .call operator callArgs, result, baked => by
    rw [Expr.bakeMarkers] at baked
    cases marker : markerOf operator with
    | none =>
      simp only [marker, Outcome.bind_eq_ok, Outcome.pure_eq_ok] at baked
      obtain ⟨callArgs', bakedArgs, rfl⟩ := baked
      simpa [Expr.occurrences, Expr.collect, Expr.argumentPlace, Expr.isNoMarker, marker, Expr.ownOccurrence,
        Expr.reference?] using Expr.bakeMarkersList_splices frames callArgs callArgs' bakedArgs
    | some which =>
      cases which with
      | claim =>
        simp only [marker] at baked
        split_ifs at baked
        · cases baked
          simpa [Expr.occurrences, Expr.collect, Expr.argumentPlace, Expr.isNoMarker, marker] using Splices.same _
        · obtain ⟨literal, value, rfl, rfl⟩ := claimValue_ok baked
          simpa [Expr.occurrences, Expr.collect, Expr.collectList, Expr.argumentPlace, Expr.isNoMarker, marker,
            Expr.ownOccurrence, Expr.reference?] using Splices.same []
      | argument =>
        simp only [marker] at baked
        simpa [Expr.occurrences, Expr.collect, Expr.argumentPlace, Expr.isNoMarker, marker, baked, Expr.ownOccurrence,
          Expr.reference?] using splices_argument frames baked
  | frames, .star relation exclude replaced replace pattern, result, baked => by
    simp only [Expr.bakeMarkers, Outcome.bind_eq_ok, Outcome.pure_eq_ok] at baked
    obtain ⟨replace', bakedReplace, pattern', bakedPattern, rfl⟩ := baked
    have children := (Expr.bakeMarkersList_splices frames replace replace' bakedReplace).append
      (Expr.bakeMarkers_splices frames pattern pattern' bakedPattern)
    exact (Splices.same [⟨frames, .star⟩]).append children
  | frames, .lambda (some params) left right, result, baked => by
    simp only [Expr.bakeMarkers, Outcome.bind_eq_ok, Outcome.pure_eq_ok] at baked
    obtain ⟨left', _, right', bakedRight, rfl⟩ := baked
    exact Expr.bakeMarkers_splices (lambdaFrame params :: frames) right right' bakedRight
  | frames, .lambda none left right, result, baked => by
    simp only [Expr.bakeMarkers, Outcome.bind_eq_ok, Outcome.pure_eq_ok] at baked
    obtain ⟨left', bakedLeft, right', bakedRight, rfl⟩ := baked
    exact (Expr.bakeMarkers_splices frames left left' bakedLeft).append
      (Expr.bakeMarkers_splices frames right right' bakedRight)
  | frames, .absent, result, baked => by
    cases baked
    exact Splices.same _
  | frames, .columnRef _ _, result, baked => by
    cases baked
    exact Splices.same _
  | frames, .constant _, result, baked => by
    cases baked
    exact Splices.same _
  | frames, .positional _, result, baked => by
    cases baked
    exact Splices.same _

private theorem Expr.bakeMarkersList_splices : ∀ (frames : List Frame) (exprs results : List Expr),
    Expr.bakeMarkersList templates (some args) exprs = .ok results →
      Splices (Expr.collectList true Expr.ownOccurrence (fun _ => true) frames exprs)
        (Expr.collectList true Expr.ownOccurrence (fun _ => true) frames results)
        (Expr.collectList false (Expr.argumentPlace templates args) Expr.isNoMarker frames exprs)
  | frames, [], results, baked => by
    cases baked
    exact Splices.same _
  | frames, expr :: exprs, results, baked => by
    simp only [Expr.bakeMarkersList, Outcome.bind_eq_ok, Outcome.pure_eq_ok] at baked
    obtain ⟨expr', bakedExpr, exprs', bakedExprs, rfl⟩ := baked
    exact (Expr.bakeMarkers_splices frames expr expr' bakedExpr).append
      (Expr.bakeMarkersList_splices frames exprs exprs' bakedExprs)

private theorem TableRef.bakeMarkers_splices : ∀ (frames : List Frame) (ref result : TableRef),
    ref.bakeMarkers templates (some args) = .ok result →
      Splices (ref.collect true Expr.ownOccurrence (fun _ => true) frames)
        (result.collect true Expr.ownOccurrence (fun _ => true) frames)
        (ref.collect false (Expr.argumentPlace templates args) Expr.isNoMarker frames)
  | frames, .subquery query aliasName columns lateral, result, baked => by
    simp only [TableRef.bakeMarkers, Outcome.bind_eq_ok, Outcome.pure_eq_ok] at baked
    obtain ⟨query', bakedQuery, rfl⟩ := baked
    exact QueryNode.bakeMarkers_splices (lateral :: frames) query query' bakedQuery
  | frames, .join left right condition ranking scope, result, baked => by
    simp only [TableRef.bakeMarkers, Outcome.bind_eq_ok, Outcome.pure_eq_ok] at baked
    obtain ⟨left', bakedLeft, right', bakedRight, condition', bakedCondition, rfl⟩ := baked
    have sides := (TableRef.bakeMarkers_splices frames left left' bakedLeft).append
      (TableRef.bakeMarkers_splices frames right right' bakedRight)
    have conditions := Expr.bakeMarkers_splices (scope :: frames) condition condition' bakedCondition
    have whole := (sides.append conditions).append_same (ranking.occurrences (scope :: frames))
    simpa only [TableRef.collect, Expr.occurrences, QueryNode.occurrences, Bool.false_eq_true, ↓reduceIte,
      List.append_nil] using whole
  | frames, .tableFunction name callArgs query aliasName lateral, result, baked => by
    simp only [TableRef.bakeMarkers, Outcome.bind_eq_ok, Outcome.pure_eq_ok] at baked
    obtain ⟨callArgs', bakedArgs, rfl⟩ := baked
    have whole := (Expr.bakeMarkersList_splices (lateral :: frames) callArgs callArgs' bakedArgs).append_same
      (query.occurrences (lateral :: frames))
    simpa only [TableRef.collect, Expr.occurrences, QueryNode.occurrences, Bool.false_eq_true, ↓reduceIte,
      List.append_nil] using whole
  | frames, .showRef query, result, baked => by
    cases baked
    simpa only [TableRef.collect, Bool.false_eq_true, ↓reduceIte] using
      Splices.same (query.collect true Expr.ownOccurrence (fun _ => true) frames)
  | frames, .showName _, result, baked => by
    cases baked
    exact Splices.same _
  | frames, .pivot source aggregates pivots queries aliasName scope, result, baked => by
    simp only [TableRef.bakeMarkers, Outcome.bind_eq_ok, Outcome.pure_eq_ok] at baked
    obtain ⟨source', bakedSource, aggregates', bakedAggregates, rfl⟩ := baked
    have visited := (TableRef.bakeMarkers_splices frames source source' bakedSource).append
      (Expr.bakeMarkersList_splices (scope :: frames) aggregates aggregates' bakedAggregates)
    have whole := visited.append_same (Expr.collectList true Expr.ownOccurrence (fun _ => true) (scope :: frames) pivots ++
      QueryNode.collectList true Expr.ownOccurrence (fun _ => true) frames queries)
    simpa only [TableRef.collect, Expr.occurrences, QueryNode.occurrences, Bool.false_eq_true, ↓reduceIte,
      List.append_nil] using whole
  | frames, .expressionList values aliasName lateral, result, baked => by
    simp only [TableRef.bakeMarkers, Outcome.bind_eq_ok, Outcome.pure_eq_ok] at baked
    obtain ⟨values', bakedValues, rfl⟩ := baked
    exact Expr.bakeMarkersList_splices (lateral :: frames) values values' bakedValues
  | frames, .absent, result, baked => by
    cases baked
    exact Splices.same _
  | frames, .base _ _ _ _, result, baked => by
    cases baked
    exact Splices.same _
  | frames, .emptyFrom, result, baked => by
    cases baked
    exact Splices.same _
  | frames, .other, result, baked => by
    cases baked
    exact Splices.same _

private theorem Cte.bakeMarkersList_splices : ∀ (frames : List Frame) (ctes results : List Cte),
    Cte.bakeMarkersList templates (some args) ctes = .ok results →
      Splices (Cte.collectList true Expr.ownOccurrence (fun _ => true) frames ctes)
        (Cte.collectList true Expr.ownOccurrence (fun _ => true) frames results)
        (Cte.collectList false (Expr.argumentPlace templates args) Expr.isNoMarker frames ctes)
  | frames, [], results, baked => by
    cases baked
    exact Splices.same _
  | frames, ⟨name, query⟩ :: ctes, results, baked => by
    simp only [Cte.bakeMarkersList, Outcome.bind_eq_ok, Outcome.pure_eq_ok] at baked
    obtain ⟨query', bakedQuery, ctes', bakedCtes, rfl⟩ := baked
    exact (QueryNode.bakeMarkers_splices frames query query' bakedQuery).append
      (Cte.bakeMarkersList_splices frames ctes ctes' bakedCtes)

private theorem QueryNode.bakeMarkersList_splices : ∀ (frames : List Frame) (queries results : List QueryNode),
    QueryNode.bakeMarkersList templates (some args) queries = .ok results →
      Splices (QueryNode.collectList true Expr.ownOccurrence (fun _ => true) frames queries)
        (QueryNode.collectList true Expr.ownOccurrence (fun _ => true) frames results)
        (QueryNode.collectList false (Expr.argumentPlace templates args) Expr.isNoMarker frames queries)
  | frames, [], results, baked => by
    cases baked
    exact Splices.same _
  | frames, query :: queries, results, baked => by
    simp only [QueryNode.bakeMarkersList, Outcome.bind_eq_ok, Outcome.pure_eq_ok] at baked
    obtain ⟨query', bakedQuery, queries', bakedQueries, rfl⟩ := baked
    exact (QueryNode.bakeMarkers_splices frames query query' bakedQuery).append
      (QueryNode.bakeMarkersList_splices frames queries queries' bakedQueries)

private theorem SelectNode.bakeMarkers_splices : ∀ (frames : List Frame) (node result : SelectNode),
    node.bakeMarkers templates (some args) = .ok result →
      Splices (node.collect true Expr.ownOccurrence (fun _ => true) frames)
        (result.collect true Expr.ownOccurrence (fun _ => true) frames)
        (node.collect false (Expr.argumentPlace templates args) Expr.isNoMarker frames) ∧ result.scope = node.scope
  | frames, ⟨selectList, fromTable, whereClause, clauses, scope⟩, result, baked => by
    simp only [SelectNode.bakeMarkers, Outcome.bind_eq_ok, Outcome.pure_eq_ok] at baked
    obtain ⟨selectList', bakedItems, fromTable', bakedFrom, whereClause', bakedWhere, clauses', bakedClauses, rfl⟩ := baked
    have items := Expr.bakeMarkersList_splices (scope :: frames) selectList selectList' bakedItems
    have source := TableRef.bakeMarkers_splices frames fromTable fromTable' bakedFrom
    have filter := Expr.bakeMarkers_splices (scope :: frames) whereClause whereClause' bakedWhere
    have rest := Expr.bakeMarkersList_splices (scope :: frames) clauses clauses' bakedClauses
    exact ⟨((items.append source).append filter).append rest, rfl⟩

private theorem QueryBody.bakeMarkers_splices : ∀ (frames : List Frame) (body result : QueryBody),
    body.bakeMarkers templates (some args) = .ok result →
      Splices (body.collect true Expr.ownOccurrence (fun _ => true) frames)
        (result.collect true Expr.ownOccurrence (fun _ => true) frames)
        (body.collect false (Expr.argumentPlace templates args) Expr.isNoMarker frames) ∧ result.scope = body.scope
  | frames, .select node, result, baked => by
    simp only [QueryBody.bakeMarkers, Outcome.bind_eq_ok, Outcome.pure_eq_ok] at baked
    obtain ⟨node', bakedNode, rfl⟩ := baked
    exact SelectNode.bakeMarkers_splices frames node node' bakedNode
  | frames, .setOperation children, result, baked => by
    simp only [QueryBody.bakeMarkers, Outcome.bind_eq_ok, Outcome.pure_eq_ok] at baked
    obtain ⟨children', bakedChildren, rfl⟩ := baked
    exact ⟨QueryNode.bakeMarkersList_splices frames children children' bakedChildren, rfl⟩
  | frames, .cte name query child, result, baked => by
    simp only [QueryBody.bakeMarkers, Outcome.bind_eq_ok, Outcome.pure_eq_ok] at baked
    obtain ⟨query', bakedQuery, child', bakedChild, rfl⟩ := baked
    exact ⟨(QueryNode.bakeMarkers_splices frames query query' bakedQuery).append
      (QueryNode.bakeMarkers_splices frames child child' bakedChild), rfl⟩
  | frames, .recursiveCte name left right, result, baked => by
    simp only [QueryBody.bakeMarkers, Outcome.bind_eq_ok, Outcome.pure_eq_ok] at baked
    obtain ⟨left', bakedLeft, right', bakedRight, rfl⟩ := baked
    exact ⟨(QueryNode.bakeMarkers_splices frames left left' bakedLeft).append
      (QueryNode.bakeMarkers_splices frames right right' bakedRight), rfl⟩
  | frames, .absent, result, baked => by
    cases baked
    exact ⟨Splices.same _, rfl⟩

private theorem QueryNode.bakeMarkers_splices : ∀ (frames : List Frame) (query result : QueryNode),
    query.bakeMarkersInNode templates (some args) = .ok result →
      Splices (query.occurrences frames) (result.occurrences frames)
        (query.collect false (Expr.argumentPlace templates args) Expr.isNoMarker frames)
  | frames, ⟨cteMap, modifiers, body⟩, result, baked => by
    simp only [QueryNode.bakeMarkersInNode, Outcome.bind_eq_ok, Outcome.pure_eq_ok] at baked
    obtain ⟨cteMap', bakedCtes, modifiers', bakedModifiers, body', bakedBody, rfl⟩ := baked
    obtain ⟨bodies, sameScope⟩ := QueryBody.bakeMarkers_splices frames body body' bakedBody
    have ctes := Cte.bakeMarkersList_splices frames cteMap cteMap' bakedCtes
    have orders := Expr.bakeMarkersList_splices (body.scope :: frames) modifiers modifiers' bakedModifiers
    have whole := (ctes.append orders).append bodies
    simpa only [QueryNode.occurrences, QueryNode.collect, sameScope] using whole

end

end

/-- A virtual function's expansion has the template's references and, at every marker, the argument's. -/
theorem FunctionTemplate.expand_splices {templates : Templates} {args : List Expr} {template expansion : FunctionTemplate}
    (expanded : template.expand templates args = .ok expansion) :
    Splices template.occurrences expansion.occurrences (template.argumentPlaces templates args) := by
  cases template with
  | table query =>
    simp only [FunctionTemplate.expand, Outcome.bind_eq_ok, Outcome.pure_eq_ok] at expanded
    obtain ⟨query', baked, rfl⟩ := expanded
    exact QueryNode.bakeMarkers_splices [] query query' baked
  | scalar expr =>
    simp only [FunctionTemplate.expand, Outcome.bind_eq_ok, Outcome.pure_eq_ok] at expanded
    obtain ⟨expr', baked, rfl⟩ := expanded
    exact Expr.bakeMarkers_splices [] expr expr' baked

/-! ## Where an argument's names bind -/

/-- The same place after frames have been put between the inner ones and the rest. -/
def Resolution.past (inner between : Nat) : Resolution → Resolution
  | .unbound => .unbound
  | .ambiguous depth => .ambiguous (if depth < inner then depth else depth + between)
  | .bound depth place => .bound (if depth < inner then depth else depth + between) place

/-- What a reference of an argument binds to in the scope of the call, seen from below the template's
frames. -/
def Reference.atCall (inner template call : List Frame) (reference : Reference) : Resolution :=
  (reference.resolve (inner ++ call)).past inner.length template.length

/-- A frame of the template takes a reference of an argument: the argument's own frames leave it open,
and those around the marker decide it. (Where neither they nor the call bind it, there is nothing to
take.) -/
def Reference.CapturedBy (inner template call : List Frame) (reference : Reference) : Prop :=
  reference.decidedBy inner = false ∧ reference.decidedBy template = true ∧
    ¬ (reference.resolve template = .unbound ∧ reference.resolve call = .unbound)

private theorem Resolution.Within.past {r : Resolution} {inner : Nat} (within : r.Within inner) (between : Nat) :
    r.past inner between = r := by
  cases r with
  | unbound => rfl
  | ambiguous depth => exact congrArg Resolution.ambiguous (if_pos within)
  | bound depth place => exact congrArg (Resolution.bound · place) (if_pos within)

private theorem Resolution.past_under (r : Resolution) (inner between : Nat) :
    (r.under inner).past inner between = r.under (between + inner) := by
  cases r with
  | unbound => rfl
  | ambiguous depth =>
    simp only [Resolution.under, Resolution.past, Nat.not_lt.mpr (Nat.le_add_left inner depth), ↓reduceIte]
    congr 1
    omega
  | bound depth place =>
    simp only [Resolution.under, Resolution.past, Nat.not_lt.mpr (Nat.le_add_left inner depth), ↓reduceIte]
    congr 1
    omega

/-- A reference of an argument binds in the expansion where it binds at the call exactly when the
template does not take it. -/
theorem Reference.binds_atCall_iff (inner template call : List Frame) (reference : Reference) :
    reference.resolve (inner ++ template ++ call) = reference.atCall inner template call ↔
      ¬ reference.CapturedBy inner template call := by
  rw [Reference.atCall, Reference.CapturedBy, List.append_assoc, Reference.resolve_append inner (template ++ call),
    Reference.resolve_append inner call]
  cases reference.decidedBy inner with
  | true => simp [(reference.resolve_within inner).past]
  | false =>
    simp only [Bool.false_eq_true, ↓reduceIte, Resolution.past_under, true_and]
    rw [Reference.resolve_append template call]
    cases reference.decidedBy template with
    | false => simp [Resolution.under_under]
    | true =>
      simp only [↓reduceIte, true_and, not_not]
      have within := (reference.resolve_within template).under inner.length
      constructor
      · intro same
        by_cases bound : reference.resolve template = .unbound
        · rw [bound, Resolution.under_unbound, eq_comm, Resolution.under_eq_unbound] at same
          exact ⟨bound, same⟩
        · exact absurd same (within.ne_under (by simpa using bound) _)
      · rintro ⟨first, second⟩
        rw [first, second]
        rfl

/-- Each argument contributes to an expansion what it is in the scope of the call: the expansion's
references are the template's and the arguments', and each of an argument's binds as it does at the
call. -/
structure FunctionTemplate.BindsAsCalled (templates : Templates) (args : List Expr) (call : List Frame)
    (template expansion : FunctionTemplate) : Prop where
  spliced : Splices template.occurrences expansion.occurrences (template.argumentPlaces templates args)
  binds : ∀ place ∈ template.argumentPlaces templates args, ∀ inner ∈ place.argument.occurrences [],
    inner.reference.resolve ((inner.under place.frames).frames ++ call) =
      inner.reference.atCall inner.frames place.frames call

/-- A call's arguments read what they read at the call exactly when no query of the template around a
marker has a name of the argument put there. -/
theorem FunctionTemplate.binds_as_called_iff (templates : Templates) (args : List Expr) (call : List Frame)
    {template expansion : FunctionTemplate} (expanded : template.expand templates args = .ok expansion) :
    FunctionTemplate.BindsAsCalled templates args call template expansion ↔
      ∀ place ∈ template.argumentPlaces templates args, ∀ inner ∈ place.argument.occurrences [],
        ¬ inner.reference.CapturedBy inner.frames place.frames call := by
  constructor
  · intro binds place isPlace inner isInner
    exact (Reference.binds_atCall_iff ..).mp (binds.binds place isPlace inner isInner)
  · intro free
    refine ⟨FunctionTemplate.expand_splices expanded, fun place isPlace inner isInner => ?_⟩
    exact (Reference.binds_atCall_iff ..).mpr (free place isPlace inner isInner)

/-- A principal without claims, and integer literals read as they are. -/
def plainTemplates : Templates where
  claims _ := none
  keepClaimMarkers := false
  literalText _ := []
  literalInt
    | .integer value => .ok value
    | _ => .error "not an integer".toList

/-- `SELECT acl_arg(1) FROM orders`, where `orders` has the columns `id` and `secret`. -/
def ordersTemplate : FunctionTemplate :=
  .table (QueryBody.query (.select {
    selectList := [.call (.function ["acl_arg".toList]) [.constant (.integer 1)]]
    fromTable := .base .policy ["orders".toList] [] .absent
    whereClause := .absent
    clauses := []
    scope := [⟨"orders".toList, ["id".toList, "secret".toList]⟩] }))

/-- Called with a column `secret` of a relation of the statement, the template reads the `secret` of
its own table. -/
theorem argument_captured :
    ∃ expansion, ordersTemplate.expand plainTemplates [.columnRef .written ["secret".toList]] = .ok expansion ∧
      ¬ FunctionTemplate.BindsAsCalled plainTemplates [.columnRef .written ["secret".toList]]
        [[⟨"v".toList, ["secret".toList]⟩]] ordersTemplate expansion := by
  refine ⟨_, rfl, fun binds => ?_⟩
  have taken := binds.binds ⟨[[⟨"orders".toList, ["id".toList, "secret".toList]⟩]], .columnRef .written ["secret".toList]⟩
    (List.mem_cons_self ..) ⟨[], .named .written ["secret".toList]⟩ (List.mem_cons_self ..)
  exact absurd taken (by decide)

/-- Called with a column the template's table does not have, the template reads it at the call. -/
theorem binds_as_called_iff_note :
    ∃ expansion, ordersTemplate.expand plainTemplates [.columnRef .written ["note".toList]] = .ok expansion ∧
      (FunctionTemplate.BindsAsCalled plainTemplates [.columnRef .written ["note".toList]]
          [[⟨"v".toList, ["note".toList]⟩]] ordersTemplate expansion ↔
        ∀ place ∈ ordersTemplate.argumentPlaces plainTemplates [.columnRef .written ["note".toList]],
          ∀ inner ∈ place.argument.occurrences [],
            ¬ inner.reference.CapturedBy inner.frames place.frames [[⟨"v".toList, ["note".toList]⟩]]) :=
  ⟨_, rfl, FunctionTemplate.binds_as_called_iff _ _ _ rfl⟩

end DuckAcl
