import DuckAcl.Model.SchemaTransactions

/-! # Statements on schemas that fail

A transaction that fails is rolled back, so a statement whose first transaction does not commit changes
nothing. One that fails later has changed the version and the rows of what it committed, and a failure
of the rebuild leaves the subtree with the capabilities it inherited before.
-/

namespace DuckAcl.PolicyTables

open Faults

/-- The rebuild comes last and always finds its rows. -/
private theorem outcomes_rematerialize (vcat path : Text) (store : PolicyTables) :
    outcomes PolicyTables.write [rematerializeTransaction vcat path] store =
      .ok (store.rematerializeSchemaCaps vcat path) := rfl

private theorem addSchema_outcomes (facts : SchemaFacts) (vcat path phys origin : Text)
    (rest : List PolicyTransaction) (store : PolicyTables) :
    outcomes PolicyTables.write (addSchemaTransactions facts vcat path phys origin ++ rest) store =
      outcomes PolicyTables.write rest
        ((store.writeAll (addSchemaWrites facts store vcat path phys origin)).rematerializeSchemaCaps vcat path) := rfl

private theorem catalogGrantSchema_eq (facts : SchemaFacts) (store : PolicyTables) (request : SchemaGrantRequest) :
    store.catalogGrantSchema facts request = (grantSchemaChecks facts store request).map fun _ =>
      (store.writeAll (store.grantSchemaWrites request)).rematerializeSchemaCaps request.vcat request.path := by
  unfold catalogGrantSchema grantSchemaChecks
  cases facts.namesManage request.capsJson with
  | error error => rfl
  | ok manage =>
    cases manage with
    | true => rfl
    | false =>
      by_cases missing : store.has .schemas (schemaAt request.vcat request.path) = false
      · simp only [missing]
        rfl
      · by_cases into : request.into = []
        · simp only [missing, into, ne_eq, not_true_eq_false, and_false, if_false]
          rfl
        · simp only [missing, into, ne_eq, not_false_eq_true, and_true, if_true]
          cases facts.policyStore request.into with
          | some refusal => rfl
          | none =>
            by_cases there : facts.physicalSchema request.into = false
            · simp only [there, if_true]
              rfl
            · simp only [there, if_false]
              by_cases only : request.virtualOnly = true
              · simp only [only, if_true]
                rfl
              · simp only [only, if_false]
                rfl

/-- Every transaction of a statement, one after another, is the statement. -/
theorem plan_outcome (facts : SchemaFacts) (store : PolicyTables) (statement : SchemaStatement) :
    (statement.plan facts).outcome PolicyTables.write store = statement.whole facts store := by
  cases statement with
  | grantSchema request =>
    rw [SchemaStatement.whole, catalogGrantSchema_eq]
    simp only [SchemaStatement.plan, Statement.outcome, grantSchemaStatement]
    cases grantSchemaChecks facts store request with
    | error error => rfl
    | ok _ => rfl
  | revokeSchema role vcat path =>
    simp only [SchemaStatement.plan, SchemaStatement.whole, Statement.outcome, revokeSchemaStatement, writeWithReads,
      catalogRevokeSchema, outcomes]
    split <;> rfl
  | addSchemaAlias vcat path phys origin =>
    simp only [SchemaStatement.plan, SchemaStatement.whole, Statement.outcome, addSchemaAliasStatement,
      catalogAddSchemaAlias, refusePolicyStore]
    cases facts.policyStore phys with
    | some refusal => rfl
    | none => rfl
  | expandSchema vcat path phys =>
    simp only [SchemaStatement.plan, SchemaStatement.whole, Statement.outcome, expandSchemaStatement,
      catalogExpandSchema, catalogAddSchemaAlias, refusePolicyStore, expandNames]
    cases facts.policyStore phys with
    | some refusal => rfl
    | none =>
      cases objects : facts.physicalObjects phys with
      | none => rfl
      | some names =>
        cases facts.policyStore [] with
        | some refusal => rfl
        | none =>
          simp only [addSchema_outcomes, Option.getD_some, expandTransaction, writeWithReads, outcomes]
          cases NamePath.fromKey path with
          | none => rfl
          | some parts =>
            cases parts with
            | nil => rfl
            | cons head rest => rfl

/-- The statement on a database some of whose steps fail. -/
def SchemaStatement.run (facts : SchemaFacts) (fails : Failing Text) (statement : SchemaStatement) :
    Script PolicyTables Text Unit :=
  (statement.plan facts).run fails PolicyTables.write

/-- The statement is refused by its checks, or a step fails, before its first transaction has committed. -/
def FailsBeforeCommit (facts : SchemaFacts) (fails : Failing Text) (statement : SchemaStatement)
    (db : Database PolicyTables) : Prop :=
  ¬ (statement.plan facts).Passes fails db ∨
    StopsAtFirst fails (statement.plan facts).transactions db.tables (db.asked + (statement.plan facts).lookups)

/-- No step of its transactions fails and none of them finds a fault. -/
def NothingFails (facts : SchemaFacts) (fails : Failing Text) (statement : SchemaStatement)
    (db : Database PolicyTables) : Prop :=
  Completes fails PolicyTables.write (statement.plan facts).transactions db.tables
    (db.asked + (statement.plan facts).lookups)

/-- When nothing fails, a statement does what its model without faults says. -/
theorem run_whole (facts : SchemaFacts) (statement : SchemaStatement) (db : Database PolicyTables) :
    ((statement.run facts (fun _ => none) db).1.map fun _ => (statement.run facts (fun _ => none) db).2.tables) =
      statement.whole facts db.tables :=
  ((statement.plan facts).run_outcome db).trans (plan_outcome facts db.tables statement)

/-- A failing statement leaves every table and the version if and only if it fails before its first commit,
or nothing fails at all. -/
theorem failing_statement_unchanged_iff (facts : SchemaFacts) (fails : Failing Text) (statement : SchemaStatement)
    (db : Database PolicyTables) :
    UnchangedOnThrow (statement.run facts fails) db ↔
      FailsBeforeCommit facts fails statement db ∨ NothingFails facts fails statement db := by
  rw [SchemaStatement.run, Statement.unchanged_iff, FailsBeforeCommit, NothingFails, or_assoc]

/-- Nothing outside the policy stands in the way. -/
def plainFacts : SchemaFacts where
  physicalObjects := fun _ => some []
  typeFacts := fun _ => []
  createdBy := .null
  createdRoles := .null
  policyStore := fun _ => none
  namesManage := fun _ => .ok false
  physicalSchema := fun _ => true

/-- A store with no rows. -/
def noRows : PolicyTables where
  rows := fun _ => []
  own := fun _ _ absent => absurd absent List.not_mem_nil

/-- The disk is full when the rebuild begins: the ninth step committed the schema. -/
def fullAtRebuild : Failing Text := fun step => if step = 9 then some "disk full".toList else none

/-- The schema is stored and the version raised, and the statement fails. -/
theorem failed_rebuild_keeps_schema :
    ¬ UnchangedOnThrow ((SchemaStatement.addSchemaAlias "sales".toList "raw".toList "lake.raw".toList []).run
      plainFacts fullAtRebuild) ⟨noRows, 0, 0⟩ := by
  intro unchanged
  have kept := (unchanged "disk full".toList (by decide)).2
  revert kept
  decide

end DuckAcl.PolicyTables
