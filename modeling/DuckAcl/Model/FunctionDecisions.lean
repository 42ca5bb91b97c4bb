import Mathlib
import DuckAcl.Library.Memo
import DuckAcl.Library.Runs
import DuckAcl.Model.FunctionCategories

/-! # The cache of decisions on calls

`PolicyStore::ResolveFunction` (`acl_policy.cpp`) answers from a table of decisions of the model in force,
under a key of the roles, the name as it prints and the kind. A model is immutable; the policy swaps one in
for another, and a pointer tells which one a decision was made with. The models made so far are a list, and
a pointer is a place in it. A step is a locked section; the decision itself is computed outside the lock.
`print` is DuckDB's `QualifiedName::ToString`.
-/

namespace DuckAcl

/-- `FunctionDecisionCache::CAPACITY`. -/
def decisionCapacity : ℕ := 4096

/-- The key of a decision: the roles in order, the name and the kind. -/
def decisionKey (print : WrittenName → Text) (roles : List Text) (written : WrittenName) (kind : FunctionKind) : Text :=
  ['\x1e'].intercalate (roles.insertionSort (· ≤ ·)) ++ '\x1f' :: (print written ++ '\x1f' :: kind.text)

/-- A call of `ResolveFunction` with the model it took, before or after its look at the table. -/
structure ResolveCall where
  roles : List Text
  written : WrittenName
  kind : FunctionKind
  model : ℕ
  looked : Bool := false

/-- The models, the one in force, the table with the model it is of, and the calls in progress. What was
asked and what was answered is history. -/
structure DecisionStore where
  models : List FunctionCategoryModel := []
  current : ℕ := 0
  cached : Option ℕ := none
  decisions : Memo Text FunctionDecision := []
  calls : List ResolveCall := []
  asked : List ResolveCall := []
  answers : List (ResolveCall × FunctionDecision) := []

inductive DecisionEvent where
  /-- a new model is in force -/
  | swap (model : FunctionCategoryModel)
  /-- a model made before is in force again -/
  | back (model : ℕ)
  | ask (roles : List Text) (written : WrittenName) (kind : FunctionKind)
  | look (call : ℕ)
  | keep (call : ℕ)

namespace DecisionStore

variable (print : WrittenName → Text)

/-- The last section of a call: its decision goes into the table, which is emptied when it is another
model's, or full. -/
def keep (store : DecisionStore) (call : ResolveCall) (decision : FunctionDecision) : DecisionStore :=
  let decisions := if store.cached = some call.model then store.decisions else []
  { store with
    cached := some call.model
    decisions := (decisions.clearIfOversized (decisionCapacity - 1)).store
      (decisionKey print call.roles call.written call.kind) decision }

/-- One step. -/
def step (store : DecisionStore) : DecisionEvent → Option DecisionStore
  | .swap model => some { store with models := store.models ++ [model], current := store.models.length }
  | .back model => if model < store.models.length then some { store with current := model } else none
  | .ask roles written kind =>
    if store.current < store.models.length then
      let call := { roles, written, kind, model := store.current }
      some { store with calls := store.calls ++ [call], asked := store.asked ++ [call] }
    else none
  | .look index =>
    match store.calls[index]? with
    | none => none
    | some call =>
      if call.looked then none
      else
        match if store.cached = some call.model then
            store.decisions.find (decisionKey print call.roles call.written call.kind) else none with
        | some decision =>
          some { store with calls := store.calls.eraseIdx index, answers := store.answers ++ [(call, decision)] }
        | none => some { store with calls := store.calls.set index { call with looked := true } }
  | .keep index =>
    match store.calls[index]? with
    | none => none
    | some call =>
      if call.looked then
        match store.models[call.model]? with
        | none => none
        | some model =>
          let decision := model.resolve call.roles call.written call.kind
          some
            { store.keep print call decision with
              calls := store.calls.eraseIdx index, answers := store.answers ++ [(call, decision)] }
      else none

end DecisionStore

end DuckAcl
