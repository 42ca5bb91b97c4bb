import DuckAcl.Library.Text

/-! # Predicates written as text

A row qualifies under a predicate whose outcome is TRUE, not under one that is FALSE or NULL. A grammar
of predicates says which texts are an operand in parentheses, a chain of conjunctions, a chain of
disjunctions or a whole expression, and what the outcome of each is; nothing else is known of an
expression, whose operators may bind as they like.
-/

namespace DuckAcl

/-- The outcome of a predicate on a row: TRUE, FALSE, or neither. -/
abbrev Outcome3 := Option Bool

namespace Outcome3

/-- `AND` of SQL. -/
def and : Outcome3 → Outcome3 → Outcome3
  | some false, _ => some false
  | _, some false => some false
  | some true, some true => some true
  | _, _ => none

/-- `OR` of SQL. -/
def or : Outcome3 → Outcome3 → Outcome3
  | some true, _ => some true
  | _, some true => some true
  | some false, some false => some false
  | _, _ => none

theorem and_eq_true {first second : Outcome3} : and first second = some true ↔ first = some true ∧ second = some true := by
  rcases first with _ | _ | _ <;> rcases second with _ | _ | _ <;> simp [and]

theorem or_eq_true {first second : Outcome3} : or first second = some true ↔ first = some true ∨ second = some true := by
  rcases first with _ | _ | _ <;> rcases second with _ | _ | _ <;> simp [or]

end Outcome3

/-- How tightly a predicate text binds. -/
inductive Tightness where
  | primary
  | conjunction
  | disjunction
deriving DecidableEq, Repr

/-- The text in parentheses. -/
def parenthesised (text : Text) : Text := '(' :: text ++ [')']

/-- The rules of predicate texts: an expression in parentheses is an operand, `AND` takes operands and
binds tighter than `OR`, and what either makes is an expression again. -/
structure PredicateGrammar {ρ : Type} (expression : Text → Prop) (value : Text → ρ → Outcome3) where
  binds : Tightness → Text → Prop
  parentheses : ∀ {text}, expression text → binds .primary (parenthesised text)
  value_parentheses : ∀ {text}, expression text → ∀ row, value (parenthesised text) row = value text row
  operand : ∀ {text}, binds .primary text → binds .conjunction text
  chain : ∀ {text}, binds .conjunction text → binds .disjunction text
  whole : ∀ {text}, binds .disjunction text → expression text
  conjoin : ∀ {first second}, binds .conjunction first → binds .primary second →
    binds .conjunction (first ++ " AND ".toList ++ second)
  value_conjoin : ∀ {first second}, binds .conjunction first → binds .primary second → ∀ row,
    value (first ++ " AND ".toList ++ second) row = (value first row).and (value second row)
  disjoin : ∀ {first second}, binds .disjunction first → binds .conjunction second →
    binds .disjunction (first ++ " OR ".toList ++ second)
  value_disjoin : ∀ {first second}, binds .disjunction first → binds .conjunction second → ∀ row,
    value (first ++ " OR ".toList ++ second) row = (value first row).or (value second row)

namespace PredicateGrammar

variable {ρ : Type} {expression : Text → Prop} {value : Text → ρ → Outcome3}

/-- A joined list is its first part, then each other one after a separator. -/
theorem intercalate_cons (separator first : Text) (rest : List Text) :
    separator.intercalate (first :: rest) = rest.foldl (fun joined part => joined ++ separator ++ part) first := by
  have step : ∀ (joined : Text) (parts : List Text),
      parts.foldl (fun joined part => joined ++ separator ++ part) joined =
        joined ++ (parts.map (separator ++ ·)).flatten := by
    intro joined parts
    simp only [List.append_assoc, List.foldl_append_eq_append]
  rw [step]
  induction rest generalizing first with
  | nil => simp [List.intercalate]
  | cons part rest ih =>
    rw [List.map_cons, List.flatten_cons, List.append_assoc, ← ih part]
    simp [List.intercalate]

/-- Expressions in parentheses, joined by `AND`: one expression, true where all of them are. -/
theorem conjunction (grammar : PredicateGrammar expression value) {first : Text} {rest : List Text}
    (expressions : ∀ text ∈ first :: rest, expression text) :
    expression (" AND ".toList.intercalate ((first :: rest).map parenthesised)) ∧
      ∀ row, value (" AND ".toList.intercalate ((first :: rest).map parenthesised)) row = some true ↔
        ∀ text ∈ first :: rest, value text row = some true := by
  have folded : ∀ (parts : List Text) (joined : Text), (∀ text ∈ parts, expression text) →
      grammar.binds .conjunction joined →
      grammar.binds .conjunction ((parts.map parenthesised).foldl (fun joined part => joined ++ " AND ".toList ++ part) joined) ∧
        ∀ row, value ((parts.map parenthesised).foldl (fun joined part => joined ++ " AND ".toList ++ part) joined) row =
          some true ↔ value joined row = some true ∧ ∀ text ∈ parts, value text row = some true := by
    intro parts
    induction parts with
    | nil => exact fun joined _ binds => ⟨binds, by simp⟩
    | cons part parts ih =>
      intro joined expressions binds
      have here := expressions part List.mem_cons_self
      have operand := grammar.parentheses here
      obtain ⟨whole, outcome⟩ := ih _ (fun text member => expressions text (List.mem_cons_of_mem _ member))
        (grammar.conjoin binds operand)
      refine ⟨whole, fun row => ?_⟩
      rw [List.map_cons, List.foldl_cons, outcome, grammar.value_conjoin binds operand, Outcome3.and_eq_true,
        grammar.value_parentheses here]
      simp only [List.forall_mem_cons, and_assoc]
  have here := expressions first List.mem_cons_self
  obtain ⟨binds, outcome⟩ := folded rest _ (fun text member => expressions text (List.mem_cons_of_mem _ member))
    (grammar.operand (grammar.parentheses here))
  rw [List.map_cons, intercalate_cons]
  refine ⟨grammar.whole (grammar.chain binds), fun row => ?_⟩
  rw [outcome, grammar.value_parentheses here, List.forall_mem_cons]

/-- Expressions in parentheses, joined by `OR`: one expression, true where one of them is. -/
theorem disjunction (grammar : PredicateGrammar expression value) {first : Text} {rest : List Text}
    (expressions : ∀ text ∈ first :: rest, expression text) :
    expression (" OR ".toList.intercalate ((first :: rest).map parenthesised)) ∧
      ∀ row, value (" OR ".toList.intercalate ((first :: rest).map parenthesised)) row = some true ↔
        ∃ text ∈ first :: rest, value text row = some true := by
  have folded : ∀ (parts : List Text) (joined : Text), (∀ text ∈ parts, expression text) →
      grammar.binds .disjunction joined →
      grammar.binds .disjunction ((parts.map parenthesised).foldl (fun joined part => joined ++ " OR ".toList ++ part) joined) ∧
        ∀ row, value ((parts.map parenthesised).foldl (fun joined part => joined ++ " OR ".toList ++ part) joined) row =
          some true ↔ value joined row = some true ∨ ∃ text ∈ parts, value text row = some true := by
    intro parts
    induction parts with
    | nil => exact fun joined _ binds => ⟨binds, by simp⟩
    | cons part parts ih =>
      intro joined expressions binds
      have here := expressions part List.mem_cons_self
      have operand := grammar.operand (grammar.parentheses here)
      obtain ⟨whole, outcome⟩ := ih _ (fun text member => expressions text (List.mem_cons_of_mem _ member))
        (grammar.disjoin binds operand)
      refine ⟨whole, fun row => ?_⟩
      rw [List.map_cons, List.foldl_cons, outcome, grammar.value_disjoin binds operand, Outcome3.or_eq_true,
        grammar.value_parentheses here]
      simp only [List.exists_mem_cons_iff, or_assoc]
  have here := expressions first List.mem_cons_self
  obtain ⟨binds, outcome⟩ := folded rest _ (fun text member => expressions text (List.mem_cons_of_mem _ member))
    (grammar.chain (grammar.operand (grammar.parentheses here)))
  rw [List.map_cons, intercalate_cons]
  refine ⟨grammar.whole binds, fun row => ?_⟩
  rw [outcome, grammar.value_parentheses here, List.exists_mem_cons_iff]

end PredicateGrammar

end DuckAcl
