import DuckAcl.Library.Outcome
import DuckAcl.Model.RenamedColumns

/-! # Renames touch the target's columns

A write maps the names of its target's columns onto the physical table and leaves those of the other relations it joins,
wherever `MapColumnRefs` is told the target's alias. The values of an UPDATE's SET list and a RETURNING are mapped
without it; there a reference of another relation comes out as written where no rename has its name.
-/

namespace DuckAcl

/-! ## One reference -/

/-- The relation that a reference is qualified by. -/
def qualifier (names : List Text) : Option Text := if 2 ≤ names.length then some (names.getD (names.length - 2) []) else none

/-- What `MapColumnRefs` makes of the names of a reference. -/
def mapReference (policy : TablePolicy) (vname targetAlias : Text) (names : List Text) : Except Refusal (List Text) :=
  match names.getLast? with
  | none => .ok names
  | some column =>
    if targetAlias ≠ [] ∧ (qualifier names).any (fun relation => !Text.ciEquals relation targetAlias) then .ok names
    else (mapWrittenColumn policy vname column).map fun physical => names.dropLast ++ [physical]

variable {policy : TablePolicy} {vname targetAlias : Text} {names : List Text}

private theorem mapColumnRefs_eq (expr : Expr) : mapColumnRefs policy vname targetAlias expr =
    expr.mapRefs fun origin names => (mapReference policy vname targetAlias names).map (Expr.columnRef origin) := by
  rw [mapColumnRefs]
  congr 1
  funext origin names
  rw [mapReference]
  cases names.getLast? with
  | none => rfl
  | some column =>
    have same : (qualifier names).any (fun relation => !Text.ciEquals relation targetAlias) = true ↔
        2 ≤ names.length ∧ Text.ciEquals (names.getD (names.length - 2) []) targetAlias = false := by
      rw [qualifier]
      split_ifs with long <;> simp [long]
    simp only [same]
    split_ifs
    · rfl
    · cases mapWrittenColumn policy vname column <;> rfl

mutual

private theorem mapRefs_columnRefs {ε : Type} (change : List Text → Except ε (List Text)) : ∀ expr : Expr,
    (expr.mapRefs fun origin names => (change names).map (Expr.columnRef origin)).map Expr.columnRefs = expr.columnRefs.mapM change
  | .absent | .constant _ | .positional _ => rfl
  | .columnRef origin names => by
    rw [Expr.mapRefs, Expr.columnRefs, List.mapM_cons, List.mapM_nil]
    cases change names <;> rfl
  | .star relation exclude replaced replace pattern => by
    rw [Expr.mapRefs, Expr.columnRefs, List.mapM_append, ← mapRefs_columnRefs change pattern, ← mapRefsList_columnRefs change replace]
    cases Expr.mapRefsList (fun origin names => (change names).map (Expr.columnRef origin)) replace with
    | error refusal => rfl
    | ok exprs => cases pattern.mapRefs fun origin names => (change names).map (Expr.columnRef origin) <;> rfl
  | .call operator args => by
    rw [Expr.mapRefs, Expr.columnRefs, ← mapRefsList_columnRefs change args]
    cases Expr.mapRefsList (fun origin names => (change names).map (Expr.columnRef origin)) args <;> rfl
  | .lambda params left right => by
    rw [Expr.mapRefs, Expr.columnRefs, List.mapM_append, ← mapRefs_columnRefs change left, ← mapRefs_columnRefs change right]
    cases left.mapRefs fun origin names => (change names).map (Expr.columnRef origin) with
    | error refusal => rfl
    | ok exprs => cases right.mapRefs fun origin names => (change names).map (Expr.columnRef origin) <;> rfl
  | .subquery operand query => by
    rw [Expr.mapRefs, Expr.columnRefs, ← mapRefs_columnRefs change operand]
    cases operand.mapRefs fun origin names => (change names).map (Expr.columnRef origin) <;> rfl

private theorem mapRefsList_columnRefs {ε : Type} (change : List Text → Except ε (List Text)) : ∀ exprs : List Expr,
    (Expr.mapRefsList (fun origin names => (change names).map (Expr.columnRef origin)) exprs).map Expr.columnRefsList =
      (Expr.columnRefsList exprs).mapM change
  | [] => rfl
  | expr :: exprs => by
    rw [Expr.mapRefsList, Expr.columnRefsList, List.mapM_append, ← mapRefs_columnRefs change expr,
      ← mapRefsList_columnRefs change exprs]
    cases expr.mapRefs fun origin names => (change names).map (Expr.columnRef origin) with
    | error refusal => rfl
    | ok first => cases Expr.mapRefsList (fun origin names => (change names).map (Expr.columnRef origin)) exprs <;> rfl

end

/-- An expression is mapped reference by reference, or refused where one of them is. -/
theorem mapColumnRefs_columnRefs (expr : Expr) : (mapColumnRefs policy vname targetAlias expr).map Expr.columnRefs =
    expr.columnRefs.mapM (mapReference policy vname targetAlias) := by
  rw [mapColumnRefs_eq, mapRefs_columnRefs]

/-! ## The columns of the target -/

/-- The physical columns behind a written name: a rename's, and the one of that name where no rename took it. -/
def StandsFor (policy : TablePolicy) (table : List Text) (written physical : Text) : Prop :=
  (∃ rename ∈ policy.renames, Text.ciEquals rename.1 written = true ∧ physical = rename.2) ∨
    (∃ column ∈ table, Text.ciEquals column written = true) ∧ (∀ rename ∈ policy.renames, Text.ciEquals rename.2 written = false) ∧
      physical = written

/-- No rename changes the name. -/
def Untouched (policy : TablePolicy) (column : Text) : Prop :=
  (∀ rename, policy.renames.find? (fun rename => Text.ciEquals rename.1 column) = some rename → rename.2 = column) ∧
    (policy.renames.find? (fun rename => Text.ciEquals rename.1 column) = none →
      ∀ rename ∈ policy.renames, Text.ciEquals rename.2 column = false)

theorem mapWrittenColumn_untouched {column : Text} :
    mapWrittenColumn policy vname column = .ok column ↔ Untouched policy column := by
  rw [mapWrittenColumn, Untouched]
  cases found : policy.renames.find? fun rename => Text.ciEquals rename.1 column with
  | some rename => simp
  | none =>
    simp only [reduceCtorEq, false_implies, implies_true, true_and, forall_const]
    split_ifs with taken
    · refine iff_of_false (fun impossible => by cases impossible) fun free => ?_
      obtain ⟨rename, inside, same⟩ := List.any_eq_true.mp taken
      rw [free rename inside] at same
      cases same
    · refine iff_of_true rfl fun rename inside => ?_
      rw [Bool.eq_false_iff]
      exact fun same => taken (List.any_eq_true.mpr ⟨rename, inside, same⟩)

/-- A name with one physical column behind it is mapped to that column. -/
theorem mapWrittenColumn_standsFor {table : List Text} {column physical : Text} (stands : StandsFor policy table column physical)
    (only : ∀ other, StandsFor policy table column other → other = physical) :
    mapWrittenColumn policy vname column = .ok physical := by
  rw [mapWrittenColumn]
  cases found : policy.renames.find? fun rename => Text.ciEquals rename.1 column with
  | some rename =>
    have same := List.find?_some found
    exact congrArg Except.ok (only rename.2 (.inl ⟨rename, List.mem_of_find?_eq_some found, same, rfl⟩))
  | none =>
    rcases stands with ⟨rename, inside, same, _⟩ | ⟨_, free, rfl⟩
    · have other := List.find?_eq_none.mp found rename inside
      exact absurd same other
    · have untaken : (policy.renames.any fun rename => Text.ciEquals rename.2 physical) = false := by
        rw [List.any_eq_false]
        intro rename inside
        rw [free rename inside]
        exact Bool.false_ne_true
      simp only [untaken, Bool.false_eq_true, if_false]

theorem mapReference_unaliased {column : Text} (last : names.getLast? = some column) : mapReference policy vname [] names =
    (mapWrittenColumn policy vname column).map fun physical => names.dropLast ++ [physical] := by
  rw [mapReference, last]
  simp

theorem mapReference_foreign {relation : Text} (aliased : targetAlias ≠ []) (qualified : qualifier names = some relation)
    (other : Text.ciEquals relation targetAlias = false) : mapReference policy vname targetAlias names = .ok names := by
  rw [mapReference]
  cases names.getLast? with
  | none => rfl
  | some column => simp [aliased, qualified, other]

theorem mapReference_own (own : ∀ relation, qualifier names = some relation → Text.ciEquals relation targetAlias = true) :
    mapReference policy vname targetAlias names = mapReference policy vname [] names := by
  rw [mapReference, mapReference]
  cases names.getLast? with
  | none => rfl
  | some column =>
    have no : (qualifier names).any (fun relation => !Text.ciEquals relation targetAlias) = false := by
      cases qualified : qualifier names with
      | none => rfl
      | some relation => simp [own relation qualified]
    simp [no]

theorem mapReference_untouched {column : Text} (last : names.getLast? = some column) :
    mapReference policy vname [] names = .ok names ↔ Untouched policy column := by
  have whole : names = names.dropLast ++ [column] := (List.dropLast_append_getLast? column last).symm
  rw [mapReference_unaliased last, ← @mapWrittenColumn_untouched policy vname column]
  cases mapWrittenColumn policy vname column with
  | error refusal => exact iff_of_false (fun impossible => by cases impossible) (fun impossible => by cases impossible)
  | ok physical =>
    constructor
    · intro same
      have same : names.dropLast ++ [physical] = names := Except.ok.inj same
      rw [whole, List.dropLast_concat, List.append_right_inj, List.singleton_inj] at same
      rw [same]
    · intro same
      rw [Except.ok.inj same]
      exact congrArg Except.ok whole.symm

/-! ## Whole writes -/

private theorem mapM_map {α β γ ε : Type} {step : α → Except ε β} {view : β → γ} {seen : α → Except ε γ} {list : List α}
    (each : ∀ item ∈ list, (step item).map view = seen item) : (list.mapM step).map (List.map view) = list.mapM seen := by
  induction list with
  | nil => rfl
  | cons item rest ih =>
    have later := ih fun other member => each other (List.mem_cons_of_mem _ member)
    rw [List.mapM_cons, List.mapM_cons, ← each item List.mem_cons_self, ← later]
    cases step item with
    | error refusal => rfl
    | ok answer => cases rest.mapM step <;> rfl

namespace QueryBody

/-- A write maps each of its references by itself, and goes through where none is refused. -/
theorem mapColumns_columnRefs (body : QueryBody) :
    (body.mapColumns policy vname).map (List.map fun call => call.expr.columnRefs) =
      body.calls.mapM fun call => call.expr.columnRefs.mapM (mapReference policy vname call.targetAlias) := by
  refine mapM_map fun call _ => ?_
  rw [← mapColumnRefs_columnRefs]
  cases mapColumnRefs policy vname call.targetAlias call.expr <;> rfl

/-- The names of the target's own rows: an INSERT also has the rows it could not insert. -/
def rowNames (body : QueryBody) : List Text :=
  body.target :: match body with
    | .insert _ => ["excluded".toList]
    | _ => []

/-- A reference that another relation of the write qualifies. -/
def Foreign (body : QueryBody) (names : List Text) : Prop :=
  ∃ relation, qualifier names = some relation ∧ (∀ row ∈ body.rowNames, Text.ciEquals relation row = false) ∧
    ∃ other ∈ body.others, Text.ciEquals relation other = true

/-- A reference that the target qualifies, or an unqualified one to a name that no other relation has. -/
def Own (columnsOf : Text → List Text) (body : QueryBody) (names : List Text) : Prop :=
  (∃ relation, qualifier names = some relation ∧ ∃ row ∈ body.rowNames, Text.ciEquals relation row = true) ∨
    ∃ column, names = [column] ∧ ∀ other ∈ body.others, ∀ name ∈ columnsOf other, Text.ciEquals name column = false

/-- Renames touch only the target's columns: a reference of another relation comes out as written, one of the target
comes out with the physical column of its name, and the same reference comes out the same in every place. -/
structure TouchesTarget (policy : TablePolicy) (vname : Text) (table : List Text) (columnsOf : Text → List Text)
    (body : QueryBody) : Prop where
  foreign : ∀ call ∈ body.calls, ∀ names ∈ call.expr.columnRefs, body.Foreign names →
    mapReference policy vname call.targetAlias names = .ok names
  own : ∀ call ∈ body.calls, ∀ names ∈ call.expr.columnRefs, body.Own columnsOf names → ∀ column ∈ names.getLast?,
    ∀ physical, StandsFor policy table column physical → (∀ other, StandsFor policy table column other → other = physical) →
      mapReference policy vname call.targetAlias names = .ok (names.dropLast ++ [physical])
  alike : ∀ call ∈ body.calls, ∀ other ∈ body.calls, ∀ names ∈ call.expr.columnRefs, names ∈ other.expr.columnRefs →
    mapReference policy vname call.targetAlias names = mapReference policy vname other.targetAlias names

/-- Where the alias is not told, no rename has the name of a reference that is another relation's, or that is left as it
is in another place. -/
def LeavesForeign (policy : TablePolicy) (body : QueryBody) : Prop :=
  ∀ call ∈ body.calls, call.targetAlias = [] → ∀ names ∈ call.expr.columnRefs,
    (body.Foreign names ∨ (∃ relation, qualifier names = some relation ∧ Text.ciEquals relation body.target = false) ∧
      ∃ other ∈ body.calls, other.targetAlias ≠ [] ∧ names ∈ other.expr.columnRefs) →
    ∀ column ∈ names.getLast?, Untouched policy column

/-- `COLUMNS (order_id = id, total = amount)`. -/
def renamedOrders : TablePolicy :=
  { renames := [("order_id".toList, "id".toList), ("total".toList, "amount".toList)] }

/-- `UPDATE renamed SET total = feed.id FROM feed WHERE renamed.order_id = feed.id`. -/
def updateFromFeed : QueryBody :=
  .update ⟨⟨["renamed".toList], []⟩, .base .written ["feed".toList] [] .absent,
    ⟨["total".toList], [.columnRef .written ["feed".toList, "id".toList]],
      .call (.other "=".toList) [.columnRef .written ["renamed".toList, "order_id".toList],
        .columnRef .written ["feed".toList, "id".toList]]⟩, []⟩

end QueryBody

end DuckAcl
