import Mathlib.Data.List.Basic
import Mathlib.Logic.Function.Basic

/-! # Tables of rows

A store is a list of rows for each table. A statement deletes the rows of one table that match a test;
a transaction runs a list of them. What a transaction leaves of a table is what no statement on that
table matches, whatever the order.
-/

namespace DuckAcl

/-- The rows of each table. -/
abbrev Tables (τ ρ : Type) := τ → List ρ

/-- `DELETE FROM table WHERE hits`. -/
structure Deletion (τ ρ : Type) where
  table : τ
  hits : ρ → Bool

namespace Tables

variable {τ ρ : Type} [DecidableEq τ]

/-- Run one statement. -/
def delete (tables : Tables τ ρ) (deletion : Deletion τ ρ) : Tables τ ρ :=
  Function.update tables deletion.table ((tables deletion.table).filter fun row => !deletion.hits row)

/-- Run a transaction's statements in order. -/
def deleteAll (tables : Tables τ ρ) (deletions : List (Deletion τ ρ)) : Tables τ ρ :=
  deletions.foldl delete tables

/-- Some statement on the table matches the row. -/
def hitBy (deletions : List (Deletion τ ρ)) (table : τ) (row : ρ) : Bool :=
  deletions.any fun deletion => decide (deletion.table = table) && deletion.hits row

theorem delete_apply (tables : Tables τ ρ) (deletion : Deletion τ ρ) (table : τ) :
    tables.delete deletion table =
      (tables table).filter fun row => !(decide (deletion.table = table) && deletion.hits row) := by
  unfold delete
  by_cases same : deletion.table = table
  · subst same
    simp
  · rw [Function.update_of_ne (Ne.symm same)]
    simp [same]

/-- A transaction leaves of each table what none of its statements matches. -/
theorem deleteAll_apply (tables : Tables τ ρ) (deletions : List (Deletion τ ρ)) (table : τ) :
    tables.deleteAll deletions table = (tables table).filter fun row => !hitBy deletions table row := by
  induction deletions generalizing tables with
  | nil => simp [deleteAll, hitBy]
  | cons deletion rest ih =>
    have run : tables.deleteAll (deletion :: rest) table = (tables.delete deletion).deleteAll rest table := rfl
    rw [run, ih, delete_apply, List.filter_filter]
    apply List.filter_congr
    intro row _
    simp only [hitBy, List.any_cons, Bool.not_or, Bool.and_comm]

theorem mem_deleteAll {tables : Tables τ ρ} {deletions : List (Deletion τ ρ)} {table : τ} {row : ρ} :
    row ∈ tables.deleteAll deletions table ↔ row ∈ tables table ∧ hitBy deletions table row = false := by
  rw [deleteAll_apply, List.mem_filter, Bool.not_eq_true']

end Tables

end DuckAcl
