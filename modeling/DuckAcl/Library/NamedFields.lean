import Mathlib.Data.List.Find
import DuckAcl.Library.Text

/-! # Fields by name

The fields of a struct are a list of names with something at each. A name is looked up without case, and the first field
of a name answers. Updating fields replaces them in place and appends the new ones.
-/

namespace DuckAcl.NamedFields

variable {α : Type}

/-- What stands at a name. -/
def lookup (fields : List (Text × α)) (name : Text) : Option α :=
  (fields.find? fun field => Text.ciEquals field.1 name).map Prod.snd

/-- The fields with some replaced in place, and the new ones appended. -/
def updated (fields updates : List (Text × α)) : List (Text × α) :=
  fields.map (fun field => (field.1, (lookup updates field.1).getD field.2)) ++
    updates.filter fun update => (lookup fields update.1).isNone

theorem lookup_congr (fields : List (Text × α)) {name name' : Text} (same : Text.ciEquals name name' = true) :
    lookup fields name = lookup fields name' := by
  simp only [lookup, Text.ciEquals_congr_right same]

theorem lookup_append (first second : List (Text × α)) (name : Text) :
    lookup (first ++ second) name = (lookup first name).or (lookup second name) := by
  rw [lookup, List.find?_append, lookup, lookup]
  cases first.find? fun field => Text.ciEquals field.1 name <;> rfl

/-- An updated name has its update, and every other one what it had. -/
theorem lookup_updated (fields updates : List (Text × α)) (name : Text) :
    lookup (updated fields updates) name = (lookup updates name).or (lookup fields name) := by
  have kept : lookup (fields.map fun field => (field.1, (lookup updates field.1).getD field.2)) name =
      (fields.find? fun field => Text.ciEquals field.1 name).map fun field => (lookup updates field.1).getD field.2 := by
    rw [lookup, List.find?_map, Option.map_map]
    rfl
  rw [updated, lookup_append, kept]
  cases found : fields.find? fun field => Text.ciEquals field.1 name with
  | some field =>
    have same := List.find?_some found
    rw [Option.map_some, Option.some_or, lookup_congr updates same, lookup, lookup, found]
    cases updates.find? fun update => Text.ciEquals update.1 name <;> rfl
  | none =>
    have gone : lookup fields name = none := by rw [lookup, found, Option.map_none]
    have new : lookup (updates.filter fun update => (lookup fields update.1).isNone) name = lookup updates name := by
      rw [lookup, List.find?_filter, lookup]
      congr 1
      refine List.find?_congr fun update _ => ?_
      cases same : Text.ciEquals update.1 name with
      | false => simp
      | true => simp [lookup_congr fields same, gone]
    rw [Option.map_none, Option.none_or, new, gone, Option.or_none]

theorem lookup_cons_same {name : Text} {first : Text × α} (rest : List (Text × α)) (same : Text.ciEquals first.1 name = true) :
    lookup (first :: rest) name = some first.2 := by
  rw [lookup, List.find?_cons, same]
  rfl

theorem lookup_cons_other {name : Text} {first : Text × α} (rest : List (Text × α)) (other : Text.ciEquals first.1 name = false) :
    lookup (first :: rest) name = lookup rest name := by
  rw [lookup, List.find?_cons, other]
  rfl

end DuckAcl.NamedFields
