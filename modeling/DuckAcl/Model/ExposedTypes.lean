import Mathlib.Data.Fintype.Basic
import DuckAcl.Library.Text

/-! # Exposed types

The type a column is exposed as (`acl_types.cpp`): extension aliases are read as their base types, and ENUMs as
VARCHAR. A nested type is built again when the printed text of one of its children changes. How a type prints is
the engine's (`LogicalType::ToString`).
-/

namespace DuckAcl

/-- The types without parameters, of which the code names one. -/
inductive ScalarId
  | varchar
  | other (name : Text)
  deriving DecidableEq, Repr

/-- The kinds of nested types, with the names of their fields and their sizes. -/
inductive NestedKind
  | struct (fields : List Text)
  | union (members : List Text)
  | map
  | list
  | array (size : ℕ)
  deriving DecidableEq, Repr

namespace NestedKind

/-- How many child types there are. A map has a key type and a value type. -/
def arity : NestedKind → ℕ
  | .struct fields => fields.length
  | .union members => members.length
  | .map => 2
  | .list => 1
  | .array _ => 1

end NestedKind

/-- A logical type. An empty alias is none. -/
inductive LogicalType
  | scalar (id : ScalarId) (aliased : Text)
  | decimal (width scale : ℕ) (aliased : Text)
  | enum (labels : List Text) (aliased : Text)
  | nested (kind : NestedKind) (children : Fin kind.arity → LogicalType) (aliased : Text)

namespace LogicalType

/-- `JSON_TYPE_NAME`. -/
def jsonName : Text := "JSON".toList

/-- `GetAlias`. -/
def getAlias : LogicalType → Text
  | .scalar _ aliased => aliased
  | .decimal _ _ aliased => aliased
  | .enum _ aliased => aliased
  | .nested _ _ aliased => aliased

/-- `WithAlias` of an empty text. -/
def withoutAlias : LogicalType → LogicalType
  | .scalar id _ => .scalar id []
  | .decimal width scale _ => .decimal width scale []
  | .enum labels _ => .enum labels []
  | .nested kind children _ => .nested kind children []

/-- `IsJSONType`: a VARCHAR of that alias. -/
def isJson : LogicalType → Bool
  | .scalar .varchar aliased => aliased = jsonName
  | _ => false

/-- `BaseOf`: the base type of a leaf that carries an alias. -/
def baseOf : LogicalType → LogicalType
  | .decimal width scale _ => .decimal width scale []
  | .enum labels aliased => (LogicalType.enum labels aliased).withoutAlias
  | .scalar id _ => .scalar id []
  | .nested kind children aliased => .nested kind children aliased

/-- The last step of `ExposedType`: a type left alone keeps its alias unless aliases are what is stripped. -/
def stripped (stripAlias : Bool) (type : LogicalType) : LogicalType :=
  if stripAlias && decide (type.getAlias ≠ []) && !type.isJson then
    match type with
    | .nested _ _ _ => type.withoutAlias
    | _ => type.baseOf
  else type

/-- `ExposedType`, by what the engine prints of a type. -/
def exposedType (print : LogicalType → Text) (stripAlias enumsToVarchar : Bool) : LogicalType → LogicalType
  | .enum labels aliased =>
    if enumsToVarchar then .scalar .varchar [] else stripped stripAlias (.enum labels aliased)
  | .nested kind children aliased =>
    if ∃ child, print (exposedType print stripAlias enumsToVarchar (children child)) ≠ print (children child) then
      .nested kind (fun child => exposedType print stripAlias enumsToVarchar (children child)) []
    else stripped stripAlias (.nested kind children aliased)
  | .scalar id aliased => stripped stripAlias (.scalar id aliased)
  | .decimal width scale aliased => stripped stripAlias (.decimal width scale aliased)

end LogicalType

end DuckAcl
