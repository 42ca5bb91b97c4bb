import DuckAcl.Library.NamedFields
import DuckAcl.Model.FieldNode

/-! # The value that is written into a narrowed column

`CompileWrite` writes the expression that a principal's value goes through on its way into a narrowed column, and
`CompileNode` the one that the column is read through (`acl_field_paths.hpp`). Here both are evaluated, with the engine's
`struct_extract`, `struct_update` and `struct_pack`, over values that may be NULL at any level.
-/

namespace DuckAcl

open NamedFields

/-- A value of a column. A list is one of the atoms. -/
inductive StructValue
  | null
  | atom (text : Text)
  | struct (fields : List (Text × StructValue))

/-- Why an expression has no value: it refuses (`error(…)`), or it does not bind. -/
inductive WriteError
  | refused
  | unbound
deriving DecidableEq, Repr

/-- What an expression evaluates to. -/
abbrev Evaluated := Except WriteError StructValue

namespace StructValue

/-- `IS NULL`. -/
def isNull : StructValue → Bool
  | .null => true
  | _ => false

/-- `struct_extract`: a field that the struct does not have does not bind. -/
def extract (value : StructValue) (name : Text) : Evaluated :=
  match value with
  | .null => .ok .null
  | .struct fields => match lookup fields name with
    | some field => .ok field
    | none => .error .unbound
  | .atom _ => .error .unbound

/-- `struct_update`; over a NULL struct it answers a struct. -/
def structUpdate (value : StructValue) (updates : List (Text × StructValue)) : Evaluated :=
  match value with
  | .null => .ok (.struct updates)
  | .struct fields => .ok (.struct (updated fields updates))
  | .atom _ => .error .unbound

/-- `struct_pack`, in the listed order. -/
def structPack (packed : List (Text × StructValue)) : Evaluated := .ok (.struct packed)

/-- The test of `CompileWrite` that a written struct has a field the node does not list (`struct_keys`, each key without
case). A NULL has no keys. -/
def foreign (value : StructValue) (names : List Text) : Except WriteError Bool :=
  match value with
  | .null => .ok false
  | .struct fields => .ok (fields.any fun field => !(names.map Text.fold).contains (Text.fold field.1))
  | .atom _ => .error .unbound

end StructValue

open StructValue

/-! ## Writes -/

mutual

/-- The value of `CompileWrite`'s expression; nothing is stored for an INSERT. -/
def writeNode (masks : Text → StructValue) (written : Evaluated) (stored : Option Evaluated) : FieldNode → Evaluated
  | ⟨_, whole, masked, mask, fields, _⟩ =>
    if masked then .ok (masks mask)
    else if whole then
      if fields.isEmpty then written
      else do
        let value ← written
        if value.isNull then .ok .null
        else value.structUpdate (← writeFields masks written stored fields)
    else do
      let value ← written
      if ← value.foreign (fields.map FieldNode.name) then .error .refused
      else match stored with
        | none => if value.isNull then .ok .null else structPack (← writeFields masks written none fields)
        | some stored => do
          let before ← stored
          -- a NULL stored struct has no hidden fields to keep; the test above stands in this form, too
          if before.isNull then
            if value.isNull then .ok .null else structPack (← writeFields masks written none fields)
          else before.structUpdate (← writeFields masks written (some stored) fields)

/-- The named arguments. -/
def writeFields (masks : Text → StructValue) (written : Evaluated) (stored : Option Evaluated) :
    List FieldNode → Except WriteError (List (Text × StructValue))
  | [] => .ok []
  | child :: rest => do
    let value ← writeNode masks (written.bind (extract · child.name))
      (stored.map fun stored => stored.bind (extract · child.name)) child
    return (child.name, value) :: (← writeFields masks written stored rest)

end

/-- An UPDATE's expression. -/
def updateValue (masks : Text → StructValue) (node : FieldNode) (written stored : StructValue) : Evaluated :=
  writeNode masks (.ok written) (some (.ok stored)) node

/-- An INSERT's expression. -/
def insertValue (masks : Text → StructValue) (node : FieldNode) (written : StructValue) : Evaluated :=
  writeNode masks (.ok written) none node

/-! ## Reads -/

mutual

/-- The value of a compiled read. -/
def readValue (masks : Text → StructValue) (value : Evaluated) : ReadExpr → Evaluated
  | .source => value
  | .mask text => .ok (masks text)
  | .listTransform _ => .error .unbound
  | .structUpdate updates => do
    let source ← value
    if source.isNull then .ok .null else source.structUpdate (← readFields masks value updates)
  | .structPack packed => do
    let source ← value
    if source.isNull then .ok .null else StructValue.structPack (← readFields masks value packed)

/-- The named arguments. -/
def readFields (masks : Text → StructValue) (value : Evaluated) :
    List (Text × ReadExpr) → Except WriteError (List (Text × StructValue))
  | [] => .ok []
  | (name, entry) :: rest => do
    let field ← readValue masks (value.bind (extract · name)) entry
    return (name, field) :: (← readFields masks value rest)

end

end DuckAcl
