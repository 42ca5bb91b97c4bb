import DuckAcl.Model.ExposedTypes
import DuckAcl.Model.FieldAccess
import DuckAcl.Model.GrantPolicy

/-! # The type a listing shows

A listing shows the type a principal reads of a column: the roles' column lists are folded as a read folds them, and the
united tree is projected over the source's type (`ProjectedType` in `acl_field_paths.hpp`, `acl_listed_type` in
`acl_types.cpp`). How a text reads as a type and how a mask parses are the engine's.
-/

namespace DuckAcl

namespace LogicalType

/-- `SQLNULL`. -/
def sqlNull : LogicalType := .scalar (.other "NULL".toList) []

/-- `IsNested`. -/
def isNested : LogicalType → Bool
  | .nested _ _ _ => true
  | _ => false

/-- `StructType::GetChildTypes`, of a STRUCT. -/
def structFields : LogicalType → Option (List (Text × LogicalType))
  | .nested (.struct names) children _ => some (List.ofFn fun i : Fin names.length => (names.get i, children i))
  | _ => none

theorem arity_struct (fields : List (Text × LogicalType)) :
    (NestedKind.struct (fields.map Prod.fst)).arity = fields.length := List.length_map _

/-- `LogicalType::STRUCT`. -/
def structOf (fields : List (Text × LogicalType)) : LogicalType :=
  .nested (.struct (fields.map Prod.fst)) (fun i => (fields.get (i.cast (arity_struct fields))).2) []

/-- The child of a LIST or an ARRAY. -/
def elementType : LogicalType → Option LogicalType
  | .nested .list children _ => some (children ⟨0, Nat.one_pos⟩)
  | .nested (.array _) children _ => some (children ⟨0, Nat.one_pos⟩)
  | _ => none

/-- `LogicalType::LIST`. -/
def listOf (child : LogicalType) : LogicalType := .nested .list (fun _ => child) []

/-- The first field of a name. -/
def fieldType (fields : List (Text × LogicalType)) (name : Text) : Option LogicalType :=
  (fields.find? fun field => Text.ciEquals field.1 name).map Prod.snd

end LogicalType

open LogicalType

/-! ## Projected types -/

/-- One child of a whole struct: projected where the tree names it. -/
def keptChild (path : Text) (project : Option (LogicalType → Text → Except BinderException LogicalType))
    (child : Text × LogicalType) : Except BinderException (Text × LogicalType) :=
  match project with
  | some project => do return (child.1, ← project child.2 (path ++ stepText (.field child.1)))
  | none => .ok child

mutual

/-- `ProjectedType`: what `mask_type` throws, it throws. -/
def projectedType (maskType : Text → Except BinderException LogicalType) :
    FieldNode → LogicalType → Text → Except BinderException LogicalType
  | ⟨_, whole, masked, _, fields, element⟩, source, path =>
    if masked then maskType path
    else match element with
      | some child => match source.elementType with
        | some inner => do return listOf (← projectedType maskType child inner (path ++ stepText .element))
        | none => .ok source
      | none => match source.structFields with
        | none => .ok source
        | some children =>
          if fields.isEmpty then .ok source
          else if whole then do
            let kept ← children.mapM fun child => keptChild path (projectedField maskType child.1 fields) child
            -- a mask whose field left the source is appended
            let added ← (fields.filter fun field => (fieldType children field.name).isNone && field.masked).mapM
              fun field => do return (field.name, ← maskType (path ++ stepText (.field field.name)))
            return structOf (kept ++ added)
          else do return structOf (← packedFields maskType children path fields)

/-- How the first field of a name is projected. -/
def projectedField (maskType : Text → Except BinderException LogicalType) (name : Text) :
    List FieldNode → Option (LogicalType → Text → Except BinderException LogicalType)
  | [] => none
  | field :: rest =>
    if Text.ciEquals field.name name then some (projectedType maskType field) else projectedField maskType name rest

/-- The fields of a packed struct; one that the source no longer has is left out, unless it is masked. -/
def packedFields (maskType : Text → Except BinderException LogicalType) (children : List (Text × LogicalType)) (path : Text) :
    List FieldNode → Except BinderException (List (Text × LogicalType))
  | [] => .ok []
  | field :: rest => match fieldType children field.name with
    | none =>
      if field.masked then do
        let type ← maskType (path ++ stepText (.field field.name))
        return (field.name, type) :: (← packedFields maskType children path rest)
      else packedFields maskType children path rest
    | some type => do
      let projected ← projectedType maskType field type (path ++ stepText (.field field.name))
      return (field.name, projected) :: (← packedFields maskType children path rest)

end

/-! ## What a compiled read has -/

namespace ReadExpr

/-- The fields of an updated struct: replaced in place, and the new ones appended. -/
def updatedFields (children types : List (Text × LogicalType)) : List (Text × LogicalType) :=
  children.map (fun child => (child.1, (fieldType types child.1).getD child.2)) ++
    types.filter fun type => (fieldType children type.1).isNone

mutual

/-- The type of an expression over a value, if both bind: a packed struct has its fields in the listed order, a
transformed list is a LIST, and `CASE WHEN … IS NULL` keeps the type of its other branch. -/
def typeOf (masks : Text → LogicalType) : ReadExpr → Option LogicalType → Option LogicalType
  | .source, value => value
  | .mask text, _ => some (masks text)
  | .listTransform element, value => do
    let inner ← elementType (← value)
    return listOf (← typeOf masks element (some inner))
  | .structUpdate updates, value => do
    let children ← structFields (← value)
    return structOf (updatedFields children (← typesOf masks updates value))
  | .structPack packed, value => do
    let _ ← value
    if packed.isEmpty then none else return structOf (← typesOf masks packed value)

/-- The types of named arguments; each is compiled over the value's field of its name. -/
def typesOf (masks : Text → LogicalType) : List (Text × ReadExpr) → Option LogicalType → Option (List (Text × LogicalType))
  | [], _ => some []
  | (name, entry) :: rest, value => do
    let type ← typeOf masks entry ((value.bind structFields).bind fun children => fieldType children name)
    return (name, type) :: (← typesOf masks rest value)

end

end ReadExpr

/-! ## Mask types -/

/-- `NodeAt`. -/
def nodeAt (tree : FieldNode) (path : Text) : Option FieldNode :=
  match parseFieldPath ('x' :: path) with
  | .ok parsed => parsed.steps.foldlM FieldNode.child tree
  | .error _ => none

/-- One step of `TypeAtPath`. -/
def stepType (type : LogicalType) : Step → Option LogicalType
  | .element => type.elementType
  | .field name => type.structFields.bind fun children => fieldType children name

/-- `TypeAtPath`. -/
def typeAtPath (type : LogicalType) (path : Text) : Option LogicalType :=
  match parseFieldPath ('x' :: path) with
  | .ok parsed => parsed.steps.foldlM stepType type
  | .error _ => none

/-- What a mask's text is. -/
inductive MaskForm
  | constant (type : LogicalType)
  | cast (target : Text)
  | other

/-- The engine, as far as a listing asks it: how a text reads as a type, how a type prints, and what a mask is. -/
structure TypeEngine where
  bindType : Text → Except BinderException LogicalType
  print : LogicalType → Text
  parseMask : Text → Except BinderException MaskForm

/-- A role's lists, and the type its own projection was probed to (empty for none). -/
structure RoleLists where
  catalog : Text
  object : Text
  probed : Text

namespace TypeEngine

/-- The mask a role puts at a path. -/
def ownMask (own : Option FieldNode × Text) (path : Text) : Option Text :=
  ((own.1.bind fun tree => nodeAt tree path).filter FieldNode.masked).map FieldNode.mask

/-- The first loop of `mask_type`: the first probe that has the position. -/
def probedMask (engine : TypeEngine) (path : Text) :
    List (Option FieldNode × Text) → Except BinderException (Option LogicalType)
  | [] => .ok none
  | own :: rest =>
    if (ownMask own path).isSome ∧ own.2 ≠ [] then do
      match typeAtPath (← engine.bindType own.2) path with
      | some probed => return some probed
      | none => probedMask engine path rest
    else probedMask engine path rest

/-- The second loop: what the first mask's own text says. A mask that reads columns has the source's type where
that names no field. -/
def writtenMask (engine : TypeEngine) (source : LogicalType) (path : Text) :
    List (Option FieldNode × Text) → Except BinderException LogicalType
  | [] => .ok sqlNull
  | own :: rest => match ownMask own path with
    | none => writtenMask engine source path rest
    | some mask => do
      match ← engine.parseMask mask with
      | .constant type => return type
      | .cast target => engine.bindType target
      | .other => return ((typeAtPath source path).filter fun type => !type.isNested).getD sqlNull

/-- `mask_type`. -/
def maskType (engine : TypeEngine) (own : List (Option FieldNode × Text)) (source : LogicalType) (path : Text) :
    Except BinderException LogicalType := do
  match ← engine.probedMask path own with
  | some probed => return probed
  | none => engine.writtenMask source path own

/-! ## Listed types -/

/-- One role: its lists narrow, its policy is united with the others', and its own tree of the column is kept. -/
def addRole (name : Text) (before : GrantUnion × List (Option FieldNode × Text)) (role : RoleLists) :
    Except BinderException (GrantUnion × List (Option FieldNode × Text)) := do
  let policy ← ({} : GrantPolicy).narrow [] role.catalog true
  let policy ← policy.narrow [] role.object true
  let grants ← before.1.add policy
  let trees ← ColumnTrees.fromItems policy.columns
  return (grants, before.2 ++ [(trees.find name, role.probed)])

/-- The row's answer where nothing is thrown. -/
def listedAnswer (engine : TypeEngine) (sourceText name : Text) (roles : List RoleLists) : Except BinderException (Option Text) := do
  let source ← engine.bindType sourceText
  let (grants, own) ← roles.foldlM (addRole name) ({}, [])
  if grants.restricts = false then return some sourceText
  let united ← ColumnTrees.fromItems grants.columns
  match united.find name with
  | none => return none
  | some node => return some (engine.print (← projectedType (engine.maskType own source) node source []))

/-- `ListedTypeFunc`, on a row. What is thrown is answered as the NULL type. -/
def listedType (engine : TypeEngine) (sourceText column : Option Text) (roles : Option (List RoleLists)) : Option Text :=
  match sourceText, column, roles with
  | some source, some name, some lists =>
    match engine.listedAnswer source name lists with
    | .ok answer => answer
    | .error _ => some (engine.print sqlNull)
  | _, _, _ => sourceText

end TypeEngine

end DuckAcl
