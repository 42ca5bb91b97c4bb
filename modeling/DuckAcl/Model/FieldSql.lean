import DuckAcl.Model.FieldNode

/-! # Field trees as SQL

The expressions a field tree is compiled into (`acl_field_paths.hpp`): what a role reads of a value,
and what it may put into a stored one.
-/

namespace DuckAcl

/-- `FieldOf`. -/
def fieldOf (value name : Text) : Text :=
  "struct_extract(".toList ++ value ++ ", '".toList ++ Text.double '\'' name ++ "')".toList

/-- `QuotedName`. -/
def quotedName (name : Text) : Text := '"' :: Text.double '"' name ++ ['"']

/-- `StringUtil::Join` with a comma. -/
def joinComma (parts : List Text) : Text := ", ".toList.intercalate parts

/-- `to_string` of a depth. -/
def depthText (depth : Nat) : Text := (toString depth).toList

/-- A NULL struct stays NULL. -/
def unlessNull (value body : Text) : Text :=
  "CASE WHEN ".toList ++ value ++ " IS NULL THEN NULL ELSE ".toList ++ body ++ " END".toList

mutual

/-- `CompileNode`: the value a tree lets the role read, over `value`. -/
def compileNodeSql (value : Text) (depth : Nat) : FieldNode → Text
  | ⟨_, whole, masked, mask, fields, element⟩ =>
    if masked then mask
    else match element with
      | some child =>
        let lambda := "__acl_e".toList ++ depthText depth
        "list_transform(".toList ++ value ++ ", lambda ".toList ++ lambda ++ ": ".toList ++
          compileNodeSql lambda (depth + 1) child ++ [')']
      | none =>
        if whole then
          if fields.isEmpty then value
          else unlessNull value ("struct_update(".toList ++ value ++ ", ".toList ++
            joinComma (compileFieldsSql value depth fields) ++ [')'])
        else unlessNull value ("struct_pack(".toList ++ joinComma (compileFieldsSql value depth fields) ++ [')'])

/-- The named arguments of a packed or an updated struct. -/
def compileFieldsSql (value : Text) (depth : Nat) : List FieldNode → List Text
  | [] => []
  | child :: rest =>
    (quotedName child.name ++ " := ".toList ++ compileNodeSql (fieldOf value child.name) depth child) ::
      compileFieldsSql value depth rest

end

/-- The test that a written struct carries a field the role does not see. -/
def foreignField (written : Text) (depth : Nat) (names : List Text) : Text :=
  let key := "__acl_k".toList ++ depthText depth
  "len(list_filter(struct_keys(".toList ++ written ++ "), lambda ".toList ++ key ++ ": translate(".toList ++ key ++
    ", 'ABCDEFGHIJKLMNOPQRSTUVWXYZ', 'abcdefghijklmnopqrstuvwxyz') NOT IN (".toList ++
    joinComma (names.map fun name => '\'' :: Text.double '\'' (Text.fold name) ++ ['\'']) ++ "))) > 0".toList

/-- The value of a partial struct: packed from the written fields where nothing is stored, else the
stored one updated. -/
def partialWrite (written stored refusal : Text) (depth : Nat) (names fresh fields : List Text) : Text :=
  let packed := unlessNull written ("struct_pack(".toList ++ joinComma fresh ++ [')'])
  let refuse := "error('".toList ++ Text.double '\'' refusal ++ "')".toList
  let guard (value : Text) :=
    "CASE WHEN ".toList ++ foreignField written depth names ++ " THEN ".toList ++ refuse ++ " ELSE ".toList ++ value ++
      " END".toList
  if stored = [] then guard packed
  else guard ("CASE WHEN ".toList ++ stored ++ " IS NULL THEN ".toList ++ guard packed ++ " ELSE struct_update(".toList ++
    stored ++ ", ".toList ++ joinComma fields ++ ") END".toList)

mutual

/-- `CompileWrite`: the value a write puts into a narrowed column; `stored` is empty for an insert. -/
def compileWriteSql (written stored refusal : Text) (depth : Nat) : FieldNode → Text
  | ⟨_, whole, masked, mask, fields, _⟩ =>
    if masked then mask
    else if whole then
      if fields.isEmpty then written
      else unlessNull written ("struct_update(".toList ++ written ++ ", ".toList ++
        joinComma (compileWritesSql written stored refusal depth fields) ++ [')'])
    else partialWrite written stored refusal depth (fields.map FieldNode.name)
      (compileWritesSql written [] refusal depth fields) (compileWritesSql written stored refusal depth fields)

/-- The named arguments of a written struct. -/
def compileWritesSql (written stored refusal : Text) (depth : Nat) : List FieldNode → List Text
  | [] => []
  | child :: rest =>
    (quotedName child.name ++ " := ".toList ++ compileWriteSql (fieldOf written child.name)
      (if stored = [] then [] else fieldOf stored child.name) refusal (depth + 1) child) ::
      compileWritesSql written stored refusal depth rest

end

end DuckAcl
