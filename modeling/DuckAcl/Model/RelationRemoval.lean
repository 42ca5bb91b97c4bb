import DuckAcl.Model.NamePath
import DuckAcl.Model.PolicyTables

/-! # Removing a relation

A relation's record, its columns and what is granted on it are rows of eleven tables
(`RelationRowSources`). Three operations remove relations (`acl_catalog_admin.cpp`):
`CatalogDropRelation`, which walks that list; a pruning `CatalogRefreshSchemaObjects`; and a cascading
`CatalogDropSchemaAlias`. Each reads the store as it is before its statements run.
-/

namespace DuckAcl

/-- `RelationRowSource`: a table with rows of one relation, and which they are. -/
structure RelationRowSource where
  table : TableName
  hits : Row → Bool
  /-- The rows are grants, which a function of the same name shares. -/
  grants : Bool := false
  /-- The row marks a deliberate drop. -/
  mark : Bool := false

namespace PolicyTables

/-- `"vcat" = vcat AND "vname" = vname`. -/
def named (vcat vname : Text) (row : Row) : Bool :=
  row.is .vcat vcat && row.is .vname vname

/-- The same, of the object of one kind. -/
def namedKind (vcat vname kind : Text) (row : Row) : Bool :=
  named vcat vname row && row.is .kind kind

/-- The reference ends at the relation; an end at a table function of the same name is the function's. -/
def endsAt (vcat vname : Text) (row : Row) : Bool :=
  row.is .vcat vcat && (row.is .fromVname vname ||
    (row.is .toVname vname &&
      !(match row .toKind with
        | .text kind => Text.ciEquals kind "FUNCTION".toList
        | _ => false)))

/-- The column row belongs to a reference that passes the test. -/
def ofReference (store : PolicyTables) (test : Row → Bool) (vcat : Text) (row : Row) : Bool :=
  row.is .vcat vcat && decide (row .name ≠ .null) &&
    (store.rows .references).any fun reference => test reference && decide (reference .name = row .name)

/-- `RelationRowSources`. -/
def relationRowSources (store : PolicyTables) (vcat vname : Text) : List RelationRowSource :=
  let (parent, leaf) := NamePath.splitLeaf vname
  [{ table := .relations, hits := named vcat vname },
   { table := .objectColumns, hits := namedKind vcat vname "relation".toList },
   { table := .relationColumns, hits := named vcat vname },
   { table := .relationTypes, hits := named vcat vname },
   { table := .columnComments, hits := named vcat vname },
   { table := .keys, hits := namedKind vcat vname "relation".toList },
   { table := .roleObjectCaps, hits := named vcat vname, grants := true },
   { table := .grantColumns, hits := named vcat vname, grants := true },
   { table := .referenceColumns, hits := store.ofReference (endsAt vcat vname) vcat },
   { table := .references, hits := endsAt vcat vname },
   { table := .schemaDropped, hits := fun row => row.is .vcat vcat && row.is .path parent && row.is .name leaf,
     mark := true }]

/-- The record is one an expansion produced. -/
def hasOrigin (store : PolicyTables) (vcat vname : Text) : Bool :=
  match (store.rows .relations).find? (named vcat vname) with
  | some row => decide (row .origin ≠ .null)
  | none => false

/-- The statements of `CatalogDropRelation`. -/
def dropRelationWrites (store : PolicyTables) (vcat vname : Text) : List Write :=
  let sameNamedFunction := store.has .functions (named vcat vname)
  let (parent, leaf) := NamePath.splitLeaf vname
  ((store.relationRowSources vcat vname).filter fun source =>
      !source.mark && !(source.grants && sameNamedFunction)).map (fun source => .delete ⟨source.table, source.hits⟩) ++
    (if store.hasOrigin vcat vname ∧ parent ≠ [] then
      [.insertOrIgnore .schemaDropped [(.vcat, .text vcat), (.path, .text parent), (.name, .text leaf)]]
    else [])

/-- `CatalogDropRelation`. -/
def catalogDropRelation (store : PolicyTables) (vcat vname : Text) : Except Text PolicyTables :=
  if store.has .relations (named vcat vname) then .ok (store.writeAll (store.dropRelationWrites vcat vname))
  else .error ("acl admin: relation \"".toList ++ vcat ++ ".".toList ++ vname ++ "\" does not exist".toList)

/-! ## Refreshing an expansion -/

/-- The text in a column, when it holds one. -/
def textOf (cell : Column) (row : Row) : Option Text :=
  match row cell with
  | .text text => some text
  | _ => none

/-- The tables and columns that hold names of a catalog, for `NamesUnder`. -/
def namesUnderSources : List (TableName × Column) :=
  [(.relations, .vname), (.functions, .vname), (.schemas, .path), (.roleObjectCaps, .vname), (.roleSchemas, .schemaPath)]

/-- `NamesUnder`: every stored name under one first part. -/
def namesUnder (store : PolicyTables) (vcat first : Text) : List Text :=
  (namesUnderSources.flatMap fun (table, cell) =>
    ((store.rows table).filter fun row => row.is .vcat vcat).filterMap (textOf cell)).filter fun name =>
      Text.ciEquals name first || Text.isUnder name first

/-- The spellings the stored names have for the part at a position, below parts that are the same. -/
def spellingsAt (stored : List (List Text)) (parts : List Text) (position : ℕ) : List Text :=
  (stored.filterMap fun name =>
    if (name.take (position + 1)).map Text.fold = (parts.take (position + 1)).map Text.fold then name[position]?
    else none).dedup

/-- The loop of `Spell` for a name being created: whether it throws. -/
def spellThrows (stored : List (List Text)) (parts : List Text) : ℕ → Bool
  | 0 => false
  | left + 1 =>
    let position := parts.length - (left + 1)
    match spellingsAt stored parts position with
    | [] => false
    | [spelled] => (left == 0 && decide (some spelled ≠ parts[position]?)) || spellThrows stored parts left
    | _ => true

/-- `CaseSibling`: a new key would be a second spelling of a stored name. -/
def caseSibling (key : Text) (names : List Text) : Bool :=
  match NamePath.fromKey key with
  | none => false
  | some parts => spellThrows (names.filterMap NamePath.fromKey) parts parts.length

/-- What a write of a new record finds out about its source, and who writes it. -/
structure RecordFacts where
  /-- `PhysicalObjects`: the tables and views of a physical schema; none where it does not exist. -/
  physicalObjects : Text → Option (List Text)
  /-- `ProbeTypeFacts`: the cells of the `relation_types` rows besides the name. -/
  typeFacts : Text → List (List (Column × Value))
  createdBy : Value
  createdRoles : Value

/-- `RelationStatements` for an alias without columns, predicate, comment or key. -/
def aliasStatements (facts : RecordFacts) (vcat vname phys origin : Text) : List Write :=
  [.delete ⟨.relations, named vcat vname⟩,
   .delete ⟨.relationColumns, named vcat vname⟩,
   .insert .relations
     [(.vcat, .text vcat), (.vname, .text vname), (.form, .text "alias".toList), (.phys, .text phys),
      (.viewSql, .text []), (.rls, .text []), (.origin, if origin = [] then .null else .text origin),
      (.createdBy, facts.createdBy), (.createdRoles, facts.createdRoles)],
   .delete ⟨.relationTypes, named vcat vname⟩] ++
  (facts.typeFacts phys).map (fun cells => .insert .relationTypes ((.vcat, .text vcat) :: (.vname, .text vname) :: cells)) ++
  [.delete ⟨.objectColumns, namedKind vcat vname "relation".toList⟩,
   .delete ⟨.keys, namedKind vcat vname "relation".toList⟩]

/-- The loop over the physical objects: a name that is held, or dropped on purpose, or a second
spelling, is passed over. -/
def addedNames (store : PolicyTables) (vcat path : Text) : List Text → List Text → List Text
  | [], _ => []
  | name :: rest, stored =>
    let vname := NamePath.childKey path name
    if caseSibling vname stored then store.addedNames vcat path rest stored
    else if store.has .relations (named vcat vname) ∨ store.has .schemaDropped (fun row =>
        row.is .vcat vcat && row.is .path path && row.is .name name) then store.addedNames vcat path rest stored
    else name :: store.addedNames vcat path rest (stored ++ [vname])

/-- The records an expansion produced whose physical object is gone. -/
def staleNames (store : PolicyTables) (vcat path origin : Text) (names : List Text) : List Text :=
  (((store.rows .relations).filter fun row => row.is .vcat vcat && row.is .origin origin &&
    row.isUnder .vname path).filterMap (textOf .vname)).filter fun vname =>
      decide ((NamePath.splitLeaf vname).1 = path) && decide ((NamePath.splitLeaf vname).2 ∉ names)

/-- The statements that prune one record. -/
def pruneWrites (vcat vname : Text) : List Write :=
  [TableName.relations, .relationColumns, .relationTypes, .columnComments, .roleObjectCaps].map
    (fun table => .delete ⟨table, named vcat vname⟩) ++
  [.delete ⟨.keys, namedKind vcat vname "relation".toList⟩,
   .delete ⟨.objectColumns, namedKind vcat vname "relation".toList⟩]

/-- The statements of a refresh; `head` is the first part of the schema's path. -/
def refreshWrites (facts : RecordFacts) (store : PolicyTables) (vcat path head origin : Text) (names : List Text)
    (prune : Bool) : List Write :=
  let stored := store.namesUnder vcat (NamePath.quotePart head)
  (store.addedNames vcat path names stored).flatMap (fun name =>
      aliasStatements facts vcat (NamePath.childKey path name) (NamePath.childKey origin name) origin) ++
    (if prune then (store.staleNames vcat path origin names).flatMap (pruneWrites vcat) else [])

/-- `CatalogRefreshSchemaObjects`, without the count it answers. -/
def catalogRefreshSchemaObjects (facts : RecordFacts) (store : PolicyTables) (vcat path : Text) (prune : Bool) :
    Except Text PolicyTables :=
  match (store.rows .schemas).find? (fun row => row.is .vcat vcat && row.is .path path) with
  | none => .error ("acl admin: schema \"".toList ++ vcat ++ ".".toList ++ path ++ "\" does not exist".toList)
  | some schema =>
    match textOf .origin schema with
    | none => .error ("acl admin: schema \"".toList ++ vcat ++ ".".toList ++ path ++
        "\" is a live alias, so it has nothing to refresh - it already shows what the source holds".toList)
    | some origin =>
      match facts.physicalObjects origin with
      | none => .error ("acl admin: physical schema \"".toList ++ origin ++
          "\" does not exist (is its database attached?)".toList)
      | some names =>
        match NamePath.fromKey path with
        | some (head :: _) => .ok (store.writeAll (refreshWrites facts store vcat path head origin names prune))
        | _ => .error ("acl: a name is not a valid name".toList)

/-! ## Dropping a schema -/

/-- `"vcat" = vcat` and the name lies under the path. -/
def under (vcat path : Text) (row : Row) : Bool :=
  row.is .vcat vcat && row.isUnder .vname path

/-- `DropReferencesNaming` over a prefix: an end of the reference lies under the path. -/
def endsUnder (vcat path : Text) (row : Row) : Bool :=
  row.is .vcat vcat && (row.isUnder .fromVname path || row.isUnder .toVname path)

/-- The statements of `CatalogDropSchemaAlias`. -/
def dropSchemaWrites (store : PolicyTables) (vcat path : Text) (cascade : Bool) : List Write :=
  (if cascade then
    [TableName.relations, .relationColumns, .relationTypes, .objectColumns, .functions, .keys, .roleObjectCaps,
      .grantColumns].map (fun table => .delete ⟨table, under vcat path⟩) ++
    [.delete ⟨.referenceColumns, store.ofReference (endsUnder vcat path) vcat⟩,
     .delete ⟨.references, endsUnder vcat path⟩,
     .delete ⟨.schemaDropped, fun row => row.is .vcat vcat && row.is .path path⟩]
  else []) ++
  [.delete ⟨.schemas, fun row => row.is .vcat vcat && row.is .path path⟩,
   .delete ⟨.roleSchemas, fun row => row.is .vcat vcat && row.is .schemaPath path⟩]

/-- The records under a schema. -/
def recordsUnder (store : PolicyTables) (vcat path : Text) : ℕ :=
  ((store.rows .relations).filter (under vcat path)).length + ((store.rows .functions).filter (under vcat path)).length

/-- `CatalogDropSchemaAlias`. -/
def catalogDropSchemaAlias (store : PolicyTables) (vcat path : Text) (cascade : Bool) : Except Text PolicyTables :=
  if store.has .schemas (fun row => row.is .vcat vcat && row.is .path path) = false then
    .error ("acl admin: schema \"".toList ++ vcat ++ ".".toList ++ path ++ "\" does not exist".toList)
  else if 0 < store.recordsUnder vcat path ∧ cascade = false then
    .error ("acl admin: schema \"".toList ++ vcat ++ ".".toList ++ path ++ "\" still holds ".toList ++
      (toString (store.recordsUnder vcat path)).toList ++ " object(s) - repeat with CASCADE to drop them too".toList)
  else .ok (store.writeAll (store.dropSchemaWrites vcat path cascade))

end PolicyTables

end DuckAcl
