import Mathlib
import DuckAcl.Library.Transactions
import DuckAcl.Model.RelationRemoval

/-! # Altering grants, relations and functions

`CatalogAlterGrant`, `CatalogAlterRelation` and `CatalogAlterFunction` (`acl_catalog_admin.cpp`) each
rewrite a whole record from what is stored of it and one new value. A relation is read in the
transaction that writes it (`WriteWithReads`); a grant and a function are read before, each read on a
connection of its own. What a bind or a parse answers about a source is a part of `SourceProbes`.
-/

namespace DuckAcl

/-- What the engine answers about sources and texts, and who writes. -/
structure SourceProbes where
  /-- `PredicateError`: whether the predicate was judged, and the binder's message. -/
  predicateError : (source rls : Text) → Bool × Text
  /-- `ProbeSchema`: the columns of a query, or of a scalar expression, where it binds. -/
  probeSchema : (scalar : Bool) → Text → Option (List (Text × Text))
  /-- `ProbeTypeFacts`: the cells of the `relation_types` rows besides the name. -/
  typeFacts : (form phys viewSql : Text) → List (List (Column × Value))
  /-- `CompileDeclaredPaths`. -/
  compilePaths : (phys vname : Text) → List (Text × Text) → Except Text (List (Text × Text))
  /-- `IsPlainColumnReference`. -/
  plainReference : Text → Bool
  /-- `PlainColumnName`. -/
  plainColumnName : Text → Bool
  storedExpressionsOk : List Text → Bool
  /-- The text of a select over the columns of a relation, and of all of it. -/
  selectItems : List (Text × Text) → Text → Text
  selectAll : Text → Text
  /-- `NamePath::KeyToSql`. -/
  keyToSql : Text → Text
  /-- `AuthorInScope` and `AuthorRolesInScope`. -/
  author : Text
  authorRoles : Text

/-- Nullability marks by column name, up to case; the first one counts. -/
abbrev Marks := List (Text × Bool)

def Marks.find (marks : Marks) (name : Text) : Option Bool :=
  (marks.find? fun mark => Text.ciEquals mark.1 name).map Prod.snd

/-- A mark as a cell. -/
def Marks.cell (marks : Marks) (name : Text) : Value :=
  match marks.find name with
  | none => .null
  | some nullable => .boolean nullable

/-- A text that is NULL when it is empty. -/
def Value.ofText (text : Text) : Value := if text = [] then .null else .text text

/-- The text of a cell, empty for NULL. -/
def Value.textOr : Value → Text
  | .text value => value
  | _ => []

namespace PolicyTables

/-! ## Statements -/

/-- `ColumnSchemaStatements`. -/
def columnSchemaStatements (vcat vname kind : Text) (columns : List (Text × Text)) (derived : Bool) (marks : Marks) :
    List Write :=
  .delete ⟨.objectColumns, namedKind vcat vname kind⟩ ::
    columns.zipIdx.map fun (column, pos) => .insert .objectColumns
      [(.vcat, .text vcat), (.vname, .text vname), (.kind, .text kind), (.pos, .integer pos), (.name, .text column.1),
       (.type, .text column.2), (.derived, .boolean derived), (.nullable, marks.cell column.1)]

/-- One item of a key's list: trimmed, and unquoted where it is quoted. -/
def keyItem (item : Text) : Text :=
  let column := Text.trim item
  match column with
  | '"' :: rest => if rest.getLast? = some '"' then unquote rest.dropLast else column
  | column => column
where
  unquote : Text → Text
    | '"' :: '"' :: rest => '"' :: unquote rest
    | c :: rest => c :: unquote rest
    | [] => []

/-- The loop of `KeyStatements` over a carried key: the columns, or none when it lapses. -/
def carriedKey (probes : SourceProbes) (known : List Text) (marks : Marks) (masked : List (Text × Text)) :
    List Text → Option (List Text)
  | [] => some []
  | item :: rest =>
    let column := keyItem item
    if column = [] then carriedKey probes known marks masked rest
    else if known ≠ [] ∧ Text.fold column ∉ known then none
    else if marks.find column = some true then none
    else if marks.find column = none ∧ masked.any (fun pair => Text.ciEquals pair.1 column && decide (pair.2 ≠ []) &&
        !(decide (Text.trim pair.2 = []) || probes.plainColumnName (Text.trim pair.2))) then none
    else (carriedKey probes known marks masked rest).map (column :: ·)

/-- `KeyStatements` of a carried key. -/
def keyStatements (probes : SourceProbes) (vcat vname kind pk : Text) (known : List Text) (marks : Marks)
    (masked : List (Text × Text)) : List Write :=
  .delete ⟨.keys, namedKind vcat vname kind⟩ ::
    (((carriedKey probes known marks masked (splitOn pk)).getD []).zipIdx.map fun (column, pos) => .insert .keys
      [(.vcat, .text vcat), (.vname, .text vname), (.kind, .text kind), (.pos, .integer pos), (.column, .text column)])
where
  splitOn (text : Text) : List Text := text.splitOn ','

/-- `ORDER BY "pos"`. -/
def byPos (rows : List Row) : List Row :=
  rows.mergeSort fun a b => match a .pos, b .pos with
    | .integer i, .integer j => decide (i ≤ j)
    | _, _ => true

/-- The stored key of an object, as the csv the writers take. -/
def existingKeyCsv (store : PolicyTables) (vcat vname kind : Text) : Text :=
  ", ".toList.intercalate ((byPos ((store.rows .keys).filter (namedKind vcat vname kind))).map
    fun row => (row .column).textOr)

/-- The stored marks of an object's declared columns. -/
def declaredMarks (store : PolicyTables) (vcat vname kind : Text) : Marks :=
  ((store.rows .objectColumns).filter (namedKind vcat vname kind)).filterMap fun row =>
    match row .nullable with
    | .boolean nullable => some ((row .name).textOr, nullable)
    | _ => none

/-- `CreatedByLit`: the stored author, or who writes; and the writer's roles. -/
def createdBy (probes : SourceProbes) (stored : Option Row) : Value × Value :=
  (match stored with
    | some row => row .createdBy
    | none => Value.ofText probes.author,
   Value.ofText probes.authorRoles)

/-! ## `CatalogAlterGrant` -/

/-- The properties of a grant. -/
inductive GrantChange where
  | caps (value : Text)
  | rls (value : Text)
  | columns (value : Text)
  | isMain (value : Text)

/-- What is stored of a grant. -/
structure GrantImage where
  isMain : Bool
  caps : Text
  rls : Text
  columns : Text
deriving DecidableEq, Repr

/-- The grant's row. -/
def grantOf (role vcat : Text) (row : Row) : Bool := row.is .role role && row.is .vcat vcat

/-- The pre-image `CatalogAlterGrant` reads. -/
def grantImage (store : PolicyTables) (role vcat : Text) : Except Text GrantImage :=
  match (store.rows .roleCatalogs).find? (grantOf role vcat) with
  | none => .error ("acl admin: grant of catalog \"".toList ++ vcat ++ "\" to role \"".toList ++ role ++
      "\" does not exist".toList)
  | some row => .ok ⟨decide (row .isMain = .boolean true), (row .caps).textOr, (row .rls).textOr, (row .columns).textOr⟩

/-- The image with the new value. -/
def GrantChange.apply (image : GrantImage) : GrantChange → Except Text GrantImage
  | .caps value => .ok { image with caps := value }
  | .rls value => .ok { image with rls := value }
  | .columns value => .ok { image with columns := value }
  | .isMain value =>
    if Text.ciEquals value "true".toList then .ok { image with isMain := true }
    else if Text.ciEquals value "false".toList then .ok { image with isMain := false }
    else .error ("acl admin: MAIN expects true or false, got \"".toList ++ value ++ "\"".toList)

/-- `CatalogPredicateChecked`. -/
def catalogPredicateChecked (probes : SourceProbes) (store : PolicyTables) (vcat rls : Text) : Bool :=
  if rls = [] then true
  else
    let judged := ((store.rows .relations).filter (·.is .vcat vcat)).map fun row =>
      probes.predicateError (if row.is .form "view".toList then '(' :: (row .viewSql).textOr ++ [')']
        else probes.keyToSql (row .phys).textOr) rls
    (judged.filter Prod.fst).all (fun verdict => decide (verdict.2 = [])) && judged.any Prod.fst

/-- The transaction of `CatalogGrant`. -/
def grantWrites (probes : SourceProbes) (store : PolicyTables) (role vcat : Text) (image : GrantImage) : List Write :=
  [.delete ⟨.roleCatalogs, grantOf role vcat⟩,
   .insert .roleCatalogs
     [(.role, .text role), (.vcat, .text vcat), (.isMain, .boolean image.isMain), (.caps, .text image.caps),
      (.rls, .text image.rls), (.columns, .text image.columns),
      (.rlsChecked, if image.rls = [] then .null else .boolean (catalogPredicateChecked probes store vcat image.rls))]]

/-! ## `CatalogAlterRelation` -/

/-- The properties of a relation. -/
inductive RelationChange where
  | phys (value : Text)
  | rls (value : Text)
  | view (value : Text)
  | columns (columns : List (Text × Text)) (marks : Marks)
  | types (value : Text)

/-- One item of `SET TYPES`: the alias and the enum policy after it. -/
def setTypes (kept : Text × Text) (item : Text) : Except Text (Text × Text) :=
  let key := Text.trim (Text.fold (item.takeWhile (· ≠ '=')))
  let setting := Text.trim (Text.fold ((item.dropWhile (· ≠ '=')).drop 1))
  let stored := if setting = "default".toList then [] else setting
  if key = "aliases".toList ∧ setting ∈ ["base".toList, "keep".toList, "default".toList] then .ok (stored, kept.2)
  else if key = "enums".toList ∧ setting ∈ ["varchar".toList, "keep".toList, "default".toList] then .ok (kept.1, stored)
  else .error ("acl admin: SET TYPES takes aliases = base|keep|default and enums = varchar|keep|default, got \"".toList ++
    item ++ "\"".toList)

/-- The record `RelationStatements` writes. -/
structure RelationRecord where
  form : Text
  phys : Text
  viewSql : Text
  rls : Text
  columns : List (Text × Text)
  comment : Text
  origin : Text
  pk : Text
  marks : Marks
  aliasTypes : Text
  enumTypes : Text

/-- The column schema of a record, and whether it was bound. -/
def recordSchema (probes : SourceProbes) (record : RelationRecord) : List (Text × Text) × Bool :=
  let names := record.columns.map fun column => (column.1, [])
  if record.form = "view".toList then
    match probes.probeSchema false record.viewSql with
    | some schema => (schema, true)
    | none => ([], false)
  else if record.phys ≠ [] ∧ record.columns ≠ [] then
    match if probes.storedExpressionsOk (record.columns.map Prod.snd) then
        probes.probeSchema false (probes.selectItems record.columns (probes.keyToSql record.phys)) else none with
    | some schema => (schema, true)
    | none => (names, false)
  else (names, false)

/-- `RelationStatements` of an alteration. -/
def relationStatements (probes : SourceProbes) (store : PolicyTables) (vcat vname : Text) (record : RelationRecord) :
    Except Text (List Write) :=
  let source := if record.form = "view".toList then '(' :: record.viewSql ++ [')'] else probes.keyToSql record.phys
  let verdict := probes.predicateError source record.rls
  if record.rls ≠ [] ∧ verdict.2 ≠ [] then
    .error ("acl: the predicate of \"".toList ++ vname ++ "\" does not bind against it: ".toList ++ verdict.2)
  else
    let author := createdBy probes ((store.rows .relations).find? (named vcat vname))
    let (schema, derived) := recordSchema probes record
    let known := (record.columns.map fun column => Text.fold column.1) ++ schema.map fun column => Text.fold column.1
    let known := if known = [] ∧ record.pk ≠ [] ∧ record.phys ≠ [] then
        ((probes.probeSchema false (probes.selectAll record.phys)).getD []).map fun column => Text.fold column.1
      else known
    .ok ([.delete ⟨.relations, named vcat vname⟩,
       .delete ⟨.relationColumns, named vcat vname⟩,
       .insert .relations
         [(.vcat, .text vcat), (.vname, .text vname), (.form, .text record.form), (.phys, .text record.phys),
          (.viewSql, .text record.viewSql), (.rls, .text record.rls), (.comment, Value.ofText record.comment),
          (.origin, Value.ofText record.origin),
          (.rlsChecked, if record.rls = [] then .null else .boolean verdict.1),
          (.aliasTypes, Value.ofText record.aliasTypes), (.enumTypes, Value.ofText record.enumTypes),
          (.createdBy, author.1), (.createdRoles, author.2)],
       .delete ⟨.relationTypes, named vcat vname⟩] ++
      (probes.typeFacts record.form record.phys record.viewSql).map (fun cells =>
        .insert .relationTypes ((.vcat, .text vcat) :: (.vname, .text vname) :: cells)) ++
      record.columns.zipIdx.map (fun (column, pos) => .insert .relationColumns
        [(.vcat, .text vcat), (.vname, .text vname), (.pos, .integer pos), (.name, .text column.1),
         (.expr, .text column.2), (.nullable, record.marks.cell column.1)]) ++
      columnSchemaStatements vcat vname "relation".toList schema derived record.marks ++
      keyStatements probes vcat vname "relation".toList record.pk known record.marks record.columns)

/-- The stored projection of a relation, and its marks: the last row of a name counts. -/
def storedColumns (store : PolicyTables) (vcat vname : Text) : List (Text × Text) × Marks :=
  let rows := byPos ((store.rows .relationColumns).filter (named vcat vname))
  (rows.map fun row => ((row .name).textOr, (row .expr).textOr),
   (rows.filterMap fun row => match row .nullable with
     | .boolean nullable => some ((row .name).textOr, nullable)
     | _ => none).reverse)

/-- The transaction of `CatalogAlterRelation`, over its snapshot. -/
def alterRelation (probes : SourceProbes) (store : PolicyTables) (vcat vname : Text) (change : RelationChange) :
    Except Text PolicyTables :=
  match (store.rows .relations).find? (named vcat vname) with
  | none => .error ("acl admin: relation \"".toList ++ vcat ++ ".".toList ++ vname ++ "\" does not exist".toList)
  | some row => do
    let isView := row.is .form "view".toList
    -- the statement kind must match what the object is
    let mismatched := match change with
      | .types _ => false
      | .view _ => !isView
      | _ => isView
    if mismatched then
      throw ("acl admin: \"".toList ++ vcat ++ ".".toList ++ vname ++ "\" is ".toList ++
        (if isView then "a view - use ALTER VIRTUAL VIEW" else "a table - use ALTER VIRTUAL TABLE").toList)
    let stored := (row .phys).textOr
    let (columns, marks) ← match change with
      | .columns columns marks => do pure (← probes.compilePaths stored vname columns, marks)
      | _ =>
        let (columns, marks) := store.storedColumns vcat vname
        .ok (columns, marks ++ store.declaredMarks vcat vname "relation".toList)
    let phys := match change with
      | .phys value => value
      | _ => stored
    let rls := match change with
      | .rls value => value
      | _ => (row .rls).textOr
    let viewSql := match change with
      | .view value => value
      | _ => (row .viewSql).textOr
    let (aliasTypes, enumTypes) ← match change with
      | .types value => (value.splitOn ',').foldlM setTypes ((row .aliasTypes).textOr, (row .enumTypes).textOr)
      | _ => .ok ((row .aliasTypes).textOr, (row .enumTypes).textOr)
    let form := if viewSql ≠ [] then "view".toList
      else if rls = [] ∧ (columns = [] ∨ columns.all fun column => probes.plainReference column.2) then "alias".toList
      else "subquery".toList
    let writes ← relationStatements probes store vcat vname
      { form, phys, viewSql, rls, columns, marks, aliasTypes, enumTypes
        comment := (row .comment).textOr
        origin := (row .origin).textOr
        pk := store.existingKeyCsv vcat vname "relation".toList }
    return store.writeAll writes

/-! ## `CatalogAlterFunction` -/

/-- The transaction of `CatalogAddFunction` for an alteration: what it carries was read before. -/
def functionWrites (probes : SourceProbes) (vcat vname kind : Text) (isAlias : Bool) (definition pk : Text)
    (marks : Marks) (author : Value × Value) : List Write :=
  let (schema, derived) := if isAlias then ([], false) else
    match probes.probeSchema (decide (kind = "scalar".toList)) definition with
    | some schema => (schema, true)
    | none => ([], false)
  [.delete ⟨.functions, namedKind vcat vname kind⟩,
   .delete ⟨.objectColumns, namedKind vcat vname kind⟩,
   .insert .functions
     [(.vcat, .text vcat), (.vname, .text vname), (.kind, .text kind),
      (.form, .text (if isAlias then "alias" else "macro").toList), (.target, .text (if isAlias then definition else [])),
      (.template, .text (if isAlias then [] else definition)), (.params, .text []), (.createdBy, author.1),
      (.createdRoles, author.2)]] ++
    columnSchemaStatements vcat vname kind schema derived marks ++
    keyStatements probes vcat vname kind pk (schema.map fun column => Text.fold column.1) marks []

end PolicyTables

/-! ## The calls -/

/-- What a call reads before its transaction. -/
inductive PreImage where
  | grant (image : PolicyTables.GrantImage)
  | found
  | key (pk : Text)
  | marks (marks : Marks)
  | author (author : Value × Value)

/-- The alterations. -/
inductive Alteration where
  | grant (role vcat : Text) (change : PolicyTables.GrantChange)
  | relation (vcat vname : Text) (change : PolicyTables.RelationChange)
  | function (vcat vname kind : Text) (isAlias : Bool) (definition : Text)

open PolicyTables

/-- The reads and the transaction of an alteration. The checks of the new value itself are `refuses`. -/
def Alteration.call (probes : SourceProbes) (refuses : Alteration → Option Text) (alteration : Alteration) :
    WriteCall PolicyTables PreImage Text where
  outside := match alteration with
    | grant role vcat _ => [fun store => (store.grantImage role vcat).map .grant]
    | relation _ _ _ => []
    | function vcat vname kind _ _ =>
      [fun store =>
        if store.has .functions (namedKind vcat vname kind) then .ok .found
        else .error ("acl admin: ".toList ++ kind ++ " function \"".toList ++ vcat ++ ".".toList ++ vname ++
          "\" does not exist".toList),
       fun store => .ok (.key (store.existingKeyCsv vcat vname kind)),
       fun store => .ok (.marks (store.declaredMarks vcat vname kind).reverse),
       fun store => .ok (.author (createdBy probes ((store.rows .functions).find? (namedKind vcat vname kind))))]
  inside answers store :=
    match refuses alteration with
    | some refusal => .error refusal
    | none =>
      match alteration, answers with
      | grant role vcat change, [.grant image] => do
        return store.writeAll (grantWrites probes store role vcat (← change.apply image))
      | relation vcat vname change, [] => alterRelation probes store vcat vname change
      | function vcat vname kind isAlias definition, [.found, .key pk, .marks marks, .author author] =>
        .ok (store.writeAll (functionWrites probes vcat vname kind isAlias definition pk marks author))
      | _, _ => .error []

end DuckAcl
