import DuckAcl.Library.Tables
import DuckAcl.Library.Text

/-! # The policy store

The policy lives in a database, in the tables of `schema/acl_schema.sql`. A row is what its columns
hold, and a column its table does not have holds nothing. The tables that name neither a role nor a
virtual catalog are left out, and so is `meta`, whose version is a part of `PolicyCaches`.
-/

namespace DuckAcl

inductive TableName where
  | catalogs
  | relations
  | relationColumns
  | relationTypes
  | functions
  | roles
  | roleClaims
  | roleCatalogs
  | roleObjectCaps
  | functionGrants
  | admins
  | platformGrants
  | roleMappings
  | objectColumns
  | columnComments
  | schemas
  | roleSchemas
  | schemaDropped
  | references
  | referenceColumns
  | keys
  | grantColumns
  | roleResourceGroups
deriving DecidableEq, Repr

inductive Column where
  | role | vcat | vname | comment | form | phys | viewSql | rls | origin | rlsChecked | aliasTypes | enumTypes
  | createdBy | createdRoles | pos | name | expr | nullable | column | asBase | asVarchar | asBoth | kind | target
  | template | params | claim | value | isMain | caps | columns | category | database | schema | allowed | scope
  | object | scopeKind | scopeName | source | externalValue | type | derived | columnName | path | physPath
  | schemaPath | inherited | into | virtualOnly | fromVname | toVname | toKind | cardinality | optional | joinMethod
  | side | param | group
deriving DecidableEq, Repr

/-- The columns of each table, as the schema creates it. -/
def TableName.columns : TableName → List Column
  | catalogs => [.vcat, .comment]
  | relations => [.vcat, .vname, .form, .phys, .viewSql, .rls, .comment, .origin, .rlsChecked, .aliasTypes, .enumTypes,
      .createdBy, .createdRoles]
  | relationColumns => [.vcat, .vname, .pos, .name, .expr, .nullable]
  | relationTypes => [.vcat, .vname, .column, .asBase, .asVarchar, .asBoth]
  | functions => [.vcat, .vname, .kind, .form, .target, .template, .comment, .params, .createdBy, .createdRoles]
  | roles => [.role, .comment]
  | roleClaims => [.role, .claim, .value]
  | roleCatalogs => [.role, .vcat, .isMain, .caps, .rls, .columns, .rlsChecked]
  | roleObjectCaps => [.role, .vcat, .vname, .caps, .rls, .columns, .rlsChecked]
  | functionGrants => [.role, .category, .database, .schema, .name, .kind, .allowed]
  | admins => [.role, .scope, .vcat]
  | platformGrants => [.role, .object, .kind, .allowed]
  | roleMappings => [.scopeKind, .scopeName, .source, .externalValue, .role]
  | objectColumns => [.vcat, .vname, .kind, .pos, .name, .type, .comment, .derived, .nullable]
  | columnComments => [.vcat, .vname, .columnName, .comment]
  | schemas => [.vcat, .path, .physPath, .comment, .origin, .createdBy, .createdRoles]
  | roleSchemas => [.role, .vcat, .schemaPath, .caps, .inherited, .comment, .into, .virtualOnly]
  | schemaDropped => [.vcat, .path, .name]
  | references => [.vcat, .name, .fromVname, .toVname, .toKind, .expr, .cardinality, .optional, .joinMethod, .comment,
      .createdBy, .createdRoles]
  | referenceColumns => [.vcat, .name, .pos, .side, .column, .param]
  | keys => [.vcat, .vname, .kind, .pos, .column]
  | grantColumns => [.role, .vcat, .vname, .pos, .name, .type]
  | roleResourceGroups => [.role, .group]

/-- What a column of a row holds. -/
inductive Value where
  | null
  | text (value : Text)
  | integer (value : Int)
  | boolean (value : Bool)
deriving DecidableEq, Repr

/-- A row of the store. -/
abbrev Row := Column → Value

/-- `KeyPrefixSql`: the key lies strictly under the path, up to ASCII case. -/
def Text.isUnder (key path : Text) : Bool :=
  Text.ciEquals (key.take (path.length + 1)) (path ++ ['.'])

namespace Row

/-- `"column" = 'text'`; NULL is equal to nothing. -/
def is (row : Row) (cell : Column) (text : Text) : Bool :=
  decide (row cell = .text text)

/-- The key in the column lies strictly under the path. -/
def isUnder (row : Row) (cell : Column) (path : Text) : Bool :=
  match row cell with
  | .text key => Text.isUnder key path
  | _ => false

end Row

/-- The policy store: the tables, whose rows hold only their own columns. -/
structure PolicyTables where
  rows : Tables TableName Row
  own : ∀ table, ∀ row ∈ rows table, ∀ cell, cell ∉ table.columns → row cell = .null

/-- A statement of a transaction that deletes. -/
abbrev Delete := Deletion TableName Row

/-- The row of a table with these cells, and NULL in its other columns. -/
def TableName.row (table : TableName) (cells : List (Column × Value)) : Row := fun cell =>
  if cell ∈ table.columns then ((cells.find? fun given => decide (given.1 = cell)).map Prod.snd).getD .null else .null

namespace PolicyTables

/-- The store with these rows. -/
def of (rows : List (TableName × List (Column × Value))) : PolicyTables where
  rows table := (rows.filter fun given => decide (given.1 = table)).map fun given => table.row given.2
  own table row member cell absent := by
    obtain ⟨given, _, rfl⟩ := List.mem_map.mp member
    simp [TableName.row, absent]

/-- Run the deletions of a transaction. -/
def deleteAll (store : PolicyTables) (deletions : List Delete) : PolicyTables where
  rows := store.rows.deleteAll deletions
  own table row member := store.own table row (Tables.mem_deleteAll.mp member).1

/-- Whether a table has a row that passes the test. -/
def has (store : PolicyTables) (table : TableName) (test : Row → Bool) : Bool :=
  (store.rows table).any test

/-- `INSERT INTO table`. -/
def insert (store : PolicyTables) (table : TableName) (cells : List (Column × Value)) : PolicyTables where
  rows := Function.update store.rows table (store.rows table ++ [table.row cells])
  own other row member cell absent := by
    by_cases same : other = table
    · subst same
      rw [Function.update_self, List.mem_append, List.mem_singleton] at member
      rcases member with held | rfl
      · exact store.own _ row held cell absent
      · simp [TableName.row, absent]
    · rw [Function.update_of_ne same] at member
      exact store.own other row member cell absent

theorem ext_rows {first second : PolicyTables} (same : ∀ table, first.rows table = second.rows table) :
    first = second := by
  obtain ⟨rows, _⟩ := first
  obtain ⟨rows', _⟩ := second
  obtain rfl : rows = rows' := funext same
  rfl

theorem has_eq_false {store : PolicyTables} {table : TableName} {test : Row → Bool} :
    store.has table test = false ↔ ∀ row ∈ store.rows table, test row = false := by
  simp [has]

end PolicyTables

/-- A statement of a write's transaction. -/
inductive Write where
  | delete (deletion : Delete)
  | insert (table : TableName) (cells : List (Column × Value))
  /-- `INSERT OR IGNORE`: nothing where a row with these cells is there already. -/
  | insertOrIgnore (table : TableName) (cells : List (Column × Value))

namespace PolicyTables

/-- Run one statement. -/
def write (store : PolicyTables) : Write → PolicyTables
  | .delete deletion => store.deleteAll [deletion]
  | .insert table cells => store.insert table cells
  | .insertOrIgnore table cells =>
    if store.has table fun row => cells.all fun given => decide (row given.1 = given.2) then store
    else store.insert table cells

/-- Run the statements of a transaction. -/
def writeAll (store : PolicyTables) (writes : List Write) : PolicyTables :=
  writes.foldl write store

end PolicyTables

/-- The statement puts no row that passes the test into the table. -/
def Write.AddsNone (table : TableName) (test : Row → Bool) : Write → Prop
  | .delete _ => True
  | .insert other cells | .insertOrIgnore other cells => other = table → test (table.row cells) = false

/-- The statement takes no row that passes the test out of the table. -/
def Write.TakesNone (table : TableName) (test : Row → Bool) : Write → Prop
  | .delete deletion => deletion.table = table → ∀ row, test row = true → deletion.hits row = false
  | _ => True

namespace PolicyTables

variable {store : PolicyTables} {table : TableName} {test : Row → Bool}

private theorem filter_insert {other : TableName} {cells : List (Column × Value)}
    (none : other = table → test (table.row cells) = false) :
    ((store.insert other cells).rows table).filter test = (store.rows table).filter test := by
  by_cases same : table = other
  · subst same
    simp [insert, none rfl]
  · simp [insert, Function.update_of_ne same]

private theorem filter_deleteAll {deletion : Delete}
    (none : deletion.table = table → ∀ row, test row = true → deletion.hits row = false) :
    ((store.deleteAll [deletion]).rows table).filter test = (store.rows table).filter test := by
  show (store.rows.deleteAll [deletion] table).filter test = _
  rw [Tables.deleteAll_apply, List.filter_filter]
  apply List.filter_congr
  intro row _
  by_cases same : deletion.table = table
  · cases passes : test row with
    | false => simp
    | true => simp [Tables.hitBy, same, none same row passes]
  · simp [Tables.hitBy, same]

/-- Statements that neither add nor take rows that pass the test leave those rows as they are. -/
theorem filter_writeAll {writes : List Write} (adds : ∀ write ∈ writes, write.AddsNone table test)
    (takes : ∀ write ∈ writes, write.TakesNone table test) :
    ((store.writeAll writes).rows table).filter test = (store.rows table).filter test := by
  induction writes generalizing store with
  | nil => rfl
  | cons first rest ih =>
    have here : ((store.write first).rows table).filter test = (store.rows table).filter test := by
      have addsHere := adds first List.mem_cons_self
      have takesHere := takes first List.mem_cons_self
      cases first with
      | delete deletion => exact filter_deleteAll takesHere
      | insert other cells => exact filter_insert addsHere
      | insertOrIgnore other cells =>
        simp only [write]
        split_ifs
        · rfl
        · exact filter_insert addsHere
    rw [← here]
    exact ih (fun write member => adds write (List.mem_cons_of_mem _ member))
      (fun write member => takes write (List.mem_cons_of_mem _ member))

/-- Statements that add no rows that pass the test leave no more of them than there were. -/
theorem mem_writeAll {writes : List Write} (adds : ∀ write ∈ writes, write.AddsNone table test) {row : Row}
    (member : row ∈ (store.writeAll writes).rows table) (passes : test row = true) : row ∈ store.rows table := by
  induction writes generalizing store with
  | nil => exact member
  | cons first rest ih =>
    have held := ih (fun write member => adds write (List.mem_cons_of_mem _ member)) member
    have addsHere := adds first List.mem_cons_self
    have inserted : ∀ {other cells}, (other = table → test (table.row cells) = false) →
        row ∈ (store.insert other cells).rows table → row ∈ store.rows table := by
      intro other cells none held
      have kept : row ∈ ((store.insert other cells).rows table).filter test := List.mem_filter.mpr ⟨held, passes⟩
      rw [filter_insert none] at kept
      exact (List.mem_filter.mp kept).1
    cases first with
    | delete deletion => exact (Tables.mem_deleteAll.mp held).1
    | insert other cells => exact inserted addsHere held
    | insertOrIgnore other cells =>
      simp only [write] at held
      split_ifs at held
      · exact held
      · exact inserted addsHere held

/-- Statements that add no rows that pass the test, and delete them all, leave none. -/
theorem cleared_writeAll {writes : List Write} (adds : ∀ write ∈ writes, write.AddsNone table test)
    {deletion : Delete} (among : .delete deletion ∈ writes) (there : deletion.table = table)
    (hits : ∀ row, test row = true → deletion.hits row = true) :
    ∀ row ∈ (store.writeAll writes).rows table, test row = false := by
  induction writes generalizing store with
  | nil => cases among
  | cons first rest ih =>
    have addsLater : ∀ write ∈ rest, write.AddsNone table test :=
      fun write member => adds write (List.mem_cons_of_mem _ member)
    rcases List.mem_cons.mp among with rfl | later
    · intro row member
      by_contra passes
      rw [Bool.not_eq_false] at passes
      have held : row ∈ (store.deleteAll [deletion]).rows table := mem_writeAll addsLater member passes
      have missed := (Tables.mem_deleteAll.mp held).2
      simp [Tables.hitBy, there, hits row passes] at missed
    · exact ih addsLater later

end PolicyTables

end DuckAcl
