import DuckAcl.Model.RelationRemoval

/-! # Records that follow a rollback

A principal's DDL writes a catalog record on the store's own connection, so the client's transaction does
not reach it. Each record write keeps what it did: the rows of the names it changed, before and after it,
and the policy version it committed. A rollback takes the writes back, newest first, each by the rule of
its kind (`RecordWrite` and `CatalogUndoRecordWrite`, `acl_catalog_admin.cpp`). An image keeps a table's
rows as the values of its columns; images are compared without regard to order, as sorted rows are.
-/

namespace DuckAcl

namespace PolicyTables

/-- The tables of `RelationRowSources`, in the order in which a drop deletes from them. -/
def sourceTables : List TableName :=
  [.relations, .objectColumns, .relationColumns, .relationTypes, .columnComments, .keys, .roleObjectCaps,
   .grantColumns, .referenceColumns, .references, .schemaDropped]

/-- The rows of one name in a table, by the filter of its source; none in a table that is no source. -/
def sourceHits (store : PolicyTables) (vcat vname : Text) : TableName → Row → Bool
  | .relations | .relationColumns | .relationTypes | .columnComments | .roleObjectCaps | .grantColumns =>
    named vcat vname
  | .objectColumns | .keys => namedKind vcat vname "relation".toList
  | .referenceColumns => store.ofReference (endsAt vcat vname) vcat
  | .references => endsAt vcat vname
  | .schemaDropped => fun row => row.is .vcat vcat && row.is .path (NamePath.splitLeaf vname).1 &&
      row.is .name (NamePath.splitLeaf vname).2
  | _ => fun _ => false

/-- The two tables whose rows a function of the same name shares. -/
def sharesGrants (table : TableName) : Bool := decide (table = .roleObjectCaps) || decide (table = .grantColumns)

/-- The facts a write of the record probes from its source. -/
def ownFacts (table : TableName) : Bool := decide (table = .objectColumns) || decide (table = .relationTypes)

example (store : PolicyTables) (vcat vname : Text) :
    store.relationRowSources vcat vname = sourceTables.map fun table =>
      { table := table, hits := store.sourceHits vcat vname table, grants := sharesGrants table,
        mark := decide (table = .schemaDropped) } := rfl

/-! ## Images -/

/-- The values of a row, in the order of its table's columns. -/
abbrev RowImage := List Value

/-- `RelationRows`: one name's rows, and its record's form, physical name and body. -/
structure RelationRows where
  rows : TableName → List RowImage
  record : Option (List Value)

def imageOf (table : TableName) (row : Row) : RowImage := table.columns.map row

def readRelationRows (store : PolicyTables) (vcat vname : Text) : RelationRows where
  rows table := ((store.rows table).filter (store.sourceHits vcat vname table)).map (imageOf table)
  record := ((store.rows .relations).find? (named vcat vname)).map fun row => [row .form, row .phys, row .viewSql]

/-- `RelationChange`: what a record write did to a name. -/
structure RelationRowsChange where
  before : RelationRows
  after : RelationRows

/-- One record write: the store it wrote, the policy version it committed, and the names it changed, a
rename's old name first. -/
structure RecordWrite where
  store : Text
  version : ℕ
  names : List (Text × RelationRowsChange)

/-- The rows of the table before the change differ from those after it. -/
def changed (change : RelationRowsChange) (table : TableName) : Bool :=
  !(change.before.rows table).isPerm (change.after.rows table)

def sameRows (first second : RelationRows) (table : TableName) : Bool :=
  (first.rows table).isPerm (second.rows table)

/-! ## Record writes -/

/-- The policy store with its version; `home` is the name of its table of relations. -/
structure RecordStore where
  home : Text
  tables : PolicyTables
  version : ℕ

/-- What a register finds out about the object's source, and who writes it. -/
structure RegisterFacts where
  typeFacts : List (List (Column × Value))
  columnFacts : List (List (Column × Value))
  createdBy : Value
  createdRoles : Value

/-- `RelationStatements` for a record without columns of its own, predicate, comment or key. -/
def recordStatements (facts : RegisterFacts) (vcat vname form phys viewSql origin : Text) : List Write :=
  [.delete ⟨.relations, named vcat vname⟩,
   .delete ⟨.relationColumns, named vcat vname⟩,
   .insert .relations
     [(.vcat, .text vcat), (.vname, .text vname), (.form, .text form), (.phys, .text phys), (.viewSql, .text viewSql),
      (.rls, .text []), (.origin, if origin = [] then .null else .text origin), (.createdBy, facts.createdBy),
      (.createdRoles, facts.createdRoles)],
   .delete ⟨.relationTypes, named vcat vname⟩] ++
  facts.typeFacts.map (fun cells => .insert .relationTypes ((.vcat, .text vcat) :: (.vname, .text vname) :: cells)) ++
  .delete ⟨.objectColumns, namedKind vcat vname "relation".toList⟩ ::
  facts.columnFacts.map (fun cells => .insert .objectColumns
    ((.vcat, .text vcat) :: (.vname, .text vname) :: (.kind, .text "relation".toList) :: cells)) ++
  [.delete ⟨.keys, namedKind vcat vname "relation".toList⟩]

/-- The name's mark of a deliberate drop goes; a name without a schema has none to clear. -/
def clearMark (vcat vname : Text) : List Write :=
  if (NamePath.splitLeaf vname).1 = [] then []
  else [.delete ⟨.schemaDropped, fun row => row.is .vcat vcat && row.is .path (NamePath.splitLeaf vname).1 &&
    row.is .name (NamePath.splitLeaf vname).2⟩]

/-- `UPDATE table SET cells WHERE test`. -/
def setCells (table : TableName) (cells : List (Column × Value)) (row : Row) : Row := fun cell =>
  if cell ∈ table.columns then ((cells.find? fun given => decide (given.1 = cell)).map Prod.snd).getD (row cell)
  else row cell

def update (store : PolicyTables) (table : TableName) (test : Row → Bool) (cells : List (Column × Value)) :
    PolicyTables where
  rows := Function.update store.rows table
    ((store.rows table).map fun row => if test row then setCells table cells row else row)
  own other row member cell absent := by
    by_cases same : other = table
    · subst same
      rw [Function.update_self, List.mem_map] at member
      obtain ⟨old, held, rfl⟩ := member
      have nothing := store.own _ old held cell absent
      split
      · simp only [setCells, absent, ↓reduceIte, nothing]
      · exact nothing
    · rw [Function.update_of_ne same] at member
      exact store.own other row member cell absent

/-- The primary keys of the tables a rename updates. -/
def primaryKey : TableName → List Column
  | .relations => [.vcat, .vname]
  | .relationTypes => [.vcat, .vname, .column]
  | .objectColumns => [.vcat, .vname, .kind, .pos]
  | .columnComments => [.vcat, .vname, .columnName]
  | _ => []

/-- No two rows of the table have one key. -/
def keyed (store : PolicyTables) (table : TableName) : Bool :=
  decide ((store.rows table).map fun row => (primaryKey table).map row).Nodup

/-- The tables a rename moves a record's rows in, besides its own. -/
def renamedTables : List TableName := [.relationTypes, .objectColumns, .columnComments]

/-- The updates of `CatalogRenameRelation`; the same columns are set in rows of every kind. -/
def renameRows (store : PolicyTables) (vcat vname newVname newPhys : Text) : PolicyTables :=
  let moved := store.update .relations (named vcat vname)
    ((.vname, .text newVname) :: if newPhys = [] then [] else [(.phys, .text newPhys)])
  renamedTables.foldl (fun moved table => moved.update table (named vcat vname) [(.vname, .text newVname)]) moved

def duplicateKey : Text := "acl catalog: write failed: Constraint Error: Duplicate key".toList

/-- `CatalogRenameRelation`; an object without a record changes nothing. -/
def renamed (store : PolicyTables) (vcat vname newVname newPhys : Text) : Except Text PolicyTables :=
  if store.has .relations (named vcat vname) then
    let moved := store.renameRows vcat vname newVname newPhys
    if (TableName.relations :: renamedTables).all moved.keyed then .ok (moved.writeAll (clearMark vcat newVname))
    else .error duplicateKey
  else .ok store

/-- A record write of a client's transaction. -/
inductive RecordCall where
  | registerView (vcat vname body : Text) (facts : RegisterFacts)
  | registerCreated (vcat vname phys origin : Text) (facts : RegisterFacts)
  | renameRelation (vcat vname newVname newPhys : Text)
  | dropRelation (vcat vname : Text)

namespace RecordCall

def vcat : RecordCall → Text
  | registerView vcat _ _ _ | registerCreated vcat _ _ _ _ | renameRelation vcat _ _ _ | dropRelation vcat _ => vcat

/-- The names whose images the write keeps. -/
def names : RecordCall → List Text
  | registerView _ vname _ _ | registerCreated _ vname _ _ _ | dropRelation _ vname => [vname]
  | renameRelation _ vname newVname _ => [vname, newVname]

/-- What the write does to the tables. -/
def apply (store : PolicyTables) : RecordCall → Except Text PolicyTables
  | registerView vcat vname body facts =>
    .ok (store.writeAll (recordStatements facts vcat vname "view".toList [] body []))
  | registerCreated vcat vname phys origin facts =>
    .ok (store.writeAll (recordStatements facts vcat vname "alias".toList phys [] origin ++ clearMark vcat vname))
  | renameRelation vcat vname newVname newPhys => store.renamed vcat vname newVname newPhys
  | dropRelation vcat vname => store.catalogDropRelation vcat vname

end RecordCall

/-- A record write that commits, and what it keeps of itself. -/
def RecordStore.write (store : RecordStore) (call : RecordCall) : Except Text (RecordStore × RecordWrite) := do
  let tables ← call.apply store.tables
  return ({ store with tables := tables, version := store.version + 1 },
    { store := store.home, version := store.version + 1,
      names := call.names.map fun name => (name,
        ⟨store.tables.readRelationRows call.vcat name, tables.readRelationRows call.vcat name⟩) })

/-! ## Undoing -/

inductive RecordUndoOutcome where
  | undone
  | changedSince
  | writtenSince
  | otherStore
deriving DecidableEq, Repr

/-- The record is still the one an image shows. -/
def sameRecord (now image : RelationRows) : Bool :=
  now.record.isSome && decide (now.record = image.record) &&
    sourceTables.all fun table => !ownFacts table || sameRows now image table

/-- `InsertRows`. -/
def insertRows (table : TableName) (rows : List RowImage) : List Write :=
  rows.map fun values => .insert table (table.columns.zip values)

/-- The name's rows of one table go, and rows of an image come in their place. -/
def replaceRows (store : PolicyTables) (vcat vname : Text) (table : TableName) (rows : List RowImage) : PolicyTables :=
  store.writeAll (.delete ⟨table, store.sourceHits vcat vname table⟩ :: insertRows table rows)

/-- `TakeName`: the name's rows go as a drop takes them, and the tables the change wrote come back. -/
def takeName (store : PolicyTables) (vcat vname : Text) (change : RelationRowsChange) : PolicyTables :=
  let sameNamedFunction := store.has .functions (named vcat vname)
  sourceTables.foldl (fun taken table =>
    if sharesGrants table && sameNamedFunction then taken
    else taken.replaceRows vcat vname table (if changed change table then change.before.rows table else [])) store

/-- `PutBack`: the tables the change wrote come back. -/
def putBack (store : PolicyTables) (vcat vname : Text) (change : RelationRowsChange) : PolicyTables :=
  sourceTables.foldl (fun back table =>
    if changed change table then back.replaceRows vcat vname table (change.before.rows table) else back) store

/-- Every version after the write is one of the transaction's own. -/
def onlyOwnSince (store : RecordStore) (write : RecordWrite) (own : List ℕ) : Bool :=
  decide (store.version = write.version +
    own.countP fun mine => decide (write.version < mine) && decide (mine ≤ store.version))

/-- Every name's rows are what the write left. -/
def asLeft (store : PolicyTables) (vcat : Text) (write : RecordWrite) : Bool :=
  write.names.all fun name => sourceTables.all fun table =>
    sameRows (store.readRelationRows vcat name.1) name.2.after table

/-- `UndoStatements`: the tables after the undo, or why it writes nothing. -/
def undoTables (store : RecordStore) (vcat : Text) (write : RecordWrite) (own : List ℕ) (takesCreated : Bool) :
    Except RecordUndoOutcome PolicyTables :=
  match write.names with
  | [(vname, change)] =>
    if change.before.record.isNone ∧ change.after.record.isSome then
      -- a record the write created goes as a drop takes it
      if sameRecord (store.tables.readRelationRows vcat vname) change.after then
        .ok (store.tables.takeName vcat vname change)
      else .error .changedSince
    else if change.before.record.isSome ∧ change.after.record.isNone ∧ onlyOwnSince store write own = false then
      .error .writtenSince
    else if asLeft store.tables vcat write then .ok (store.tables.putBack vcat vname change)
    else .error .changedSince
  | [(vname, change), (newVname, moved)] =>
    if takesCreated then
      -- a rename of a record the transaction created is taken where it is
      if sameRecord (store.tables.readRelationRows vcat newVname) moved.after then
        let taken := store.tables.takeName vcat newVname moved
        if (store.tables.readRelationRows vcat vname).record.isNone then .ok (taken.putBack vcat vname change)
        else .ok taken
      else .error .changedSince
    else if asLeft store.tables vcat write then
      .ok ((store.tables.putBack vcat vname change).putBack vcat newVname moved)
    else .error .changedSince
  | _ => .error .changedSince

/-- The write changed some table. -/
def changedAny (write : RecordWrite) : Bool :=
  write.names.any fun name => sourceTables.any (changed name.2)

/-- `CatalogUndoRecordWrite`: the outcome, the store, and the transaction's own versions. -/
def catalogUndoRecordWrite (store : RecordStore) (vcat : Text) (write : RecordWrite) (own : List ℕ)
    (takesCreated : Bool) : RecordUndoOutcome × RecordStore × List ℕ :=
  if store.home ≠ write.store then (.otherStore, store, own)
  else if changedAny write = false then (.undone, store, own)
  else
    match undoTables store vcat write own takesCreated with
    | .error outcome => (outcome, store, own)
    | .ok tables =>
      (.undone, { store with tables := tables, version := store.version + 1 }, own ++ [store.version + 1])

/-! ## A transaction -/

/-- `RecordUndo::Step`: a record write, and whether it renames a record the transaction created. -/
structure RecordStep where
  vcat : Text
  write : RecordWrite
  takesCreated : Bool

/-- The record writes of a transaction, each with what a rollback is told of it; one that fails writes
nothing and leaves no step. -/
def RecordStore.writeSteps : RecordStore → List (RecordCall × Bool) → RecordStore × List RecordStep
  | store, [] => (store, [])
  | store, (call, takesCreated) :: rest =>
    match store.write call with
    | .error _ => store.writeSteps rest
    | .ok (next, write) =>
      let (last, steps) := next.writeSteps rest
      (last, ⟨call.vcat, write, takesCreated⟩ :: steps)

/-- The undos of a rollback, in the order given: what each answers, the store, and the transaction's own
versions. -/
def undoSteps : List RecordStep → RecordStore → List ℕ → List RecordUndoOutcome × RecordStore × List ℕ
  | [], store, own => ([], store, own)
  | step :: rest, store, own =>
    let (outcome, next, more) := catalogUndoRecordWrite store step.vcat step.write own step.takesCreated
    let (outcomes, last, all) := undoSteps rest next more
    (outcome :: outcomes, last, all)

/-- The policy versions the transaction's record writes committed. -/
def ownVersions (steps : List RecordStep) : List ℕ := steps.map fun step => step.write.version

end PolicyTables

end DuckAcl
