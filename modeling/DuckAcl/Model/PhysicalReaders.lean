import DuckAcl.Model.NameKeys

/-! # Readers of physical sources

What a listing shows of the physical sources is read by table functions, which one statement runs in an order of the
engine's own (`acl_platform_sources.cpp`). They share what they learned of each source, so that a failing one costs
its failure once, and one of them names what could not be read.
-/

namespace DuckAcl

/-- What a read throws (`SourceFailureClass`): the source's failure, by its class alone, or what ends the statement. -/
inductive SourceFault where
  | failed (errorClass : Text)
  | ends
deriving DecidableEq, Repr

/-- `NOT_ATTACHED`. -/
def notAttached : Text := "not attached".toList

/-! ## What a source holds -/

/-- The types `NumericFacts` tells apart. -/
inductive PhysicalType where
  | invalid
  | decimal (width scale : ℕ)
  | hugeint
  | bigint
  | integer
  | smallint
  | tinyint
  | float
  | double
  | other
deriving DecidableEq, Repr

/-- A column of a table, or one a view answers, which has neither default nor tags. -/
structure PhysicalColumn where
  name : Text
  defaultValue : Option Text := none
  generated : Option Text := none
  notNull : Bool := false
  type : PhysicalType
  typeName : Text
  comment : Option Text := none
  tags : List (Text × Text) := []
deriving DecidableEq, Repr

/-- A table or a view; a view that does not bind answers no columns. -/
structure PhysicalEntry where
  name : Text
  isView : Bool := false
  temporary : Bool := false
  comment : Option Text := none
  tags : List (Text × Text) := []
  columns : List PhysicalColumn := []
deriving DecidableEq, Repr

/-- A schema, with what its scan comes upon, and what the scan throws after it. -/
structure PhysicalSchema where
  name : Text
  path : List Text
  tags : List (Text × Text) := []
  entries : List PhysicalEntry := []
  throws : Option SourceFault := none
deriving DecidableEq, Repr

/-- An attached database as it answers one reader. Its catalog looks names up without their case. -/
structure AttachedDatabase where
  name : Text
  isSystem : Bool := false
  isTemporary : Bool := false
  hidden : Bool := false
  catalogType : Text := []
  /-- `GetSchemas`. -/
  schemas : Except SourceFault (List PhysicalSchema)
  /-- `GetSchema`. -/
  schema : Text → Except SourceFault (Option PhysicalSchema)
  /-- `GetEntry`, with the schema as the catalog spells it. -/
  entry : Text → Text → Except SourceFault (Option (Text × PhysicalEntry))
  schema_fold : ∀ name, schema (Text.fold name) = schema name
  schema_named : ∀ name found, schema name = .ok (some found) → Text.fold found.name = Text.fold name
  entry_fold : ∀ schema name, entry (Text.fold schema) (Text.fold name) = entry schema name
  entry_named : ∀ schema name found, entry schema name = .ok (some found) →
    Text.fold found.1 = Text.fold schema ∧ Text.fold found.2.name = Text.fold name

/-- What the attached databases answer to one reader. -/
structure SourceAnswers where
  /-- `IsInterrupted`, when this key's or database's turn comes. -/
  interrupted : Text → Bool := fun _ => false
  /-- `GetDatabases`. -/
  databases : List AttachedDatabase
  /-- `GetDatabase`. -/
  database : Text → Except SourceFault (Option AttachedDatabase)
  database_fold : ∀ name, database (Text.fold name) = database name
  database_named : ∀ name found, database name = .ok (some found) → Text.fold found.name = Text.fold name

/-! ## Rows -/

/-- A row of a physical reader; the length of a character column is always NULL. -/
inductive PhysicalRow where
  | table (database schema name : Text) (isView temporary : Bool) (comment : Option Text) (tags : List (Text × Text))
  | column (database schema table name : Text) (index : ℕ) (defaultValue : Option Text) (nullable : Bool)
    (dataType : Option Text) (precision radix scale : Option ℕ) (isGenerated : Bool) (generation comment : Option Text)
    (tags : List (Text × Text))
  | schema (database name : Text) (tags : List (Text × Text))
  | unread (database schema errorClass : Text)
deriving DecidableEq, Repr

/-- `NumericFacts`: precision, radix and scale. -/
def numericFacts : PhysicalType → Option ℕ × Option ℕ × Option ℕ
  | .decimal width scale => (some width, some 10, some scale)
  | .hugeint => bits 128
  | .bigint => bits 64
  | .integer => bits 32
  | .smallint => bits 16
  | .tinyint => bits 8
  | .float => bits 24
  | .double => bits 53
  | .invalid | .other => (none, none, none)
where
  bits (precision : ℕ) : Option ℕ × Option ℕ × Option ℕ := (some precision, some 2, some 0)

/-- `PhysicalRows`. -/
def physicalRows (columns : Bool) (database schema : Text) (entry : PhysicalEntry) : List PhysicalRow :=
  if columns then
    entry.columns.zipIdx.map fun (column, position) =>
      let (precision, radix, scale) := numericFacts column.type
      let dataType := if column.type = .invalid then none else some column.typeName
      if entry.isView then
        .column database schema entry.name column.name (position + 1) none true dataType precision radix scale false none
          column.comment []
      else
        .column database schema entry.name column.name (position + 1) (column.generated <|> column.defaultValue)
          (!column.notNull) dataType precision radix scale column.generated.isSome column.generated column.comment
          column.tags
  else [.table database schema entry.name entry.isView entry.temporary entry.comment entry.tags]

/-! ## What the readers of a statement share -/

/-- `PhysicalReadCache::Failure`. -/
structure SourceFailure where
  database : Text
  schema : Text
  errorClass : Text
deriving DecidableEq, Repr

/-- `PhysicalReadCache`, empty at each query's begin; an assignment to a key of a map stands before what it overwrites. -/
structure PhysicalReadCache where
  failed : List (Text × SourceFailure) := []
  failedDatabase : List (Text × SourceFailure) := []
  answered : List Text := []
  read : List Text := []
deriving DecidableEq, Repr

/-- What a reader has done so far: its rows, the keys and objects it met, and what was counted as unreadable. -/
structure PhysicalReading where
  rows : List PhysicalRow := []
  seen : List Text := []
  emitted : List Text := []
  cache : PhysicalReadCache
  /-- `AuditSourceUnreadable`. -/
  unreadable : List (Text × Text) := []
deriving DecidableEq, Repr

/-- `PhysicalKind`. -/
inductive PhysicalKind where
  | tables
  | columns
  | unread
  | schemas
deriving DecidableEq, Repr

/-- The database, the schema and the object of a key a reader takes. -/
def readablePath (kind : PhysicalKind) (key : Text) : Option (Text × Text × Option Text) :=
  match NamePath.fromKey key with
  | some [database, schema] => some (database, schema, none)
  | some [database, schema, object] => if kind = .schemas then none else some (database, schema, some object)
  | _ => none

namespace PhysicalReading

/-- `once`, and the rows of an object met the first time; the reader of what is unread keeps none. -/
def emit (kind : PhysicalKind) (database schema : Text) (reading : PhysicalReading) (entry : PhysicalEntry) : PhysicalReading :=
  let object := NamePath.foldKey [database, schema, entry.name]
  if object ∈ reading.emitted then reading
  else
    { reading with
      emitted := object :: reading.emitted
      rows := if kind = .unread then reading.rows
        else reading.rows ++ physicalRows (decide (kind = .columns)) database schema entry }

/-- `fail`: a database as the node spells it, and the schema as the key does. -/
def fail (reading : PhysicalReading) (database schema group key errorClass : Text) : PhysicalReading :=
  { reading with
    cache := { reading.cache with
      failed := (group, ⟨database, schema, errorClass⟩) :: reading.cache.failed
      failedDatabase := if key ∈ reading.cache.answered then reading.cache.failedDatabase
        else (key, ⟨database, [], errorClass⟩) :: reading.cache.failedDatabase }
    unreadable := if errorClass = notAttached then reading.unreadable else reading.unreadable ++ [(database, errorClass)] }

/-- A key was read whole. -/
def answer (reading : PhysicalReading) (key lowered : Text) : PhysicalReading :=
  { reading with
    cache := { reading.cache with answered := key :: reading.cache.answered, read := lowered :: reading.cache.read } }

/-- What catches an exception: the rows since the key began go. -/
def caught (before after : PhysicalReading) (fail : Text → PhysicalReading → PhysicalReading) : SourceFault → Option PhysicalReading
  | .ends => none
  | .failed errorClass => some (fail errorClass { after with rows := before.rows })

variable (kind : PhysicalKind) (answers : SourceAnswers)

/-- The `try` block of a key, over a database that is attached. -/
def readAttached (reading : PhysicalReading) (found : AttachedDatabase) (database schema : Text) (object : Option Text) :
    Option PhysicalReading :=
  let key := Text.fold database
  let group := NamePath.foldKey [database, schema]
  let fail (errorClass : Text) (reading : PhysicalReading) := reading.fail found.name schema group key errorClass
  if found.hidden then some reading
  else
    match object with
    | some object =>
      match found.entry schema object with
      | .error fault => caught reading reading fail fault
      | .ok none => some (reading.answer key (NamePath.foldKey [database, schema, object]))
      | .ok (some (spelled, entry)) =>
        some ((reading.emit kind found.name spelled entry).answer key (NamePath.foldKey [database, schema, object]))
    | none =>
      match found.schema schema with
      | .error fault => caught reading reading fail fault
      | .ok none => if kind = .schemas then some reading else some (reading.answer key group)
      | .ok (some inside) =>
        if kind = .schemas then some { reading with rows := reading.rows ++ [.schema found.name inside.name inside.tags] }
        else
          let scanned := inside.entries.foldl (emit kind found.name inside.name) reading
          match inside.throws with
          | none => some (scanned.answer key group)
          | some fault => caught reading scanned fail fault

/-- A key of two parts or three, met the first time: what the statement knows of its source, else a read. -/
def readPath (reading : PhysicalReading) (database schema : Text) (object : Option Text) : Option PhysicalReading :=
  let key := Text.fold database
  let group := NamePath.foldKey [database, schema]
  let lowered := NamePath.foldKey (database :: schema :: object.toList)
  if (reading.cache.failed.lookup group).isSome then some reading
  else
    match reading.cache.failedDatabase.lookup key with
    | some known =>
      some { reading with cache := { reading.cache with
        failed := (group, ⟨known.database, schema, known.errorClass⟩) :: reading.cache.failed } }
    | none =>
      if kind = .unread ∧ lowered ∈ reading.cache.read then some reading
      else
        match answers.database database with
        | .error fault => caught reading reading (fun errorClass after => after.fail database schema group key errorClass) fault
        | .ok none => some (reading.fail database schema group key notAttached)
        | .ok (some found) => readAttached kind reading found database schema object

/-- The loop body of `PhysicalInit`; nothing where the statement ends. -/
def readKey (reading : PhysicalReading) (key : Text) : Option PhysicalReading :=
  match readablePath kind key with
  | none => some reading
  | some (database, schema, object) =>
    let lowered := NamePath.foldKey (database :: schema :: object.toList)
    if lowered ∈ reading.seen then some reading
    else if answers.interrupted key then none
    else readPath kind answers { reading with seen := lowered :: reading.seen } database schema object

end PhysicalReading

/-- The rows of the reader of what is unread: the failure of each key's schema, once. -/
def unreadRows (cache : PhysicalReadCache) : List Text → List Text → List PhysicalRow
  | _, [] => []
  | answered, key :: rest =>
    match readablePath .unread key with
    | none => unreadRows cache answered rest
    | some (database, schema, _) =>
      let group := NamePath.foldKey [database, schema]
      match cache.failed.lookup group with
      | none => unreadRows cache answered rest
      | some failure =>
        if group ∈ answered then unreadRows cache answered rest
        else .unread failure.database failure.schema failure.errorClass :: unreadRows cache (group :: answered) rest

/-- `PhysicalInit`. -/
def physicalInit (kind : PhysicalKind) (keys : List Text) (answers : SourceAnswers) (cache : PhysicalReadCache) :
    Option PhysicalReading :=
  (keys.foldlM (PhysicalReading.readKey kind answers) { cache }).map fun reading =>
    if kind = .unread then { reading with rows := unreadRows reading.cache [] keys } else reading

/-! ## The tree of the attached sources -/

/-- `SplitSource`. -/
def splitSource (key : Text) : Text × Text :=
  match NamePath.fromKey key with
  | some [database] => (database, [])
  | some [database, schema] => (database, schema)
  | _ => (key, [])

/-- `InSources`; no sources named is every source. -/
def inSources (sources : Option (List Text)) (aliasName schema : Text) : Bool :=
  match sources with
  | none => true
  | some sources => sources.any fun source =>
    let (database, inside) := splitSource source
    Text.ciEquals database aliasName && (inside = [] || Text.ciEquals inside schema)

/-- `NamesDatabase`. -/
def namesDatabase (sources : List Text) (aliasName : Text) : Bool :=
  sources.any fun source => Text.ciEquals (splitSource source).1 aliasName

/-- `UnreadSourceMark`. -/
def unreadSourceMark (database errorClass : Text) : Text :=
  "acl: source ".toList ++ (if database = [] then [] else database ++ [' ']) ++ "could not be read (".toList ++ errorClass ++ [')']

/-- A row of the tree: a schema or an object in it, or a column. -/
inductive SourceTreeRow where
  | node (path : Text) (vname comment : Option Text) (type : Text)
  | column (path vname : Text) (position : ℕ) (name type : Text)
deriving DecidableEq, Repr

/-- `SourceDatabases`, of a node whose policy is stored in the database named. -/
def SourceAnswers.sourceDatabases (answers : SourceAnswers) (store : Option Text) : List AttachedDatabase :=
  answers.databases.filter fun database =>
    !database.isSystem && !database.isTemporary && !database.hidden &&
      !(store.any (Text.ciEquals database.name ·)) && !Text.ciEquals database.catalogType "tresor".toList

/-- What a scan adds to the tree. -/
def treeEntry (columns : Bool) (path : Text) (entry : PhysicalEntry) : List SourceTreeRow :=
  if columns then
    entry.columns.zipIdx.map fun (column, position) => .column path entry.name (position + 1) column.name column.typeName
  else [.node path (some entry.name) entry.comment (if entry.isView then "VIEW".toList else "BASE TABLE".toList)]

/-- The loop over the schemas of a database. -/
def treeSchemas (columns : Bool) (only : Option (List Text)) (aliasName : Text) : List PhysicalSchema → Except SourceFault (List SourceTreeRow)
  | [] => .ok []
  | schema :: rest =>
    match schema.path with
    | [] => treeSchemas columns only aliasName rest
    | part :: _ =>
      if inSources only aliasName part then
        let path := NamePath.toKey ("attached".toList :: aliasName :: schema.path)
        match schema.throws with
        | some fault => .error fault
        | none => (treeSchemas columns only aliasName rest).map fun later =>
          (if columns then [] else [.node path none none "SCHEMA".toList]) ++
            schema.entries.flatMap (treeEntry columns path) ++ later
      else treeSchemas columns only aliasName rest

/-- What the reader of the tree has done so far. -/
structure TreeReading where
  rows : List SourceTreeRow := []
  cache : PhysicalReadCache
  unreadable : List (Text × Text) := []
deriving DecidableEq, Repr

namespace TreeReading

/-- `unread_node`. -/
def unreadNode (columns : Bool) (aliasName errorClass : Text) : List SourceTreeRow :=
  if columns then []
  else [.node (NamePath.toKey ["attached".toList, aliasName]) none (some (unreadSourceMark aliasName errorClass)) "SCHEMA".toList]

/-- The loop body of `SourcesInit`. -/
def readDatabase (columns : Bool) (only : Option (List Text)) (interrupted : Text → Bool) (reading : TreeReading)
    (database : AttachedDatabase) : Option TreeReading :=
  let aliasName := database.name
  let key := Text.fold aliasName
  if only.any (!namesDatabase · aliasName) then some reading
  else if interrupted aliasName then none
  else
    match reading.cache.failedDatabase.lookup key with
    | some known => some { reading with rows := reading.rows ++ unreadNode columns aliasName known.errorClass }
    | none =>
      match database.schemas.bind (treeSchemas columns only aliasName) with
      | .ok rows =>
        some { reading with
          rows := reading.rows ++ rows
          cache := { reading.cache with answered := key :: reading.cache.answered } }
      | .error .ends => none
      | .error (.failed errorClass) =>
        some
          { rows := reading.rows ++ unreadNode columns aliasName errorClass
            cache := { reading.cache with
              failedDatabase := if key ∈ reading.cache.answered then reading.cache.failedDatabase
                else (key, ⟨aliasName, [], errorClass⟩) :: reading.cache.failedDatabase }
            unreadable := reading.unreadable ++ [(aliasName, errorClass)] }

end TreeReading

/-- `SourcesInit`. -/
def sourcesInit (columns : Bool) (only : Option (List Text)) (store : Option Text) (answers : SourceAnswers)
    (cache : PhysicalReadCache) : Option TreeReading :=
  (answers.sourceDatabases store).foldlM (TreeReading.readDatabase columns only answers.interrupted) { cache }

/-! ## A statement -/

/-- A reader of a statement, with what the sources answer it. -/
inductive SourceReader where
  | physical (kind : PhysicalKind) (keys : List Text) (answers : SourceAnswers)
  | tree (columns : Bool) (only : Option (List Text)) (store : Option Text) (answers : SourceAnswers)

/-- The readers that ran, the rows each answered, what they share, and what they counted as unreadable. -/
structure ListingStatement where
  cache : PhysicalReadCache := {}
  physical : List (PhysicalKind × List Text × List PhysicalRow) := []
  unreadable : List (Text × Text) := []
deriving DecidableEq, Repr

/-- One reader runs; nothing where it ends the statement. -/
def ListingStatement.step (statement : ListingStatement) : SourceReader → Option ListingStatement
  | .physical kind keys answers =>
    (physicalInit kind keys answers statement.cache).map fun reading =>
      { cache := reading.cache
        physical := statement.physical ++ [(kind, keys, reading.rows)]
        unreadable := statement.unreadable ++ reading.unreadable }
  | .tree columns only store answers =>
    (sourcesInit columns only store answers statement.cache).map fun reading =>
      { statement with cache := reading.cache, unreadable := statement.unreadable ++ reading.unreadable }

end DuckAcl
