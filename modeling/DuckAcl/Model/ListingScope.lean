import DuckAcl.Library.Joins
import DuckAcl.Library.Predicates
import DuckAcl.Library.Scope

/-! # Narrowed metadata listings

A metadata surface in a FROM is replaced by the principal's own catalog, listed. The rewriter narrows the
listing by what the WHERE of the same SELECT says of the surface's catalog, schema, name and key columns:
`scopeOf` reads the constant conjuncts, the store lists what the scope keeps. The statement then runs over
the narrowed listing, and the WHERE is judged there again.

What a statement answers is DuckDB's to say. The shapes of a FROM and the conjuncts `scopeOf` looks for are
evaluated here; any other expression, a PIVOT and what a SELECT makes of its rows are functions of what
they read and of the answers of the queries inside them. A statement stays within the row bound, so the
bound's check passes every listing on.
-/

namespace DuckAcl.Listing

/-- A value of the engine; `other` is any scalar that is no text, number or Boolean, with its text. -/
inductive Value where
  | null
  | text (value : Text)
  | number (value : Int)
  | bool (value : Bool)
  | other (type : Nat) (value : Text)
deriving DecidableEq, Repr

/-- The rows a query answers. -/
abbrev Table := List (List Value)

/-- What the names of an expression read. -/
abbrev Reader := List Text → Value

/-- A row of a FROM: the cells of a relation, a pair of rows, or the padding of an outer join. -/
inductive Row where
  | absent
  | cells (values : List Value)
  | pair (left right : Row)
deriving DecidableEq, Repr

/-- The metadata surfaces, under the kinds the store lists them by. -/
inductive Surface where
  | tables
  | columns
  | schemata
  | duckdbTables
  | duckdbViews
  | duckdbColumns
  | duckdbSchemas
  | databases
  | duckdbFunctions
  | duckdbTypes
  | keys
  | references
deriving DecidableEq, Repr

/-- `ListingScope`. -/
structure ListingScope where
  catalogs : List Text := []
  schemas : List Text := []
  tables : List Text := []
  objects : List Text := []
deriving DecidableEq, Repr

/-- The vectors of a `ListingScope`. -/
inductive ScopePart where
  | catalogs
  | schemas
  | tables
  | objects
deriving DecidableEq, Repr

namespace ListingScope

/-- The values of one part. -/
def part (scope : ListingScope) : ScopePart → List Text
  | .catalogs => scope.catalogs
  | .schemas => scope.schemas
  | .tables => scope.tables
  | .objects => scope.objects

/-- The scope with the values of one part set. -/
def setPart (scope : ListingScope) (values : List Text) : ScopePart → ListingScope
  | .catalogs => { scope with catalogs := values }
  | .schemas => { scope with schemas := values }
  | .tables => { scope with tables := values }
  | .objects => { scope with objects := values }

/-- `take`: the first constraint narrows, lower-cased; the WHERE has the rest. -/
def take (scope : ListingScope) (target : Option ScopePart) (values : List Text) : ListingScope :=
  match target with
  | none => scope
  | some target => if scope.part target = [] ∧ values ≠ [] then scope.setPart (values.map Text.fold) target else scope

end ListingScope

namespace Surface

/-- `information_schema.tables` and `information_schema.columns`. -/
def info : Surface → Bool
  | .tables | .columns => true
  | _ => false

/-- `duckdb_tables`, `duckdb_columns` and `duckdb_views`. -/
def duck : Surface → Bool
  | .duckdbTables | .duckdbColumns | .duckdbViews => true
  | _ => false

/-- `acl_keys` and `acl_references` name a catalog and objects by key. -/
def keyed : Surface → Bool
  | .keys | .references => true
  | _ => false

/-- The surface's catalog column. -/
def catalogColumn (kind : Surface) : List Text :=
  if kind.keyed then ["vcat".toList]
  else if kind.info then ["table_catalog".toList]
  else if kind = .schemata then ["catalog_name".toList]
  else if kind.duck ∨ kind = .duckdbSchemas ∨ kind = .databases then ["database_name".toList]
  else []

/-- The surface's schema column. -/
def schemaColumn (kind : Surface) : List Text :=
  if kind.info then ["table_schema".toList]
  else if kind = .schemata ∨ kind.duck ∨ kind = .duckdbSchemas then ["schema_name".toList]
  else []

/-- The surface's name column. -/
def nameColumn (kind : Surface) : List Text :=
  if kind.info ∨ kind = .duckdbTables ∨ kind = .duckdbColumns then ["table_name".toList]
  else if kind = .duckdbViews then ["view_name".toList]
  else []

/-- The columns that name an object by key. -/
def objectColumns : Surface → List Text
  | .keys => ["object".toList]
  | .references => ["from_object".toList, "to_object".toList]
  | _ => []

/-- The columns that narrow a part of the scope. -/
def scopeColumns (kind : Surface) : ScopePart → List Text
  | .catalogs => kind.catalogColumn
  | .schemas => kind.schemaColumn
  | .tables => kind.nameColumn
  | .objects => kind.objectColumns

end Surface

mutual

/-- An expression as `ScopeOf` tells it apart; a null WHERE is `absent`. `conjunction` is an AND, and any
other expression is a function of what it reads and of the answers of its subqueries. -/
inductive Expr where
  | absent
  | columnRef (names : List Text)
  | constant (value : Value)
  | conjunction (children : List Expr)
  | compareEqual (left right : Expr)
  | compareIn (children : List Expr)
  | function (name : Text) (arguments : List Expr)
  | other (queries : List Query) (value : Reader → List Table → Value)

/-- A FROM. A surface carries its alias, its written column aliases and the object an `acl_keys` or
`acl_references` call was given. `merged` are the columns a USING or NATURAL join compares and offers
once; a join with a choice takes some of the rows its condition admits, as ASOF and NEAREST do. -/
inductive Source where
  | surface (kind : Surface) (aliasName : Text) (columnAlias : List Text) (object : Text)
  | relation (name aliasName : Text) (columns : List Text)
  | computed (queries : List Query) (rows : Reader → List Table → Table) (aliasName : Text) (columns : List Text)
  | subquery (query : Query) (aliasName : Text) (columns : List Text)
  | join (kind : JoinKind) (merged : List Text) (choice : Option (Choice Row Row)) (condition : Expr) (left right : Source)
  | positional (left right : Source)
  | pivot (source : Source) (queries : List Query) (reshape : Reader → List Row → List Table → Table) (aliasName : Text)
      (columns : List Text)

/-- A query. A sample is taken of the FROM's rows, before the WHERE. What a SELECT makes of the rows that pass
is a function of them, each with the answers of the subqueries beside the WHERE; a recursive query is iterated
from its first answer. -/
inductive Query where
  | select (source : Source) (sample : Option (List Row → List Row)) (whereClause : Expr) (queries : List Query)
      (finish : Reader → List (Row × List Table) → Table)
  | setOperation (children : List Query) (combine : List Table → Table)
  | cte (name : Text) (query child : Query)
  | recursive (name : Text) (left right : Query) (iterate : Table → (Table → Table) → Table)

end

/-! ## `ScopeOf` -/

namespace Value

/-- The text of a value, as a cast to text writes it. -/
def shown : Value → Text
  | .null => []
  | .text value => value
  | .number value => (toString value).toList
  | .bool value => (toString value).toList
  | .other _ value => value

end Value

/-- A LIKE pattern that matches one name only: no unescaped wildcard; the escapes taken off. -/
def exact (escape : Option Char) : Text → Option Text
  | [] => some []
  | [c] => if c = '%' ∨ c = '_' then none else some [c]
  | c :: next :: rest =>
    if escape = some c then (exact escape rest).map (next :: ·)
    else if c = '%' ∨ c = '_' then none
    else (exact escape (next :: rest)).map (c :: ·)

namespace Expr

/-- `constant`: the text of a constant that is not NULL. -/
def constantText : Expr → Option Text
  | .constant .null => none
  | .constant value => some value.shown
  | _ => none

/-- `column_of`: the part of the scope a column reference narrows. -/
def columnOf (kind : Surface) (aliasName : Text) : Expr → Option ScopePart
  | .columnRef [column] => partOf column
  | .columnRef [qualifier, column] => if Text.ciEquals qualifier aliasName then partOf column else none
  | _ => none
where
  partOf (column : Text) : Option ScopePart :=
    [.catalogs, .schemas, .tables, .objects].find? fun part => (kind.scopeColumns part).any (Text.ciEquals column)

/-- The escape of a `like_escape` call: one byte. -/
def escapeOf (argument : Expr) : Option Char :=
  match argument.constantText with
  | some [c] => if c.toNat < 128 then some c else none
  | _ => none

/-- The column and the one name a LIKE compares it with, if its pattern is a constant without wildcards. -/
def likeName (name : Text) (arguments : List Expr) : Option (Expr × Text) :=
  if name = "~~".toList then
    match arguments with
    | [column, pattern] => pattern.constantText.bind fun pattern => (exact none pattern).map (column, ·)
    | _ => none
  else if name = "like_escape".toList then
    match arguments with
    | [column, pattern, escape] =>
      pattern.constantText.bind fun pattern => escape.escapeOf.bind fun escape => (exact (some escape) pattern).map (column, ·)
    | _ => none
  else none

mutual

/-- `visit`. -/
def visit (kind : Surface) (aliasName : Text) (scope : ListingScope) : Expr → ListingScope
  | .conjunction children => visitAll kind aliasName scope children
  | .compareEqual left right =>
    match right.constantText with
    | some value => scope.take (left.columnOf kind aliasName) [value]
    | none =>
      match left.constantText with
      | some value => scope.take (right.columnOf kind aliasName) [value]
      | none => scope
  | .compareIn (column :: items) =>
    match items.mapM constantText with
    | some values => scope.take (column.columnOf kind aliasName) values
    | none => scope
  | .function name arguments =>
    match likeName name arguments with
    | some (column, value) => scope.take (column.columnOf kind aliasName) [value]
    | none => scope
  | _ => scope

def visitAll (kind : Surface) (aliasName : Text) (scope : ListingScope) : List Expr → ListingScope
  | [] => scope
  | child :: rest => visitAll kind aliasName (child.visit kind aliasName scope) rest

end

end Expr

/-- `ScopeOf`, over the WHERE of the SELECT whose FROM is being rewritten. Written column aliases rename the
surface's columns, so the WHERE's names are not its own. -/
def scopeOf (kind : Surface) (listingWhere : Expr) (aliasName : Text) (columnAlias : List Text) : ListingScope :=
  if columnAlias ≠ [] then {} else listingWhere.visit kind aliasName {}

/-! ## What a statement answers -/

/-- An item of a LIKE pattern: a letter, any one letter, or any letters. -/
inductive PatternItem where
  | letter (value : Char)
  | one
  | many
deriving DecidableEq, Repr

/-- The item of a letter that is not escaped. -/
def patternItem (c : Char) : PatternItem :=
  if c = '%' then .many else if c = '_' then .one else .letter c

/-- The items of a pattern; a pattern must not end in its escape. -/
def patternItems (escape : Option Char) : Text → Option (List PatternItem)
  | [] => some []
  | [c] => if escape = some c then none else some [patternItem c]
  | c :: next :: rest =>
    if escape = some c then (patternItems escape rest).map (.letter next :: ·)
    else (patternItems escape (next :: rest)).map (patternItem c :: ·)

/-- Whether a text is what the items of a pattern say. -/
def itemsMatch : List PatternItem → Text → Bool
  | [], text => text.isEmpty
  | .many :: items, text => text.tails.any fun suffix => itemsMatch items suffix
  | .letter c :: items, t :: text => t == c && itemsMatch items text
  | .one :: items, _ :: text => itemsMatch items text
  | _ :: _, [] => false

/-- `LIKE` with an optional escape character. -/
def likeMatches (escape : Option Char) (pattern text : Text) : Bool :=
  (patternItems escape pattern).any fun items => itemsMatch items text

/-- What the engine is asked for besides the shapes evaluated here: the scalar functions, the fields of a
value, and the number a text is cast to when it is compared with one. -/
structure Engine where
  call : Text → List Value → Value
  field : Value → List Text → Value
  castNumber : Text → Option Int

namespace Value

/-- A truth value as a value. -/
def ofOutcome : Outcome3 → Value
  | some truth => .bool truth
  | none => .null

/-- A value as a truth value. -/
def outcome : Value → Outcome3
  | .bool truth => some truth
  | _ => none

/-- `=`: a text is compared with a number as the number it is cast to. -/
def equal (engine : Engine) : Value → Value → Outcome3
  | .null, _ => none
  | _, .null => none
  | .text word, .number value => (engine.castNumber word).map (· == value)
  | .number value, .text word => (engine.castNumber word).map (· == value)
  | left, right => some (left == right)

/-- `IN`. -/
def isIn (engine : Engine) (value : Value) : List Value → Outcome3
  | [] => some false
  | item :: items => (value.equal engine item).or (isIn engine value items)

/-- A scalar function; the LIKE of two and of three arguments compares texts. -/
def call (engine : Engine) (name : Text) (arguments : List Value) : Value :=
  if name = "~~".toList then
    match arguments with
    | [value, pattern] =>
      if value = .null ∨ pattern = .null then .null else .bool (likeMatches none pattern.shown value.shown)
    | _ => engine.call name arguments
  else if name = "like_escape".toList then
    match arguments with
    | [value, pattern, escape] =>
      if value = .null ∨ pattern = .null ∨ escape = .null then .null
      else
        match escape.shown with
        | [] => .bool (likeMatches none pattern.shown value.shown)
        | [c] => .bool (likeMatches (some c) pattern.shown value.shown)
        | _ => .null
    | _ => engine.call name arguments
  else engine.call name arguments

end Value

/-- What a FROM makes of a column's name. -/
inductive Reading where
  | missing
  | ambiguous
  | value (value : Value)
deriving DecidableEq, Repr

/-- The reading of a name that two sides may offer. -/
def Reading.among : Reading → Reading → Reading
  | .missing, right => right
  | left, .missing => left
  | _, _ => .ambiguous

/-- The column of a relation, in a row's cells; padding reads NULL. -/
def readCells (relation : Relation) (cells : List Value) (qualifier : Option Text) (column : Text) : Reading :=
  if qualifier.all (Text.ciEquals relation.name) then
    match relation.columns.findIdx? (Text.ciEquals column) with
    | some index => .value (cells.getD index .null)
    | none => .missing
  else .missing

namespace Row

/-- The cells of a relation's row. -/
def values : Row → List Value
  | .cells values => values
  | _ => []

/-- The left half of a joined row. -/
def left : Row → Row
  | .pair left _ => left
  | _ => .absent

/-- The right half of a joined row. -/
def right : Row → Row
  | .pair _ right => right
  | _ => .absent

end Row

/-- The column a USING join offers once. -/
def mergedValue (kind : JoinKind) (left right : Value) : Value :=
  match kind with
  | .inner | .left | .semi | .anti => left
  | .right => right
  | .full => if left = .null then right else left

/-- The reading of a column a join merges; both sides have it once. -/
def Reading.merged (kind : JoinKind) : Reading → Reading → Reading
  | .value left, .value right => .value (mergedValue kind left right)
  | _, _ => .ambiguous

/-- Whether a name is one of the columns a join merges. -/
def isMerged (merged : List Text) (qualifier : Option Text) (column : Text) : Bool :=
  qualifier.isNone && merged.any (Text.ciEquals column)

/-- The listings of a principal. The catalog, schema, name and key columns are texts; a scope leaves out rows,
and keeps every row whose catalog, schema, name or key is one of its values up to case. -/
structure Listings where
  columns : Surface → List Text
  rows : Surface → Table
  scope_texts : ∀ kind part, ∀ column ∈ kind.scopeColumns part, ∀ cells ∈ rows kind, ∀ value,
    readCells ⟨[], columns kind⟩ cells none column = .value value → value = .null ∨ ∃ text, value = .text text
  keeps : Surface → ListingScope → List Value → Bool
  keeps_matching : ∀ kind scope cells,
    (∀ part, scope.part part ≠ [] → ∃ column ∈ kind.scopeColumns part, ∃ text,
      readCells ⟨[], columns kind⟩ cells none column = .value (.text text) ∧ text.fold ∈ scope.part part) →
    keeps kind scope cells = true

namespace Listings

variable (listings : Listings)

/-- `MetadataListing`. -/
def metadataListing (kind : Surface) (scope : ListingScope) : Table := (listings.rows kind).filter (listings.keeps kind scope)

/-- Whether a key column names the object, as names compare. -/
def touches (kind : Surface) (object : Text) (cells : List Value) : Bool :=
  kind.objectColumns.any fun column =>
    match readCells ⟨[], listings.columns kind⟩ cells none column with
    | .value (.text text) => Text.ciEquals text object
    | _ => false

/-- `BuildMetadataSubquery`, `BuildKeysSubquery` and `BuildReferencesSubquery`: the object a call was given
narrows where the WHERE does not, and is compared once more over the listing. -/
def metadataSubquery (kind : Surface) (scope : ListingScope) (object : Text) : Table :=
  if kind.keyed ∧ object ≠ [] then
    let scope := if scope.objects = [] then { scope with objects := [object.fold] } else scope
    (listings.metadataListing kind scope).filter (listings.touches kind object)
  else listings.metadataListing kind scope

end Listings

namespace Source

/-- The names a surface's columns go by; the keyed surfaces take no column aliases. -/
def surfaceColumns (listings : Listings) (kind : Surface) (columnAlias : List Text) : List Text :=
  if kind.keyed then listings.columns kind else columnAlias ++ (listings.columns kind).drop columnAlias.length

/-- What a row of a FROM says of a column. -/
def read (listings : Listings) : Source → Row → Option Text → Text → Reading
  | .surface kind aliasName columnAlias _, row, qualifier, column =>
    readCells ⟨aliasName, surfaceColumns listings kind columnAlias⟩ row.values qualifier column
  | .relation _ aliasName columns, row, qualifier, column => readCells ⟨aliasName, columns⟩ row.values qualifier column
  | .computed _ _ aliasName columns, row, qualifier, column => readCells ⟨aliasName, columns⟩ row.values qualifier column
  | .subquery _ aliasName columns, row, qualifier, column => readCells ⟨aliasName, columns⟩ row.values qualifier column
  | .pivot _ _ _ aliasName columns, row, qualifier, column => readCells ⟨aliasName, columns⟩ row.values qualifier column
  | .positional left right, row, qualifier, column =>
    (left.read listings row.left qualifier column).among (right.read listings row.right qualifier column)
  | .join kind merged _ _ left right, row, qualifier, column =>
    if isMerged merged qualifier column then
      (left.read listings row.left qualifier column).merged kind (right.read listings row.right qualifier column)
    else if kind.hidesRight then left.read listings row.left qualifier column
    else (left.read listings row.left qualifier column).among (right.read listings row.right qualifier column)

/-- What the names of an expression over a FROM read: a relation's column, else a column's field, else what
the name reads outside. An ambiguous name reads nothing; the binder refuses it. -/
def reader (listings : Listings) (engine : Engine) (source : Source) (row : Row) (outer : Reader) : Reader
  | [] => .null
  | [column] =>
    match source.read listings row none column with
    | .missing => outer [column]
    | .ambiguous => .null
    | .value value => value
  | name :: column :: fields =>
    match source.read listings row (some name) column with
    | .value value => if fields = [] then value else engine.field value fields
    | .ambiguous => .null
    | .missing =>
      match source.read listings row none name with
      | .missing => outer (name :: column :: fields)
      | .ambiguous => .null
      | .value value => engine.field value (column :: fields)

end Source

/-- The rows of a positional join: side by side, the shorter side padded. -/
def positionalRows : List Row → List Row → List Row
  | [], right => right.map (.pair .absent ·)
  | left, [] => left.map (.pair · .absent)
  | l :: left, r :: right => .pair l r :: positionalRows left right

/-- The tables a name may read, with one more. -/
def bindTable (tables : Text → Table) (name : Text) (table : Table) : Text → Table :=
  fun other => if Text.ciEquals other name then table else tables other

section

variable (listings : Listings) (engine : Engine) (scoping : Surface → Expr → Text → List Text → ListingScope)

mutual

/-- The value of an expression. -/
def Expr.eval (tables : Text → Table) (reader : Reader) : Expr → Value
  | .absent => .bool true
  | .columnRef names => reader names
  | .constant value => value
  | .conjunction children => .ofOutcome (Expr.conjoin tables reader children)
  | .compareEqual left right => .ofOutcome ((left.eval tables reader).equal engine (right.eval tables reader))
  | .compareIn children =>
    match Expr.evalAll tables reader children with
    | [] => .null
    | value :: items => .ofOutcome (Value.isIn engine value items)
  | .function name arguments => Value.call engine name (Expr.evalAll tables reader arguments)
  | .other queries value => value reader (Query.answers tables reader queries)

def Expr.evalAll (tables : Text → Table) (reader : Reader) : List Expr → List Value
  | [] => []
  | expr :: rest => expr.eval tables reader :: Expr.evalAll tables reader rest

def Expr.conjoin (tables : Text → Table) (reader : Reader) : List Expr → Outcome3
  | [] => some true
  | expr :: rest => (expr.eval tables reader).outcome.and (Expr.conjoin tables reader rest)

/-- The rows of a FROM, whose SELECT has the WHERE given. -/
def Source.rows (listingWhere : Expr) (tables : Text → Table) (outer : Reader) : Source → List Row
  | .surface kind aliasName columnAlias object =>
    let columnAlias := if kind.keyed then [] else columnAlias
    (listings.metadataSubquery kind (scoping kind listingWhere aliasName columnAlias) object).map .cells
  | .relation name _ _ => (tables name).map .cells
  | .computed queries rows _ _ => (rows outer (Query.answers tables outer queries)).map .cells
  | .subquery query _ _ => (query.answer tables outer).map .cells
  | .pivot source queries reshape _ _ =>
    (reshape outer (source.rows listingWhere tables outer) (Query.answers tables outer queries)).map .cells
  | .positional left right => positionalRows (left.rows listingWhere tables outer) (right.rows listingWhere tables outer)
  | .join kind merged choice condition left right =>
    let on (l r : Row) :=
      (merged.all fun column =>
        match left.read listings l none column, right.read listings r none column with
        | .value a, .value b => a != .null && a == b
        | _, _ => false) &&
      condition.eval tables ((Source.positional left right).reader listings engine (.pair l r) outer) == .bool true
    (joinRows on choice kind (left.rows listingWhere tables outer)
      (fun l => right.rows listingWhere tables (left.reader listings engine l outer))
      (right.rows listingWhere tables outer)).map fun row => .pair (row.1.getD .absent) (row.2.getD .absent)

/-- The rows a query answers. -/
def Query.answer (tables : Text → Table) (outer : Reader) : Query → Table
  | .select source sample whereClause queries finish =>
    let passing := (sample.getD id (source.rows whereClause tables outer)).filter fun row =>
      whereClause.eval tables (source.reader listings engine row outer) == .bool true
    finish outer (passing.map fun row => (row, Query.answers tables (source.reader listings engine row outer) queries))
  | .setOperation children combine => combine (Query.answers tables outer children)
  | .cte name query child => child.answer (bindTable tables name (query.answer tables outer)) outer
  | .recursive name left right iterate =>
    iterate (left.answer tables outer) fun table => right.answer (bindTable tables name table) outer

def Query.answers (tables : Text → Table) (outer : Reader) : List Query → List Table
  | [] => []
  | query :: rest => query.answer tables outer :: Query.answers tables outer rest

end

end

end DuckAcl.Listing
