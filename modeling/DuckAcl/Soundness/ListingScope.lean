import Mathlib
import DuckAcl.Model.ListingScope

/-! # When a narrowed listing answers the same question

A conjunct of the WHERE demands that a name of the FROM reads one of some texts. Rows of a relation may be
left out by it where the name is that relation's own and every row of the FROM that stands on a row left
out fails the demand: through the sides of inner and outer joins, through the left side of the others, and
through both sides where a USING join merges the column. A conjunct that a listing was narrowed by must
reach the surface in this way; then no SELECT of the statement sees a difference.
-/

namespace DuckAcl.Listing

/-! ## Reading the columns of a FROM -/

namespace Reading

/-- The reading with its value forgotten: padding reads so. -/
def erase : Reading → Reading
  | .value _ => .value .null
  | reading => reading

theorem erase_among (left right : Reading) : (left.among right).erase = left.erase.among right.erase := by
  cases left <;> cases right <;> rfl

theorem erase_merged (kind : JoinKind) (left right : Reading) :
    (left.merged kind right).erase = left.erase.merged kind right.erase := by
  cases left <;> cases right <;> cases kind <;> rfl

theorem exists_of_erase {reading : Reading} (found : reading.erase = .value .null) : ∃ value, reading = .value value := by
  cases reading with
  | value value => exact ⟨value, rfl⟩
  | missing | ambiguous => cases found

theorem missing_of_erase {reading : Reading} (missing : reading.erase = .missing) : reading = .missing := by
  cases reading with
  | missing => rfl
  | value | ambiguous => cases missing

end Reading

theorem readCells_erase (relation : Relation) (cells : List Value) (qualifier : Option Text) (column : Text) :
    (readCells relation cells qualifier column).erase = readCells relation [] qualifier column := by
  unfold readCells
  split
  · split <;> rfl
  · rfl

namespace Source

variable (listings : Listings)

/-- Where a name is found does not depend on the row, and padding reads NULL there. -/
theorem read_erase (source : Source) (row : Row) (qualifier : Option Text) (column : Text) :
    (source.read listings row qualifier column).erase = source.read listings .absent qualifier column :=
  match source with
  | .surface .. | .relation .. | .computed .. | .subquery .. | .pivot .. => readCells_erase _ _ _ _
  | .positional left right => by
    simp only [read]
    rw [Reading.erase_among, read_erase left, read_erase right]
    rfl
  | .join kind merged _ _ left right => by
    have ihLeft := read_erase left row.left qualifier column
    have ihRight := read_erase right row.right qualifier column
    have padded : Row.absent.left = .absent ∧ Row.absent.right = .absent := ⟨rfl, rfl⟩
    simp only [read, padded]
    split
    · rw [Reading.erase_merged, ihLeft, ihRight]
    · split
      · exact ihLeft
      · rw [Reading.erase_among, ihLeft, ihRight]

end Source

/-! ## What the WHERE demands -/

/-- Whether a value is admitted by some texts: a text that is one of them up to case, or no text at all. -/
def Value.admitted (values : List Text) : Value → Bool
  | .text word => values.any (Text.ciEquals word)
  | value => value != .null

/-- A column that has to read one of some texts, up to case. -/
structure Demand where
  qualifier : Option Text
  column : Text
  values : List Text
deriving DecidableEq, Repr

namespace Demand

variable (listings : Listings)

/-- Whether the name is a column of the FROM. -/
def ofSource (source : Source) (demand : Demand) : Bool :=
  source.read listings .absent demand.qualifier demand.column == .value .null

/-- Whether the FROM has no such column. -/
def notOfSource (source : Source) (demand : Demand) : Bool :=
  source.read listings .absent demand.qualifier demand.column == .missing

/-- Whether a row meets the demand. -/
def met (source : Source) (row : Row) (demand : Demand) : Bool :=
  match source.read listings row demand.qualifier demand.column with
  | .value value => value.admitted demand.values
  | _ => false

/-- The demands a comparison of an expression with texts makes. -/
def ofColumn (values : List Text) : Expr → List Demand
  | .columnRef [column] => [⟨none, column, values⟩]
  | .columnRef [qualifier, column] => [⟨some qualifier, column, values⟩]
  | _ => []

end Demand

namespace Expr

/-- A constant that is a text. -/
def textConstant : Expr → Option Text
  | .constant (.text value) => some value
  | _ => none

mutual

/-- What the columns have to read for the expression to be true. -/
def demands : Expr → List Demand
  | .conjunction children => demandsAll children
  | .compareEqual left right =>
    match right.textConstant with
    | some value => Demand.ofColumn [value] left
    | none =>
      match left.textConstant with
      | some value => Demand.ofColumn [value] right
      | none => []
  | .compareIn (column :: items) =>
    match items.mapM textConstant with
    | some values => Demand.ofColumn values column
    | none => []
  | .function name arguments =>
    match likeName name arguments with
    | some (column, value) => Demand.ofColumn [value] column
    | none => []
  | _ => []

def demandsAll : List Expr → List Demand
  | [] => []
  | child :: rest => child.demands ++ demandsAll rest

end

end Expr

theorem itemsMatch_letters {name text : Text} (matched : itemsMatch (name.map .letter) text = true) : text = name := by
  induction name generalizing text with
  | nil => simpa [itemsMatch] using matched
  | cons c name ih =>
    cases text with
    | nil => cases matched
    | cons t text =>
      simp only [List.map_cons, itemsMatch, Bool.and_eq_true, beq_iff_eq] at matched
      rw [matched.1, ih matched.2]

theorem patternItem_letter {c : Char} (plain : ¬(c = '%' ∨ c = '_')) : patternItem c = .letter c := by
  rw [not_or] at plain
  simp [patternItem, plain]

/-- The items of a pattern without wildcards are the letters of the one name it stands for. -/
theorem patternItems_of_exact {escape : Option Char} {pattern name : Text} {items : List PatternItem}
    (one : exact escape pattern = some name) (read : patternItems escape pattern = some items) :
    items = name.map .letter := by
  fun_induction exact escape pattern generalizing name items with
  | case1 =>
    obtain rfl := Option.some.inj one
    exact (Option.some.inj read).symm
  | case2 => cases one
  | case3 c plain =>
    obtain rfl := Option.some.inj one
    simp only [patternItems, patternItem_letter plain] at read
    split at read
    · cases read
    · exact (Option.some.inj read).symm
  | case4 c next rest escaped ih =>
    obtain ⟨name, shorter, rfl⟩ := Option.map_eq_some_iff.mp one
    rw [patternItems, if_pos escaped] at read
    obtain ⟨items, rest, rfl⟩ := Option.map_eq_some_iff.mp read
    rw [ih shorter rest, List.map_cons]
  | case5 => cases one
  | case6 c next rest notEscape plain ih =>
    obtain ⟨name, shorter, rfl⟩ := Option.map_eq_some_iff.mp one
    rw [patternItems, if_neg notEscape] at read
    obtain ⟨items, rest, rfl⟩ := Option.map_eq_some_iff.mp read
    rw [ih shorter rest, patternItem_letter plain, List.map_cons]

/-- A pattern without wildcards matches the one name it stands for. -/
theorem eq_of_likeMatches {escape : Option Char} {pattern name text : Text} (one : exact escape pattern = some name)
    (matched : likeMatches escape pattern text = true) : text = name := by
  unfold likeMatches at matched
  cases read : patternItems escape pattern with
  | none => rw [read] at matched; cases matched
  | some items =>
    rw [read, patternItems_of_exact one read] at matched
    exact itemsMatch_letters matched

/-! ## A true WHERE meets its demands -/

namespace Value

variable {engine : Engine}

theorem admitted_of_equal {left : Value} {word : Text} {values : List Text} (member : word ∈ values)
    (same : left.equal engine (.text word) = some true) : left.admitted values = true := by
  cases left with
  | text found =>
    simp only [equal, Option.some.injEq, beq_iff_eq, Value.text.injEq] at same
    subst same
    exact List.any_eq_true.mpr ⟨found, member, Text.ciEquals_refl found⟩
  | null => cases same
  | number | bool | other => rfl

theorem equal_comm (left right : Value) : left.equal engine right = right.equal engine left := by
  cases left <;> cases right <;> simp only [equal, Option.some.injEq] <;> exact Bool.beq_comm

theorem admitted_of_isIn {value : Value} {values texts : List Text} (inside : ∀ text ∈ texts, text ∈ values)
    (found : value.isIn engine (texts.map .text) = some true) : value.admitted values = true := by
  induction texts with
  | nil => cases found
  | cons text texts ih =>
    rw [List.map_cons, isIn, Outcome3.or_eq_true] at found
    rcases found with same | found
    · exact admitted_of_equal (inside text List.mem_cons_self) same
    · exact ih (fun text member => inside text (List.mem_cons_of_mem _ member)) found

theorem outcome_ofOutcome (outcome : Outcome3) : (Value.ofOutcome outcome).outcome = outcome := by
  rcases outcome with _ | _ <;> rfl

theorem ofOutcome_eq_true {outcome : Outcome3} : Value.ofOutcome outcome = .bool true ↔ outcome = some true := by
  rcases outcome with _ | _ | _ <;> simp [ofOutcome]

theorem admitted_of_like {value : Value} {escape : Option Char} {pattern name : Text} (present : value ≠ .null)
    (one : exact escape pattern = some name) (matched : likeMatches escape pattern value.shown = true) :
    value.admitted [name] = true := by
  have same := eq_of_likeMatches one matched
  cases value with
  | null => exact absurd rfl present
  | text text => exact List.any_eq_true.mpr ⟨name, List.mem_singleton_self name, by rw [← same]; exact Text.ciEquals_refl _⟩
  | number | bool | other => rfl

end Value

namespace Demand

variable {listings : Listings}

theorem met_iff {source : Source} {row : Row} {demand : Demand} :
    demand.met listings source row = true ↔
      ∃ value, source.read listings row demand.qualifier demand.column = .value value ∧ value.admitted demand.values = true := by
  unfold met
  cases source.read listings row demand.qualifier demand.column <;> simp

/-- A column of the FROM has a value in every row. -/
theorem exists_value {source : Source} {demand : Demand} (own : demand.ofSource listings source = true) (row : Row) :
    ∃ value, source.read listings row demand.qualifier demand.column = .value value := by
  have found := source.read_erase listings row demand.qualifier demand.column
  rw [beq_iff_eq.mp own] at found
  exact Reading.exists_of_erase found

end Demand

/-- A reference to a column of the FROM reads the row. -/
theorem reader_of_column {listings : Listings} (engine : Engine) {source : Source} (row : Row) (outer : Reader)
    {values : List Text} {names : List Text} {demand : Demand} (mentioned : demand ∈ Demand.ofColumn values (.columnRef names))
    (own : demand.ofSource listings source = true) :
    demand.values = values ∧
      source.read listings row demand.qualifier demand.column = .value (source.reader listings engine row outer names) := by
  obtain ⟨value, read⟩ := Demand.exists_value own row
  match names with
  | [column] =>
    obtain rfl := List.mem_singleton.mp mentioned
    exact ⟨rfl, by rw [read]; simp only [Source.reader]; rw [read]⟩
  | [qualifier, column] =>
    obtain rfl := List.mem_singleton.mp mentioned
    exact ⟨rfl, by rw [read]; simp only [Source.reader]; rw [read]; rfl⟩
  | [] | _ :: _ :: _ :: _ => cases mentioned

section

variable {listings : Listings} {engine : Engine} {scoping : Surface → Expr → Text → List Text → ListingScope}
  {tables : Text → Table} {source : Source} {row : Row} {outer : Reader}

/-- A column whose value the texts admit meets the demand made of it. -/
theorem met_of_admitted {values : List Text} {column : Expr} {demand : Demand} (mentioned : demand ∈ Demand.ofColumn values column)
    (own : demand.ofSource listings source = true)
    (admitted : (column.eval listings engine scoping tables (source.reader listings engine row outer)).admitted values = true) :
    demand.met listings source row = true := by
  cases column with
  | columnRef names =>
    obtain ⟨rfl, read⟩ := reader_of_column engine row outer mentioned own
    exact Demand.met_iff.mpr ⟨_, read, by simpa only [Expr.eval] using admitted⟩
  | absent | constant | conjunction | compareEqual | compareIn | function | other => cases mentioned

namespace Expr

theorem eq_of_textConstant {expr : Expr} {value : Text} (constant : expr.textConstant = some value) :
    expr = .constant (.text value) := by
  unfold textConstant at constant
  split at constant
  · rw [Option.some.inj constant]
  · cases constant

theorem eq_of_constantText {expr : Expr} {value : Text} (constant : expr.constantText = some value) :
    ∃ literal, expr = .constant literal ∧ literal ≠ .null ∧ literal.shown = value := by
  unfold constantText at constant
  split at constant
  · cases constant
  · rename_i literal notNull
    exact ⟨literal, rfl, notNull, Option.some.inj constant⟩
  · cases constant

theorem evalAll_of_textConstants {reader : Reader} {items : List Expr} {values : List Text}
    (constants : items.mapM textConstant = some values) :
    Expr.evalAll listings engine scoping tables reader items = values.map .text := by
  induction items generalizing values with
  | nil =>
    obtain rfl := Option.some.inj constants
    rw [Expr.evalAll]
    rfl
  | cons item items ih =>
    rw [List.mapM_cons] at constants
    obtain ⟨value, first, constants⟩ := Option.bind_eq_some_iff.mp constants
    obtain ⟨rest, others, constants⟩ := Option.bind_eq_some_iff.mp constants
    obtain rfl := Option.some.inj constants
    rw [Expr.evalAll, ih others, eq_of_textConstant first, Expr.eval, List.map_cons]

/-- A true LIKE that `ScopeOf` reads a name from has a column that the name admits. -/
theorem admitted_of_likeName {reader : Reader} {name : Text} {arguments : List Expr} {column : Expr} {value : Text}
    (like : likeName name arguments = some (column, value))
    (holds : (Expr.function name arguments).eval listings engine scoping tables reader = .bool true) :
    (column.eval listings engine scoping tables reader).admitted [value] = true := by
  unfold likeName at like
  split at like
  · rename_i isLike
    split at like
    · rename_i compared pattern
      obtain ⟨text, constant, like⟩ := Option.bind_eq_some_iff.mp like
      obtain ⟨one, exactly, pair⟩ := Option.map_eq_some_iff.mp like
      obtain ⟨rfl, rfl⟩ := Prod.mk.inj pair
      obtain ⟨literal, rfl, notNull, rfl⟩ := eq_of_constantText constant
      simp only [Expr.eval, Expr.evalAll, Value.call, isLike, ↓reduceIte] at holds
      split at holds
      · cases holds
      · rename_i present
        exact Value.admitted_of_like (fun null => present (.inl null)) exactly (Value.bool.inj holds)
    · cases like
  · rename_i notLike
    split at like
    · rename_i isLike
      split at like
      · rename_i compared pattern escape
        obtain ⟨text, constant, like⟩ := Option.bind_eq_some_iff.mp like
        obtain ⟨c, escaped, like⟩ := Option.bind_eq_some_iff.mp like
        obtain ⟨one, exactly, pair⟩ := Option.map_eq_some_iff.mp like
        obtain ⟨rfl, rfl⟩ := Prod.mk.inj pair
        obtain ⟨literal, rfl, notNull, rfl⟩ := eq_of_constantText constant
        have escapes : escape.constantText = some [c] := by
          unfold escapeOf at escaped
          split at escaped
          · rename_i found constant
            rw [constant]
            split at escaped
            · rw [Option.some.inj escaped]
            · cases escaped
          · cases escaped
        obtain ⟨symbol, rfl, _, shown⟩ := eq_of_constantText escapes
        rw [isLike] at notLike
        simp only [Expr.eval, Expr.evalAll, Value.call, isLike, notLike, ↓reduceIte, shown] at holds
        split at holds
        · cases holds
        · rename_i present
          exact Value.admitted_of_like (fun null => present (.inl null)) exactly (Value.bool.inj holds)
      · cases like
    · cases like

mutual

/-- Where the WHERE is true, the columns of the FROM that it mentions meet its demands. -/
theorem met_of_true (expr : Expr)
    (holds : expr.eval listings engine scoping tables (source.reader listings engine row outer) = .bool true)
    (demand : Demand) (mentioned : demand ∈ expr.demands) (own : demand.ofSource listings source = true) :
    demand.met listings source row = true :=
  match expr with
  | .conjunction children => by
    rw [Expr.eval, Value.ofOutcome_eq_true] at holds
    rw [demands] at mentioned
    exact met_of_conjoin children holds demand mentioned own
  | .compareEqual left right => by
    rw [Expr.eval, Value.ofOutcome_eq_true] at holds
    rw [demands] at mentioned
    split at mentioned
    · rename_i value constant
      obtain rfl := eq_of_textConstant constant
      exact met_of_admitted mentioned own (Value.admitted_of_equal List.mem_cons_self holds)
    · split at mentioned
      · rename_i value constant
        obtain rfl := eq_of_textConstant constant
        rw [Value.equal_comm] at holds
        exact met_of_admitted mentioned own (Value.admitted_of_equal List.mem_cons_self holds)
      · cases mentioned
  | .compareIn (column :: items) => by
    rw [Expr.eval] at holds
    rw [demands] at mentioned
    split at mentioned
    · rename_i values constants
      rw [Expr.evalAll, evalAll_of_textConstants constants] at holds
      exact met_of_admitted mentioned own (Value.admitted_of_isIn (fun _ member => member) (Value.ofOutcome_eq_true.mp holds))
    · cases mentioned
  | .function name arguments => by
    rw [demands] at mentioned
    split at mentioned
    · rename_i column value like
      exact met_of_admitted mentioned own (admitted_of_likeName like holds)
    · cases mentioned
  | .compareIn [] | .absent | .columnRef _ | .constant _ | .other _ _ => by
    simp only [demands, List.not_mem_nil] at mentioned

theorem met_of_conjoin (children : List Expr)
    (holds : Expr.conjoin listings engine scoping tables (source.reader listings engine row outer) children = some true)
    (demand : Demand) (mentioned : demand ∈ demandsAll children) (own : demand.ofSource listings source = true) :
    demand.met listings source row = true :=
  match children with
  | [] => by simp only [demandsAll, List.not_mem_nil] at mentioned
  | child :: rest => by
    rw [Expr.conjoin, Outcome3.and_eq_true] at holds
    rw [demandsAll, List.mem_append] at mentioned
    rcases mentioned with first | later
    · refine met_of_true child ?_ demand first own
      cases value : child.eval listings engine scoping tables (source.reader listings engine row outer) with
      | bool truth => rw [value] at holds; exact congrArg Value.bool (Option.some.inj holds.1)
      | null | text | number | other => rw [value] at holds; cases holds.1
    · exact met_of_conjoin rest holds.2 demand later own

end

end Expr

end

/-! ## What may be left out of a listing -/

namespace Demand

/-- Whether the demand says of the surface's own column what its scope says of one part. -/
def narrows (kind : Surface) (aliasName : Text) (part : ScopePart) (values : List Text) (demand : Demand) : Bool :=
  demand.qualifier.all (Text.ciEquals aliasName) && (kind.scopeColumns part).any (Text.ciEquals demand.column) &&
    demand.values.map Text.fold == values

end Demand

theorem readCells_congr {relation other : Relation} {cells : List Value} {qualifier : Option Text} {column name : Text}
    (columns : relation.columns = other.columns) (answers : qualifier.all (Text.ciEquals relation.name) = true)
    (same : Text.ciEquals column name = true) :
    readCells relation cells qualifier column = readCells other cells none name := by
  have tests : Text.ciEquals column = Text.ciEquals name := funext (Text.ciEquals_congr_left same)
  unfold readCells
  rw [if_pos answers, columns, tests]
  rfl

section

variable {listings : Listings} {kind : Surface} {aliasName : Text} {columnAlias : List Text} {object : Text}

/-- A row of the surface that meets a demand on the column of a part has one of the part's values there. -/
theorem exists_text_of_met {part : ScopePart} {values : List Text} {demand : Demand} {cells : List Value}
    (columns : Source.surfaceColumns listings kind columnAlias = listings.columns kind)
    (narrows : demand.narrows kind aliasName part values = true)
    (met : demand.met listings (.surface kind aliasName columnAlias object) (.cells cells) = true)
    (listed : cells ∈ listings.rows kind) :
    ∃ column ∈ kind.scopeColumns part, ∃ text,
      readCells ⟨[], listings.columns kind⟩ cells none column = .value (.text text) ∧ text.fold ∈ values := by
  simp only [Demand.narrows, Bool.and_eq_true, beq_iff_eq] at narrows
  obtain ⟨⟨answers, named⟩, rfl⟩ := narrows
  obtain ⟨column, ofPart, same⟩ := List.any_eq_true.mp named
  obtain ⟨value, read, admitted⟩ := Demand.met_iff.mp met
  have plain : readCells ⟨[], listings.columns kind⟩ cells none column = .value value := by
    rw [← read]
    exact (readCells_congr columns answers same).symm
  refine ⟨column, ofPart, ?_⟩
  rcases listings.scope_texts kind part column ofPart cells listed value plain with rfl | ⟨text, rfl⟩
  · cases admitted
  · obtain ⟨wanted, member, equal⟩ := List.any_eq_true.mp admitted
    exact ⟨text, plain, List.mem_map.mpr ⟨wanted, member, (Text.ciEquals_iff.mp equal).symm⟩⟩

/-- A key column that names the object has its key. -/
theorem exists_text_of_touches {cells : List Value} (touches : listings.touches kind object cells = true) :
    ∃ column ∈ kind.objectColumns, ∃ text,
      readCells ⟨[], listings.columns kind⟩ cells none column = .value (.text text) ∧ text.fold ∈ [object.fold] := by
  obtain ⟨column, member, same⟩ := List.any_eq_true.mp touches
  refine ⟨column, member, ?_⟩
  split at same
  · rename_i text read
    exact ⟨text, read, List.mem_singleton.mpr (Text.ciEquals_iff.mp same)⟩
  · cases same

/-- The rows of a listing that meet the demands are the ones the whole listing has, if every part of the
scope stands in a demand. -/
theorem filter_metadataSubquery {scope : ListingScope} {demands : List Demand}
    (columns : ∀ part, scope.part part ≠ [] → Source.surfaceColumns listings kind columnAlias = listings.columns kind)
    (demanded : ∀ part, scope.part part ≠ [] → ∃ demand ∈ demands, demand.narrows kind aliasName part (scope.part part) = true) :
    let meets := fun cells => demands.all fun demand =>
      demand.met listings (.surface kind aliasName columnAlias object) (.cells cells)
    (listings.metadataSubquery kind scope object).filter meets = (listings.rows kind).filter fun cells =>
      meets cells && (!(kind.keyed && object != []) || listings.touches kind object cells) := by
  intro meets
  have matching : ∀ cells ∈ listings.rows kind, meets cells = true → ∀ part, scope.part part ≠ [] →
      ∃ column ∈ kind.scopeColumns part, ∃ text,
        readCells ⟨[], listings.columns kind⟩ cells none column = .value (.text text) ∧ text.fold ∈ scope.part part := by
    intro cells listed met part given
    obtain ⟨demand, member, narrows⟩ := demanded part given
    exact exists_text_of_met (columns part given) narrows (List.all_eq_true.mp met demand member) listed
  unfold Listings.metadataSubquery Listings.metadataListing
  split
  · rename_i called
    rw [List.filter_filter, List.filter_filter]
    refine List.filter_congr fun cells listed => ?_
    cases met : meets cells with
    | false => rfl
    | true =>
      cases touches : listings.touches kind object cells with
      | false => simp [called]
      | true =>
        simp only [Bool.true_and, Bool.or_true]
        refine listings.keeps_matching kind _ cells fun part given => ?_
        split at given <;> rename_i objects
        · rw [if_pos objects]
          cases part with
          | objects => exact exists_text_of_touches touches
          | catalogs => exact matching cells listed met .catalogs given
          | schemas => exact matching cells listed met .schemas given
          | tables => exact matching cells listed met .tables given
        · rw [if_neg objects]
          exact matching cells listed met part given
  · rename_i plain
    rw [List.filter_filter]
    refine List.filter_congr fun cells listed => ?_
    have free : (!(kind.keyed && object != [])) = true := by
      by_contra called
      exact plain (by simpa using called)
    cases met : meets cells with
    | false => rfl
    | true =>
      rw [free, Bool.true_or, Bool.true_and]
      exact listings.keeps_matching kind scope cells fun part given => matching cells listed met part given

end

/-! ## How a demand reaches a surface -/

namespace Demand

variable (listings : Listings)

/-- Whether both sides of a join have the column it merges. -/
def ofBoth (left right : Source) (demand : Demand) : Bool := demand.ofSource listings left && demand.ofSource listings right

/-- Whether the demand may be made of the left side of a join. -/
def passesLeft (kind : JoinKind) (merged : List Text) (left right : Source) (demand : Demand) : Bool :=
  if isMerged merged demand.qualifier demand.column then demand.ofBoth listings left right
  else demand.ofSource listings left && (kind.hidesRight || demand.notOfSource listings right)

/-- Whether the demand may be made of the right side of a join: not where that side is hidden, nor where the
join takes the best of its rows, unless the join compares the column. -/
def passesRight (kind : JoinKind) (merged : List Text) (choice : Option (Choice Row Row)) (left right : Source)
    (demand : Demand) : Bool :=
  if isMerged merged demand.qualifier demand.column then demand.ofBoth listings left right
  else !kind.hidesRight && choice.isNone && demand.ofSource listings right && demand.notOfSource listings left

end Demand

/-- Whether every part of the scope `ScopeOf` makes for a surface stands in a demand that reached it. -/
def surfacePushable (kind : Surface) (listingWhere : Expr) (aliasName : Text) (columnAlias : List Text) (demands : List Demand) :
    Bool :=
  [.catalogs, .schemas, .tables, .objects].all fun part =>
    let values := (scopeOf kind listingWhere aliasName columnAlias).part part
    values == [] || demands.any fun demand => demand.narrows kind aliasName part values

section

variable (listings : Listings)

mutual

/-- Whether the listings inside an expression were narrowed by demands that reach them. -/
def Expr.pushable : Expr → Bool
  | .absent | .columnRef _ | .constant _ => true
  | .conjunction children => Expr.pushableAll children
  | .compareEqual left right => left.pushable && right.pushable
  | .compareIn children => Expr.pushableAll children
  | .function _ arguments => Expr.pushableAll arguments
  | .other queries _ => Query.pushableAll queries

def Expr.pushableAll : List Expr → Bool
  | [] => true
  | expr :: rest => expr.pushable && Expr.pushableAll rest

/-- Whether the listings of a FROM were narrowed by demands that reach them. -/
def Source.pushable (listingWhere : Expr) (demands : List Demand) : Source → Bool
  | .surface kind aliasName columnAlias _ =>
    surfacePushable kind listingWhere aliasName (if kind.keyed then [] else columnAlias) demands
  | .relation _ _ _ => true
  | .computed queries _ _ _ => Query.pushableAll queries
  | .subquery query _ _ => query.pushable
  | .pivot source queries _ _ _ => source.pushable listingWhere [] && Query.pushableAll queries
  | .positional left right => left.pushable listingWhere [] && right.pushable listingWhere []
  | .join kind merged choice condition left right =>
    left.pushable listingWhere (demands.filter (·.passesLeft listings kind merged left right)) &&
      right.pushable listingWhere (demands.filter (·.passesRight listings kind merged choice left right)) && condition.pushable

/-- Whether the listings of a query were narrowed by demands that reach them: those of the WHERE on columns of
the FROM, unless a sample is taken before the WHERE. -/
def Query.pushable : Query → Bool
  | .select source sample whereClause queries _ =>
    let demands := if sample.isSome then [] else whereClause.demands.filter (·.ofSource listings source)
    source.pushable whereClause demands && whereClause.pushable && Query.pushableAll queries
  | .setOperation children _ => Query.pushableAll children
  | .cte _ query child => query.pushable && child.pushable
  | .recursive _ left right _ => left.pushable && right.pushable

def Query.pushableAll : List Query → Bool
  | [] => true
  | query :: rest => query.pushable && Query.pushableAll rest

end

end

/-! ## Through a join -/

namespace Source

variable (listings : Listings)

/-- Names are read up to case. -/
theorem read_congr {column name : Text} (same : Text.ciEquals column name = true) (source : Source) (row : Row)
    (qualifier : Option Text) : source.read listings row qualifier column = source.read listings row qualifier name := by
  have tests : Text.ciEquals column = Text.ciEquals name := funext (Text.ciEquals_congr_left same)
  have cells : ∀ relation values, readCells relation values qualifier column = readCells relation values qualifier name := by
    intro relation values
    simp only [readCells, tests]
  match source with
  | .surface .. | .relation .. | .computed .. | .subquery .. | .pivot .. => exact cells _ _
  | .positional left right => simp only [read, read_congr same left, read_congr same right]
  | .join kind merged choice condition left right =>
    have names : isMerged merged qualifier column = isMerged merged qualifier name := by
      simp only [isMerged, tests]
    simp only [read, names, read_congr same left, read_congr same right]

end Source

/-- The row a join's output stands for. -/
def pairRow (out : Option Row × Option Row) : Row := .pair (out.1.getD .absent) (out.2.getD .absent)

/-- Whether a row meets every demand. -/
def Source.meets (listings : Listings) (source : Source) (demands : List Demand) (row : Row) : Bool :=
  demands.all (·.met listings source row)

section

variable {listings : Listings} {kind : JoinKind} {merged : List Text} {choice : Option (Choice Row Row)} {condition : Expr}
  {left right : Source} {demand : Demand} {l r : Row}

theorem Demand.not_met_absent (source : Source) : ¬ demand.met listings source .absent = true := by
  intro met
  obtain ⟨value, read, admitted⟩ := Demand.met_iff.mp met
  have padded := source.read_erase listings .absent demand.qualifier demand.column
  rw [read] at padded
  cases padded
  cases admitted

/-- A column of the left side alone reads the left half of a pair. -/
theorem read_pair_left (plain : isMerged merged demand.qualifier demand.column = false)
    (passes : demand.passesLeft listings kind merged left right = true) :
    (Source.join kind merged choice condition left right).read listings (.pair l r) demand.qualifier demand.column
      = left.read listings l demand.qualifier demand.column := by
  rw [Demand.passesLeft, plain, if_neg Bool.false_ne_true, Bool.and_eq_true, Bool.or_eq_true] at passes
  rw [Source.read, plain, if_neg Bool.false_ne_true]
  split
  · rfl
  · rename_i shown
    have missing := right.read_erase listings r demand.qualifier demand.column
    rw [beq_iff_eq.mp (passes.2.resolve_left shown)] at missing
    obtain ⟨value, own⟩ := Demand.exists_value passes.1 l
    simp only [Row.left, Row.right]
    rw [Reading.missing_of_erase missing, own]
    rfl

/-- A column of the right side alone reads the right half of a pair. -/
theorem read_pair_right (plain : isMerged merged demand.qualifier demand.column = false)
    (passes : demand.passesRight listings kind merged choice left right = true) :
    (Source.join kind merged choice condition left right).read listings (.pair l r) demand.qualifier demand.column
      = right.read listings r demand.qualifier demand.column := by
  simp only [Demand.passesRight, plain, Bool.false_eq_true, if_false, Bool.and_eq_true, Bool.not_eq_true'] at passes
  obtain ⟨⟨⟨shown, _⟩, own⟩, other⟩ := passes
  have missing := left.read_erase listings l demand.qualifier demand.column
  rw [beq_iff_eq.mp other] at missing
  simp only [Source.read, plain, shown, Bool.false_eq_true, if_false, Row.left, Row.right]
  rw [Reading.missing_of_erase missing]
  rfl

/-- A merged column reads what one of the halves reads. -/
theorem met_half_of_merged (isMerged : isMerged merged demand.qualifier demand.column = true)
    (met : demand.met listings (.join kind merged choice condition left right) (.pair l r) = true) :
    demand.met listings left l = true ∨ demand.met listings right r = true := by
  obtain ⟨value, read, admitted⟩ := Demand.met_iff.mp met
  simp only [Source.read, isMerged, if_true, Row.left, Row.right] at read
  cases readLeft : left.read listings l demand.qualifier demand.column with
  | missing | ambiguous => rw [readLeft] at read; cases read
  | value a =>
    cases readRight : right.read listings r demand.qualifier demand.column with
    | missing | ambiguous => rw [readLeft, readRight] at read; cases read
    | value b =>
      rw [readLeft, readRight] at read
      obtain rfl := Reading.value.inj read
      have halves : mergedValue kind a b = a ∨ mergedValue kind a b = b := by
        cases kind <;> simp only [mergedValue, true_or, or_true]
        split
        · exact .inr rfl
        · exact .inl rfl
      rcases halves with same | same <;> rw [same] at admitted
      · exact .inl (Demand.met_iff.mpr ⟨a, readLeft, admitted⟩)
      · exact .inr (Demand.met_iff.mpr ⟨b, readRight, admitted⟩)

/-- The comparison of the columns a join merges. -/
def mergedEqual (listings : Listings) (merged : List Text) (left right : Source) (l r : Row) : Bool :=
  merged.all fun column =>
    match left.read listings l none column, right.read listings r none column with
    | .value a, .value b => a != .null && a == b
    | _, _ => false

/-- Rows that agree on the merged columns meet the demands on them alike. -/
theorem met_merged (isMerged : isMerged merged demand.qualifier demand.column = true)
    (equal : mergedEqual listings merged left right l r = true) :
    demand.met listings left l = demand.met listings right r := by
  simp only [DuckAcl.Listing.isMerged, Bool.and_eq_true, Option.isNone_iff_eq_none] at isMerged
  obtain ⟨bare, column⟩ := isMerged
  obtain ⟨name, member, same⟩ := List.any_eq_true.mp column
  have agreed := List.all_eq_true.mp equal name member
  unfold Demand.met
  rw [bare, left.read_congr listings same, right.read_congr listings same]
  split at agreed
  · rename_i a b readLeft readRight
    rw [Bool.and_eq_true, beq_iff_eq] at agreed
    rw [readLeft, readRight, agreed.2]
  · cases agreed

/-- A merged demand that passes to one side passes to the other. -/
theorem passes_merged (isMerged : isMerged merged demand.qualifier demand.column = true) :
    demand.passesLeft listings kind merged left right = demand.passesRight listings kind merged choice left right := by
  rw [Demand.passesLeft, Demand.passesRight, if_pos isMerged, if_pos isMerged]

variable {on : Row → Row → Bool}
  (compares : ∀ {l r}, on l r = true → mergedEqual listings merged left right l r = true)
include compares

/-- A pair's left half meets what passes to the left, and its right half what passes to the right. -/
theorem met_halves (admitted : on l r = true)
    (met : demand.met listings (.join kind merged choice condition left right) (.pair l r) = true) :
    (demand.passesLeft listings kind merged left right = true → demand.met listings left l = true) ∧
      (demand.passesRight listings kind merged choice left right = true → demand.met listings right r = true) := by
  cases isMerged : isMerged merged demand.qualifier demand.column with
  | true =>
    have agree := met_merged isMerged (compares admitted)
    have half := met_half_of_merged isMerged met
    rw [agree, or_self] at half
    exact ⟨fun _ => agree ▸ half, fun _ => half⟩
  | false =>
    unfold Demand.met at met ⊢
    refine ⟨fun passes => ?_, fun passes => ?_⟩
    · rwa [read_pair_left isMerged passes] at met
    · rwa [read_pair_right isMerged passes] at met

/-- A left row alone meets what passes to the left, and so do the partners it was denied. -/
theorem met_left_alone (met : demand.met listings (.join kind merged choice condition left right) (.pair l .absent) = true) :
    (demand.passesLeft listings kind merged left right = true → demand.met listings left l = true) ∧
      (demand.passesRight listings kind merged choice left right = true → ∀ r, on l r = true → demand.met listings right r = true) := by
  cases isMerged : isMerged merged demand.qualifier demand.column with
  | true =>
    have half := (met_half_of_merged isMerged met).resolve_right (Demand.not_met_absent right)
    exact ⟨fun _ => half, fun _ r admitted => met_merged isMerged (compares admitted) ▸ half⟩
  | false =>
    refine ⟨fun passes => ?_, fun passes => ?_⟩
    · unfold Demand.met at met ⊢
      rwa [read_pair_left isMerged passes] at met
    · refine absurd ?_ (@Demand.not_met_absent listings demand right)
      unfold Demand.met at met ⊢
      rwa [read_pair_right isMerged passes] at met

/-- A right row alone meets what passes to the right, and so do the partners it was denied. -/
theorem met_right_alone (met : demand.met listings (.join kind merged choice condition left right) (.pair .absent r) = true) :
    (demand.passesRight listings kind merged choice left right = true → demand.met listings right r = true) ∧
      (demand.passesLeft listings kind merged left right = true → ∀ l, on l r = true → demand.met listings left l = true) := by
  cases isMerged : isMerged merged demand.qualifier demand.column with
  | true =>
    have half := (met_half_of_merged isMerged met).resolve_left (Demand.not_met_absent left)
    exact ⟨fun _ => half, fun _ l admitted => (met_merged isMerged (compares admitted)).symm ▸ half⟩
  | false =>
    refine ⟨fun passes => ?_, fun passes => ?_⟩
    · unfold Demand.met at met ⊢
      rwa [read_pair_right isMerged passes] at met
    · refine absurd ?_ (@Demand.not_met_absent listings demand left)
      unfold Demand.met at met ⊢
      rwa [read_pair_left isMerged passes] at met

/-- A join may be narrowed on both sides by the demands that pass to them. -/
theorem narrowable_join (demands : List Demand) :
    Narrowable on choice (fun out => (Source.join kind merged choice condition left right).meets listings demands (pairRow out))
      (left.meets listings (demands.filter (·.passesLeft listings kind merged left right)))
      (right.meets listings (demands.filter (·.passesRight listings kind merged choice left right))) where
  both admitted wanted := by
    simp only [Source.meets, List.all_eq_true, List.mem_filter, and_imp] at wanted ⊢
    exact ⟨fun demand member => (met_halves compares admitted (wanted demand member)).1,
      fun demand member => (met_halves compares admitted (wanted demand member)).2⟩
  leftAlone wanted := by
    simp only [Source.meets, List.all_eq_true, List.mem_filter, and_imp] at wanted ⊢
    exact ⟨fun demand member => (met_left_alone compares (wanted demand member)).1,
      fun r admitted demand member passes => (met_left_alone compares (wanted demand member)).2 passes r admitted⟩
  rightAlone wanted := by
    simp only [Source.meets, List.all_eq_true, List.mem_filter, and_imp] at wanted ⊢
    exact ⟨fun demand member => (met_right_alone compares (wanted demand member)).1,
      fun l admitted demand member passes => (met_right_alone compares (wanted demand member)).2 passes l admitted⟩
  chosen := by
    intro chooses l r kept admitted
    simp only [Source.meets, List.all_eq_true, List.mem_filter, and_imp] at kept ⊢
    intro demand member passes
    cases isMerged : isMerged merged demand.qualifier demand.column with
    | true =>
      rw [← met_merged isMerged (compares admitted)]
      exact kept demand member (by rwa [passes_merged isMerged])
    | false =>
      simp only [Demand.passesRight, isMerged, Bool.false_eq_true, if_false, Bool.and_eq_true, Option.isNone_iff_eq_none] at passes
      exact absurd passes.1.1.2 chooses

end

/-! ## The narrowed statement -/

/-- The empty scope. -/
def wholeListing : Surface → Expr → Text → List Text → ListingScope := fun _ _ _ _ => {}

section

variable (listings : Listings) (engine : Engine)

theorem meets_nil (source : Source) (rows : List Row) : rows.filter (source.meets listings []) = rows :=
  List.filter_eq_self.mpr fun _ _ => rfl

/-- The rows of a narrowed surface that meet the demands. -/
theorem filter_surface {kind : Surface} {listingWhere : Expr} {aliasName : Text} {columnAlias : List Text} {object : Text}
    {demands : List Demand} (pushable : surfacePushable kind listingWhere aliasName (if kind.keyed then [] else columnAlias) demands = true)
    (scope : ListingScope) (either : scope = scopeOf kind listingWhere aliasName (if kind.keyed then [] else columnAlias) ∨ scope = {}) :
    ((listings.metadataSubquery kind scope object).map Row.cells).filter
        ((Source.surface kind aliasName columnAlias object).meets listings demands)
      = ((listings.rows kind).filter fun cells =>
          (Source.surface kind aliasName columnAlias object).meets listings demands (.cells cells) &&
            (!(kind.keyed && object != []) || listings.touches kind object cells)).map Row.cells := by
  have columns : ∀ part, scope.part part ≠ [] → Source.surfaceColumns listings kind columnAlias = listings.columns kind := by
    intro part given
    unfold Source.surfaceColumns
    split
    · rfl
    · rename_i notKeyed
      rcases either with rfl | rfl
      · rw [if_neg notKeyed, scopeOf] at given
        split at given
        · cases part <;> exact absurd rfl given
        · rename_i plain
          rw [not_not.mp plain]
          rfl
      · cases part <;> exact absurd rfl given
  have demanded : ∀ part, scope.part part ≠ [] → ∃ demand ∈ demands, demand.narrows kind aliasName part (scope.part part) = true := by
    intro part given
    rcases either with rfl | rfl
    · have some := List.all_eq_true.mp pushable part (by cases part <;> simp)
      simp only [Bool.or_eq_true, beq_iff_eq] at some
      exact List.any_eq_true.mp (some.resolve_left given)
    · cases part <;> exact absurd rfl given
  rw [List.filter_map]
  exact congrArg (List.map Row.cells) (filter_metadataSubquery columns demanded)

mutual

theorem Expr.eval_narrowed (expr : Expr) (pushable : expr.pushable listings = true) (tables : Text → Table) (reader : Reader) :
    expr.eval listings engine scopeOf tables reader = expr.eval listings engine wholeListing tables reader :=
  match expr with
  | .absent | .columnRef _ | .constant _ => by simp only [Expr.eval]
  | .conjunction children => by
    rw [Expr.pushable] at pushable
    rw [Expr.eval, Expr.eval, Expr.conjoin_narrowed children pushable]
  | .compareEqual left right => by
    rw [Expr.pushable, Bool.and_eq_true] at pushable
    rw [Expr.eval, Expr.eval, Expr.eval_narrowed left pushable.1, Expr.eval_narrowed right pushable.2]
  | .compareIn children => by
    rw [Expr.pushable] at pushable
    rw [Expr.eval, Expr.eval, Expr.evalAll_narrowed children pushable]
  | .function name arguments => by
    rw [Expr.pushable] at pushable
    rw [Expr.eval, Expr.eval, Expr.evalAll_narrowed arguments pushable]
  | .other queries value => by
    rw [Expr.pushable] at pushable
    rw [Expr.eval, Expr.eval, Query.answers_narrowed queries pushable]

theorem Expr.evalAll_narrowed (exprs : List Expr) (pushable : Expr.pushableAll listings exprs = true) (tables : Text → Table)
    (reader : Reader) :
    Expr.evalAll listings engine scopeOf tables reader exprs = Expr.evalAll listings engine wholeListing tables reader exprs :=
  match exprs with
  | [] => by simp only [Expr.evalAll]
  | expr :: rest => by
    rw [Expr.pushableAll, Bool.and_eq_true] at pushable
    rw [Expr.evalAll, Expr.evalAll, Expr.eval_narrowed expr pushable.1, Expr.evalAll_narrowed rest pushable.2]

theorem Expr.conjoin_narrowed (exprs : List Expr) (pushable : Expr.pushableAll listings exprs = true) (tables : Text → Table)
    (reader : Reader) :
    Expr.conjoin listings engine scopeOf tables reader exprs = Expr.conjoin listings engine wholeListing tables reader exprs :=
  match exprs with
  | [] => by simp only [Expr.conjoin]
  | expr :: rest => by
    rw [Expr.pushableAll, Bool.and_eq_true] at pushable
    rw [Expr.conjoin, Expr.conjoin, Expr.eval_narrowed expr pushable.1, Expr.conjoin_narrowed rest pushable.2]

/-- The rows of a FROM that meet the demands which the narrowing stands on. -/
theorem Source.rows_narrowed (source : Source) (listingWhere : Expr) (demands : List Demand)
    (pushable : source.pushable listings listingWhere demands = true) (tables : Text → Table) (outer : Reader) :
    (source.rows listings engine scopeOf listingWhere tables outer).filter (source.meets listings demands)
      = (source.rows listings engine wholeListing listingWhere tables outer).filter (source.meets listings demands) :=
  match source with
  | .surface kind aliasName columnAlias object => by
    rw [Source.pushable] at pushable
    rw [Source.rows, Source.rows, wholeListing, filter_surface listings pushable _ (.inl rfl),
      filter_surface listings pushable {} (.inr rfl)]
  | .relation name aliasName columns => by simp only [Source.rows]
  | .computed queries rows aliasName columns => by
    rw [Source.pushable] at pushable
    rw [Source.rows, Source.rows, Query.answers_narrowed queries pushable]
  | .subquery query aliasName columns => by
    rw [Source.pushable] at pushable
    rw [Source.rows, Source.rows, Query.answer_narrowed query pushable]
  | .pivot source queries reshape aliasName columns => by
    rw [Source.pushable, Bool.and_eq_true] at pushable
    have whole := Source.rows_narrowed source listingWhere [] pushable.1 tables outer
    rw [meets_nil, meets_nil] at whole
    rw [Source.rows, Source.rows, whole, Query.answers_narrowed queries pushable.2]
  | .positional left right => by
    rw [Source.pushable, Bool.and_eq_true] at pushable
    have wholeLeft := Source.rows_narrowed left listingWhere [] pushable.1 tables outer
    have wholeRight := Source.rows_narrowed right listingWhere [] pushable.2 tables outer
    rw [meets_nil, meets_nil] at wholeLeft wholeRight
    rw [Source.rows, Source.rows, wholeLeft, wholeRight]
  | .join kind merged choice condition left right => by
    rw [Source.pushable, Bool.and_eq_true, Bool.and_eq_true] at pushable
    have sameLeft := Source.rows_narrowed left listingWhere _ pushable.1.1 tables outer
    have sameRight := Source.rows_narrowed right listingWhere _ pushable.1.2 tables
    have sameOn := Expr.eval_narrowed condition pushable.2 tables
    simp only [Source.rows, sameOn, List.filter_map]
    refine congrArg (List.map _) ((narrowable_join ?_ demands).filter_joinRows kind sameLeft (fun l _ => sameRight _) (sameRight outer))
    intro l r admitted
    exact (Bool.and_eq_true_iff.mp admitted).1

theorem Query.answer_narrowed (query : Query) (pushable : query.pushable listings = true) (tables : Text → Table) (outer : Reader) :
    query.answer listings engine scopeOf tables outer = query.answer listings engine wholeListing tables outer :=
  match query with
  | .select source sample whereClause queries finish => by
    rw [Query.pushable, Bool.and_eq_true, Bool.and_eq_true] at pushable
    obtain ⟨⟨fromPushable, wherePushable⟩, queriesPushable⟩ := pushable
    have rows := Source.rows_narrowed source whereClause _ fromPushable tables outer
    have tests := Expr.eval_narrowed whereClause wherePushable tables
    have answers := Query.answers_narrowed queries queriesPushable tables
    simp only [Query.answer, tests, answers]
    refine congrArg (fun passing => finish outer (List.map _ passing)) ?_
    cases sample with
    | some sample =>
      rw [Option.isSome_some, if_pos rfl, meets_nil, meets_nil] at rows
      rw [rows]
    | none =>
      rw [Option.isSome_none, if_neg Bool.false_ne_true] at rows
      refine filter_of_kept (fun row passes => ?_) rows
      refine List.all_eq_true.mpr fun demand member => ?_
      obtain ⟨mentioned, own⟩ := List.mem_filter.mp member
      exact Expr.met_of_true whereClause (beq_iff_eq.mp passes) demand mentioned own
  | .setOperation children combine => by
    rw [Query.pushable] at pushable
    rw [Query.answer, Query.answer, Query.answers_narrowed children pushable]
  | .cte name query child => by
    rw [Query.pushable, Bool.and_eq_true] at pushable
    rw [Query.answer, Query.answer, Query.answer_narrowed query pushable.1, Query.answer_narrowed child pushable.2]
  | .recursive name left right iterate => by
    rw [Query.pushable, Bool.and_eq_true] at pushable
    have step := Query.answer_narrowed right pushable.2
    rw [Query.answer, Query.answer, Query.answer_narrowed left pushable.1]
    simp only [step]

theorem Query.answers_narrowed (queries : List Query) (pushable : Query.pushableAll listings queries = true)
    (tables : Text → Table) (outer : Reader) :
    Query.answers listings engine scopeOf tables outer queries = Query.answers listings engine wholeListing tables outer queries :=
  match queries with
  | [] => by simp only [Query.answers]
  | query :: rest => by
    rw [Query.pushableAll, Bool.and_eq_true] at pushable
    rw [Query.answers, Query.answers, Query.answer_narrowed query pushable.1, Query.answers_narrowed rest pushable.2]

end

/-- A statement whose narrowing conjuncts all reach their surfaces answers as over the whole listings. -/
theorem narrowed_listing_answers (query : Query) (pushable : query.pushable listings = true) (tables : Text → Table)
    (outer : Reader) :
    query.answer listings engine scopeOf tables outer = query.answer listings engine wholeListing tables outer :=
  Query.answer_narrowed listings engine query pushable tables outer

end

/-- Listings that keep the rows a scope matches and no others. -/
def exactListings (columns : Surface → List Text) (rows : Surface → Table)
    (scope_texts : ∀ kind part, ∀ column ∈ kind.scopeColumns part, ∀ cells ∈ rows kind, ∀ value,
      readCells ⟨[], columns kind⟩ cells none column = .value value → value = .null ∨ ∃ text, value = .text text) : Listings where
  columns := columns
  rows := rows
  scope_texts := scope_texts
  keeps kind scope cells := [ScopePart.catalogs, .schemas, .tables, .objects].all fun part =>
    scope.part part == [] || (kind.scopeColumns part).any fun column =>
      match readCells ⟨[], columns kind⟩ cells none column with
      | .value (.text text) => text.fold ∈ scope.part part
      | _ => false
  keeps_matching kind scope cells matching := by
    refine List.all_eq_true.mpr fun part _ => ?_
    rw [Bool.or_eq_true, beq_iff_eq, or_iff_not_imp_left]
    intro given
    obtain ⟨column, ofPart, text, read, member⟩ := matching part given
    exact List.any_eq_true.mpr ⟨column, ofPart, by simpa only [read, decide_eq_true_eq] using member⟩

/-- The two tables of a catalog with the names `orders` and `users`. -/
def twoTables : Listings :=
  exactListings (fun _ => ["table_name".toList])
    (fun
      | .tables | .columns => [[.text "orders".toList], [.text "users".toList]]
      | _ => [])
    (by
      intro kind part column ofPart cells listed value read
      cases kind with
      | tables | columns =>
        simp only [List.mem_cons, List.not_mem_nil, or_false] at listed
        unfold readCells at read
        split at read
        · split at read
          · rename_i index _
            obtain rfl := Reading.value.inj read
            rcases listed with rfl | rfl <;> cases index <;> simp
          · cases read
        · cases read
      | schemata | duckdbTables | duckdbViews | duckdbColumns | duckdbSchemas | databases | duckdbFunctions | duckdbTypes | keys
        | references => cases listed)

/-- `table_name = 'orders'`. -/
def nameIsOrders : Expr := .compareEqual (.columnRef ["table_name".toList]) (.constant (.text "orders".toList))

/-- The rows of a FROM where `table_name = 'orders'`, as their left halves. -/
def leftWhereOrders (source : Source) : Query := .select source none nameIsOrders [] fun _ rows => rows.map (·.1.left.values)

/-- An engine without functions. -/
def plainEngine : Engine := ⟨fun _ _ => .null, fun _ _ => .null, fun _ => none⟩

/-- The tables and their columns, joined on the name: both listings are narrowed, and the row asked for is there. -/
theorem narrowed_listing_answers_using :
    let query := leftWhereOrders (.join .inner ["table_name".toList] none .absent
      (.surface .tables "t".toList [] []) (.surface .columns "c".toList [] []))
    query.pushable twoTables = true ∧
      query.answer twoTables plainEngine scopeOf (fun _ => []) (fun _ => .null) = [[.text "orders".toList]] ∧
      query.answer twoTables plainEngine scopeOf (fun _ => []) (fun _ => .null)
        = query.answer twoTables plainEngine wholeListing (fun _ => []) (fun _ => .null) :=
  ⟨by decide, by decide, narrowed_listing_answers twoTables plainEngine _ (by decide) _ _⟩

/-- `SELECT o.table_name FROM o SEMI JOIN information_schema.tables t ON t.table_name = 'users' WHERE table_name = 'orders'`:
the WHERE speaks of `o`, the listing is narrowed by it and the semi join finds nothing there. -/
theorem narrowed_listing_semi_join :
    ¬ ∀ (listings : Listings) (engine : Engine) (query : Query) (tables : Text → Table) (outer : Reader),
      query.answer listings engine scopeOf tables outer = query.answer listings engine wholeListing tables outer := by
  intro same
  have answers := same twoTables plainEngine
    (leftWhereOrders (.join .semi [] none
      (.compareEqual (.columnRef ["t".toList, "table_name".toList]) (.constant (.text "users".toList)))
      (.relation "o".toList "o".toList ["table_name".toList]) (.surface .tables "t".toList [] [])))
    (fun _ => [[.text "orders".toList]]) (fun _ => .null)
  revert answers
  decide

end DuckAcl.Listing
