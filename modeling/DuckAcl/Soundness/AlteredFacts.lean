import DuckAcl.Soundness.Alterations
import DuckAcl.Soundness.CarriedShape

/-! # What an alteration keeps

An alteration reads an object's record, puts the new value in, and writes the record again. The properties of the
object, its projection and the grants on it come back as they were. Three facts do not: the comments of its
columns and the columns of a declared result, which nothing carries, and a primary key with a column whose name
a list with commas cannot hold. A function also loses its comment and its parameters.
-/

namespace DuckAcl

namespace PolicyTables

/-! ## The record of an altered relation -/

namespace RelationChange

def physOr (stored : Text) : RelationChange → Text
  | .phys value => value
  | _ => stored

def rlsOr (stored : Text) : RelationChange → Text
  | .rls value => value
  | _ => stored

def viewOr (stored : Text) : RelationChange → Text
  | .view value => value
  | _ => stored

/-- The change names the columns, and their marks with them. -/
def NamesColumns : RelationChange → Prop
  | .columns _ _ => True
  | _ => False

/-- The change names one of the two type policies. -/
def NamesType (key : Text) : RelationChange → Prop
  | .types value => ∃ item ∈ value.splitOn ',', Text.trim (Text.fold (item.takeWhile (· ≠ '='))) = key
  | _ => False

/-- The columns of the new definition, and the marks that go with them. -/
def columnsOr (probes : SourceProbes) (vname stored : Text) (carried : List (Text × Text) × Marks) :
    RelationChange → Except Text (List (Text × Text) × Marks)
  | .columns declared marks => (probes.compilePaths stored vname declared).map (·, marks)
  | _ => .ok carried

def typesOr (stored : Text × Text) : RelationChange → Except Text (Text × Text)
  | .types value => (value.splitOn ',').foldlM setTypes stored
  | _ => .ok stored

/-- The stored row with the new value, once its columns and its type policies are known. -/
def recordWith (probes : SourceProbes) (store : PolicyTables) (vcat vname : Text) (row : Row) (change : RelationChange)
    (columns : List (Text × Text) × Marks) (types : Text × Text) : RelationRecord where
  form :=
    if change.viewOr (row .viewSql).textOr ≠ [] then "view".toList
    else if change.rlsOr (row .rls).textOr = [] ∧
        (columns.1 = [] ∨ columns.1.all fun column => probes.plainReference column.2) then "alias".toList
    else "subquery".toList
  phys := change.physOr (row .phys).textOr
  viewSql := change.viewOr (row .viewSql).textOr
  rls := change.rlsOr (row .rls).textOr
  columns := columns.1
  comment := (row .comment).textOr
  origin := (row .origin).textOr
  pk := store.existingKeyCsv vcat vname "relation".toList
  marks := columns.2
  aliasTypes := types.1
  enumTypes := types.2

/-- What is written of a relation. -/
def record (probes : SourceProbes) (store : PolicyTables) (vcat vname : Text) (row : Row) (change : RelationChange) :
    Except Text RelationRecord := do
  let carried := store.storedColumns vcat vname
  let columns ← change.columnsOr probes vname (row .phys).textOr
    (carried.1, carried.2 ++ store.declaredMarks vcat vname "relation".toList)
  let types ← change.typesOr ((row .aliasTypes).textOr, (row .enumTypes).textOr)
  return change.recordWith probes store vcat vname row columns types

end RelationChange

variable {probes : SourceProbes} {before after store : PolicyTables} {vcat vname : Text}

private theorem of_unrefused {α ε : Type} {refused : Prop} [Decidable refused] {refusal : ε} {call : Except ε α} {made : α}
    (ran : (if refused then .error refusal else call) = .ok made) : call = .ok made := by
  split_ifs at ran
  exact ran

private theorem of_unthrown {α β ε : Type} {mismatched : Prop} [Decidable mismatched] {refusal : ε} {rest : β → Except ε α}
    {call : Except ε α} {made : α} (ran : (if mismatched then throw refusal >>= rest else call) = .ok made) : call = .ok made := by
  split_ifs at ran with refused
  · cases ran
  · exact ran

private theorem of_written {record : RelationRecord}
    (ran : (do return before.writeAll (← relationStatements probes before vcat vname record)) = .ok after) :
    ∃ writes, relationStatements probes before vcat vname record = .ok writes ∧ after = before.writeAll writes := by
  cases made : relationStatements probes before vcat vname record with
  | error refusal => rw [made] at ran; cases ran
  | ok writes =>
    rw [made] at ran
    exact ⟨writes, rfl, (Except.ok.inj ran).symm⟩

/-- An alteration writes its record. -/
theorem alterRelation_ok {change : RelationChange} (ran : alterRelation probes before vcat vname change = .ok after) :
    ∃ row record writes, (before.rows .relations).find? (named vcat vname) = some row ∧
      change.record probes before vcat vname row = .ok record ∧
      relationStatements probes before vcat vname record = .ok writes ∧ after = before.writeAll writes := by
  rw [alterRelation] at ran
  cases found : (before.rows .relations).find? (named vcat vname) with
  | none => rw [found] at ran; cases ran
  | some row =>
    rw [found] at ran
    cases change with
    | columns declared marks =>
      have ran := of_unthrown ran
      dsimp only at ran
      cases compiled : probes.compilePaths (row .phys).textOr vname declared with
      | error refusal => rw [compiled] at ran; cases ran
      | ok list =>
        rw [compiled] at ran
        obtain ⟨writes, made, is⟩ := of_written ran
        refine ⟨row, _, writes, rfl, ?_, made, is⟩
        rw [RelationChange.record, RelationChange.columnsOr, compiled]
        rfl
    | types value =>
      have ran := of_unthrown ran
      dsimp only at ran
      cases set : (value.splitOn ',').foldlM setTypes ((row .aliasTypes).textOr, (row .enumTypes).textOr) with
      | error refusal => rw [set] at ran; cases ran
      | ok policies =>
        rw [set] at ran
        obtain ⟨writes, made, is⟩ := of_written ran
        refine ⟨row, _, writes, rfl, ?_, made, is⟩
        rw [RelationChange.record, RelationChange.typesOr, set]
        rfl
    | _ =>
      obtain ⟨writes, made, is⟩ := of_written (of_unthrown ran)
      exact ⟨row, _, writes, rfl, rfl, made, is⟩

/-! ## Its statements -/

/-- What a record says of the columns. -/
def RelationRecord.shape (probes : SourceProbes) (record : RelationRecord) : Shape where
  schema := (recordSchema probes record).1
  derived := (recordSchema probes record).2
  marks := record.marks
  known :=
    let known := (record.columns.map fun column => Text.fold column.1) ++
      (recordSchema probes record).1.map fun column => Text.fold column.1
    if known = [] ∧ record.pk ≠ [] ∧ record.phys ≠ [] then
      ((probes.probeSchema false (probes.selectAll record.phys)).getD []).map fun column => Text.fold column.1
    else known
  masked := record.columns

private theorem recordSchema_untyped {record : RelationRecord} (unbound : (recordSchema probes record).2 = false) :
    ∀ column ∈ (recordSchema probes record).1, column.2 = [] := by
  have names : ∀ column ∈ record.columns.map fun column => (column.1, ([] : Text)), column.2 = [] := by
    intro column member
    obtain ⟨given, -, rfl⟩ := List.mem_map.mp member
    rfl
  revert unbound
  unfold recordSchema
  dsimp only
  by_cases view : record.form = "view".toList
  · rw [if_pos view]
    split
    · exact fun bound => Bool.noConfusion bound
    · exact fun _ column none => (List.not_mem_nil none).elim
  rw [if_neg view]
  by_cases listed : record.phys ≠ [] ∧ record.columns ≠ []
  · rw [if_pos listed]
    split
    · exact fun bound => Bool.noConfusion bound
    · exact fun _ => names
  · rw [if_neg listed]
    exact fun _ => names

/-- The tables an alteration of a relation writes. -/
def relationTables : List TableName := [.relations, .relationColumns, .relationTypes, .objectColumns, .keys]

private def relationCells (probes : SourceProbes) (store : PolicyTables) (vcat vname : Text) (record : RelationRecord) :
    List (Column × Value) :=
  let author := createdBy probes ((store.rows .relations).find? (named vcat vname))
  let source := if record.form = "view".toList then '(' :: record.viewSql ++ [')'] else probes.keyToSql record.phys
  [(.vcat, .text vcat), (.vname, .text vname), (.form, .text record.form), (.phys, .text record.phys),
    (.viewSql, .text record.viewSql), (.rls, .text record.rls), (.comment, Value.ofText record.comment),
    (.origin, Value.ofText record.origin),
    (.rlsChecked, if record.rls = [] then .null else .boolean (probes.predicateError source record.rls).1),
    (.aliasTypes, Value.ofText record.aliasTypes), (.enumTypes, Value.ofText record.enumTypes),
    (.createdBy, author.1), (.createdRoles, author.2)]

private def projectionCells (vcat vname : Text) (record : RelationRecord) (column : (Text × Text) × ℕ) : List (Column × Value) :=
  [(.vcat, .text vcat), (.vname, .text vname), (.pos, .integer column.2), (.name, .text column.1.1),
    (.expr, .text column.1.2), (.nullable, record.marks.cell column.1.1)]

private def typeCells (vcat vname : Text) (cells : List (Column × Value)) : List (Column × Value) :=
  (.vcat, .text vcat) :: (.vname, .text vname) :: cells

private theorem relationStatements_ok {record : RelationRecord} {writes : List Write}
    (made : relationStatements probes before vcat vname record = .ok writes) :
    writes = .delete ⟨.relations, named vcat vname⟩ :: .delete ⟨.relationColumns, named vcat vname⟩ ::
      .insert .relations (relationCells probes before vcat vname record) :: .delete ⟨.relationTypes, named vcat vname⟩ ::
      (((probes.typeFacts record.form record.phys record.viewSql).map (typeCells vcat vname)).map (.insert .relationTypes) ++
        ((record.columns.zipIdx.map (projectionCells vcat vname record)).map (.insert .relationColumns) ++
          (columnSchemaStatements vcat vname "relation".toList (record.shape probes).schema (record.shape probes).derived
              (record.shape probes).marks ++
            keyStatements probes vcat vname "relation".toList record.pk (record.shape probes).known (record.shape probes).marks
              (record.shape probes).masked))) := by
  have is := (Except.ok.inj (of_unrefused made)).symm
  rw [is]
  simp only [List.map_map, List.append_assoc]
  rfl

/-- What is stored of a relation after its record was written. -/
structure RelationWritten (probes : SourceProbes) (before after : PolicyTables) (vcat vname : Text) (record : RelationRecord) :
    Prop where
  row : (after.rows .relations).filter (named vcat vname) = [TableName.relations.row (relationCells probes before vcat vname record)]
  projection : (after.rows .relationColumns).filter (named vcat vname) =
    record.columns.zipIdx.map fun column => TableName.relationColumns.row (projectionCells vcat vname record column)
  shape : ShapeWritten probes after vcat vname "relation".toList record.pk (record.shape probes)
  others : ∀ table ∉ relationTables, after.rows table = before.rows table

theorem relation_written {record : RelationRecord} {writes : List Write}
    (made : relationStatements probes before vcat vname record = .ok writes) :
    RelationWritten probes before (before.writeAll writes) vcat vname record := by
  have shapeTables : ∀ write ∈ columnSchemaStatements vcat vname "relation".toList (record.shape probes).schema
      (record.shape probes).derived (record.shape probes).marks ++ keyStatements probes vcat vname "relation".toList record.pk
        (record.shape probes).known (record.shape probes).marks (record.shape probes).masked,
      write.table = .objectColumns ∨ write.table = .keys := by
    intro write member
    rcases List.mem_append.mp member with member | member
    · exact .inl (columnSchemaStatements_table member)
    · exact .inr (keyStatements_table member)
  have insertTable {table : TableName} {cells : List (List (Column × Value))} {write : Write}
      (member : write ∈ cells.map (.insert table)) : write.table = table := by
    obtain ⟨given, -, rfl⟩ := List.mem_map.mp member
    rfl
  have is := relationStatements_ok made
  constructor
  · rw [is]
    refine @filter_rewritten before .relations (named vcat vname) [] [.delete ⟨.relationColumns, named vcat vname⟩] _
      [relationCells probes before vcat vname record] (fun write member => by simp [List.mem_singleton.mp member, Write.table])
      (fun write member => ?_) (fun given member => ?_)
    · rcases List.mem_cons.mp member with rfl | member
      · simp [Write.table]
      rcases List.mem_append.mp member with member | member
      · exact (insertTable member).trans_ne (by decide)
      rcases List.mem_append.mp member with member | member
      · exact (insertTable member).trans_ne (by decide)
      · rcases shapeTables write member with same | same <;> exact same.trans_ne (by decide)
    · rw [List.mem_singleton.mp member]
      simp [named, Row.is, TableName.row, TableName.columns, relationCells]
  · rw [is]
    refine Eq.trans (@filter_rewritten before .relationColumns (named vcat vname) [.delete ⟨.relations, named vcat vname⟩]
      (.insert .relations (relationCells probes before vcat vname record) :: .delete ⟨.relationTypes, named vcat vname⟩ ::
        ((probes.typeFacts record.form record.phys record.viewSql).map (typeCells vcat vname)).map (.insert .relationTypes)) _
      (record.columns.zipIdx.map (projectionCells vcat vname record)) (fun write member => ?_)
      (fun write member => by rcases shapeTables write member with same | same <;> exact same.trans_ne (by decide))
      (fun given member => ?_)) (List.map_map ..)
    · rcases List.mem_cons.mp member with rfl | member
      · simp [Write.table]
      rcases List.mem_cons.mp member with rfl | member
      · simp [Write.table]
      · exact (insertTable member).trans_ne (by decide)
    · obtain ⟨column, -, rfl⟩ := List.mem_map.mp member
      simp [named, Row.is, TableName.row, TableName.columns, projectionCells]
  · have shaped := shape_written probes before vcat vname "relation".toList record.pk (record.shape probes)
      (.delete ⟨.relations, named vcat vname⟩ :: .delete ⟨.relationColumns, named vcat vname⟩ ::
        .insert .relations (relationCells probes before vcat vname record) :: .delete ⟨.relationTypes, named vcat vname⟩ ::
        (((probes.typeFacts record.form record.phys record.viewSql).map (typeCells vcat vname)).map (.insert .relationTypes) ++
          (record.columns.zipIdx.map (projectionCells vcat vname record)).map (.insert .relationColumns)))
    rw [List.append_assoc] at shaped
    rw [is]
    simpa only [List.cons_append, List.append_assoc] using shaped
  · intro table absent
    refine rows_writeAll_other fun write member same => absent ?_
    rw [is] at member
    rw [← same]
    rcases List.mem_cons.mp member with rfl | member
    · simp [Write.table, relationTables]
    rcases List.mem_cons.mp member with rfl | member
    · simp [Write.table, relationTables]
    rcases List.mem_cons.mp member with rfl | member
    · simp [Write.table, relationTables]
    rcases List.mem_cons.mp member with rfl | member
    · simp [Write.table, relationTables]
    rcases List.mem_append.mp member with member | member
    · rw [insertTable member]
      decide
    rcases List.mem_append.mp member with member | member
    · rw [insertTable member]
      decide
    · rcases shapeTables write member with same | same <;> rw [same] <;> decide

/-! ## What is kept of a relation -/

/-- The projection of a relation: names, expressions and marks. -/
def projection (store : PolicyTables) (vcat vname : Text) : List (Text × Text × Value) :=
  (byPos ((store.rows .relationColumns).filter (named vcat vname))).map fun row =>
    ((row .name).textOr, (row .expr).textOr, row .nullable)

/-- The properties of a relation: the new value where the change names one, the stored one elsewhere. -/
structure PropertiesKept (change : RelationChange) (row row' : Row) : Prop where
  phys : (row' .phys).textOr = change.physOr (row .phys).textOr
  viewSql : (row' .viewSql).textOr = change.viewOr (row .viewSql).textOr
  rls : (row' .rls).textOr = change.rlsOr (row .rls).textOr
  comment : (row' .comment).textOr = (row .comment).textOr
  origin : (row' .origin).textOr = (row .origin).textOr
  aliasTypes : ¬ change.NamesType "aliases".toList → (row' .aliasTypes).textOr = (row .aliasTypes).textOr
  enumTypes : ¬ change.NamesType "enums".toList → (row' .enumTypes).textOr = (row .enumTypes).textOr

/-- Every fact that the change does not name, and that the new definition leaves a meaning, is as it was. -/
structure RelationFactsKept (probes : SourceProbes) (before after : PolicyTables) (vcat vname : Text) (change : RelationChange)
    (row : Row) (record : RelationRecord) : Prop where
  properties : ∃ row', (after.rows .relations).filter (named vcat vname) = [row'] ∧ PropertiesKept change row row'
  projection : ¬ change.NamesColumns → after.projection vcat vname = before.projection vcat vname
  marks : ¬ change.NamesColumns → MarksKept before after vcat vname "relation".toList (record.shape probes)
  shape : ShapeKept probes before after vcat vname "relation".toList (record.shape probes)
  /-- The grants among them. -/
  others : ∀ table ∉ relationTables, after.rows table = before.rows table

/-- What the stored facts must be like for that. -/
structure RelationFactsCarried (probes : SourceProbes) (before : PolicyTables) (vcat vname : Text) (change : RelationChange)
    (record : RelationRecord) : Prop where
  projection : ¬ change.NamesColumns → ∀ column ∈ before.projection vcat vname, record.marks.cell column.1 = column.2.2
  marks : ¬ change.NamesColumns → MarksStand before vcat vname "relation".toList (record.shape probes)
  shape : ShapeCarried probes before vcat vname "relation".toList (record.shape probes)

def RelationKept (probes : SourceProbes) (before after : PolicyTables) (vcat vname : Text) (change : RelationChange) : Prop :=
  ∀ row record, (before.rows .relations).find? (named vcat vname) = some row →
    change.record probes before vcat vname row = .ok record → RelationFactsKept probes before after vcat vname change row record

def RelationCarried (probes : SourceProbes) (before : PolicyTables) (vcat vname : Text) (change : RelationChange) : Prop :=
  ∀ row record, (before.rows .relations).find? (named vcat vname) = some row →
    change.record probes before vcat vname row = .ok record → RelationFactsCarried probes before vcat vname change record

private theorem of_ite {α ε : Type} {held : Prop} [Decidable held] {first second : Except ε α} {made : α}
    (ran : (if held then first else second) = .ok made) : (held ∧ first = .ok made) ∨ second = .ok made := by
  split_ifs at ran with held
  · exact .inl ⟨held, ran⟩
  · exact .inr ran

/-- One item of `SET TYPES` leaves the policy that it does not name. -/
private theorem setTypes_ok {kept next : Text × Text} {item : Text} (set : setTypes kept item = .ok next) :
    (Text.trim (Text.fold (item.takeWhile (· ≠ '='))) = "aliases".toList ∧ next.2 = kept.2) ∨
      (Text.trim (Text.fold (item.takeWhile (· ≠ '='))) = "enums".toList ∧ next.1 = kept.1) := by
  unfold setTypes at set
  rcases of_ite set with ⟨⟨isKey, -⟩, is⟩ | set
  · exact .inl ⟨isKey, (congrArg Prod.snd (Except.ok.inj is)).symm⟩
  rcases of_ite set with ⟨⟨isKey, -⟩, is⟩ | set
  · exact .inr ⟨isKey, (congrArg Prod.fst (Except.ok.inj is)).symm⟩
  · cases set

private theorem foldlM_setTypes {items : List Text} {kept last : Text × Text} (set : items.foldlM setTypes kept = .ok last) :
    ((∀ item ∈ items, Text.trim (Text.fold (item.takeWhile (· ≠ '='))) ≠ "aliases".toList) → last.1 = kept.1) ∧
      ((∀ item ∈ items, Text.trim (Text.fold (item.takeWhile (· ≠ '='))) ≠ "enums".toList) → last.2 = kept.2) := by
  induction items generalizing kept with
  | nil =>
    cases set
    exact ⟨fun _ => rfl, fun _ => rfl⟩
  | cons item items ih =>
    rw [List.foldlM_cons] at set
    cases one : setTypes kept item with
    | error refusal => rw [one] at set; cases set
    | ok next =>
      rw [one] at set
      obtain ⟨aliases, enums⟩ := ih set
      constructor
      · intro unnamed
        rw [aliases fun other member => unnamed other (List.mem_cons_of_mem _ member)]
        rcases setTypes_ok one with ⟨isKey, -⟩ | ⟨-, same⟩
        · exact absurd isKey (unnamed item List.mem_cons_self)
        · exact same
      · intro unnamed
        rw [enums fun other member => unnamed other (List.mem_cons_of_mem _ member)]
        rcases setTypes_ok one with ⟨-, same⟩ | ⟨isKey, -⟩
        · exact same
        · exact absurd isKey (unnamed item List.mem_cons_self)

private theorem typesOr_kept {change : RelationChange} {stored types : Text × Text} (made : change.typesOr stored = .ok types) :
    (¬ change.NamesType "aliases".toList → types.1 = stored.1) ∧ (¬ change.NamesType "enums".toList → types.2 = stored.2) := by
  cases change with
  | types value =>
    obtain ⟨aliases, enums⟩ := foldlM_setTypes made
    exact ⟨fun unnamed => aliases fun item member is => unnamed ⟨item, member, is⟩,
      fun unnamed => enums fun item member is => unnamed ⟨item, member, is⟩⟩
  | _ =>
    cases made
    exact ⟨fun _ => rfl, fun _ => rfl⟩

private theorem textOr_ofText (text : Text) : (Value.ofText text).textOr = text := by
  rw [Value.ofText]
  split_ifs with empty
  · exact empty.symm
  · rfl

private theorem record_ok {change : RelationChange} {row : Row} {record : RelationRecord}
    (made : change.record probes before vcat vname row = .ok record) :
    ∃ columns types, change.columnsOr probes vname (row .phys).textOr ((before.storedColumns vcat vname).1,
          (before.storedColumns vcat vname).2 ++ before.declaredMarks vcat vname "relation".toList) = .ok columns ∧
      change.typesOr ((row .aliasTypes).textOr, (row .enumTypes).textOr) = .ok types ∧
      record = change.recordWith probes before vcat vname row columns types := by
  rw [RelationChange.record] at made
  cases listed : change.columnsOr probes vname (row .phys).textOr ((before.storedColumns vcat vname).1,
      (before.storedColumns vcat vname).2 ++ before.declaredMarks vcat vname "relation".toList) with
  | error refusal => rw [listed] at made; cases made
  | ok columns =>
    rw [listed] at made
    cases set : change.typesOr ((row .aliasTypes).textOr, (row .enumTypes).textOr) with
    | error refusal => rw [set] at made; cases made
    | ok types =>
      rw [set] at made
      exact ⟨columns, types, rfl, rfl, (Except.ok.inj made).symm⟩

private theorem properties_kept {change : RelationChange} {row : Row} {record : RelationRecord}
    (made : change.record probes before vcat vname row = .ok record) :
    PropertiesKept change row (TableName.relations.row (relationCells probes store vcat vname record)) := by
  obtain ⟨columns, types, -, set, rfl⟩ := record_ok made
  obtain ⟨aliases, enums⟩ := typesOr_kept set
  exact {
    phys := rfl
    viewSql := rfl
    rls := rfl
    comment := textOr_ofText _
    origin := textOr_ofText _
    aliasTypes := fun unnamed => (textOr_ofText _).trans (aliases unnamed)
    enumTypes := fun unnamed => (textOr_ofText _).trans (enums unnamed) }

/-- The columns of a change that names none are the stored ones. -/
private theorem columns_kept {change : RelationChange} {row : Row} {record : RelationRecord}
    (made : change.record probes before vcat vname row = .ok record) (unnamed : ¬ change.NamesColumns) :
    record.columns = (before.storedColumns vcat vname).1 := by
  obtain ⟨columns, types, listed, -, rfl⟩ := record_ok made
  cases change with
  | columns declared marks => exact absurd trivial unnamed
  | _ =>
    cases listed
    rfl

private theorem projection_iff {record : RelationRecord} (written : RelationWritten probes before after vcat vname record)
    (kept : record.columns = (before.storedColumns vcat vname).1) :
    after.projection vcat vname = before.projection vcat vname ↔
      ∀ column ∈ before.projection vcat vname, record.marks.cell column.1 = column.2.2 := by
  have now : after.projection vcat vname =
      record.columns.map fun column => (column.1, column.2, record.marks.cell column.1) := by
    rw [projection, written.projection, byPos_positions _ fun _ => rfl, List.map_map]
    refine Eq.trans ?_ (congrArg (List.map fun column => (column.1, column.2, record.marks.cell column.1))
      (List.zipIdx_map_fst 0 record.columns))
    rw [List.map_map]
    rfl
  rw [now, kept, storedColumns, projection, List.map_map, List.map_inj_left, List.forall_mem_map]
  refine forall₂_congr fun row member => ?_
  constructor
  · intro same
    exact congrArg (fun column => column.2.2) same
  · intro same
    exact congrArg (fun mark => ((row .name).textOr, (row .expr).textOr, mark)) same

/-- The facts of a relation are kept exactly when they are such as are carried. -/
theorem relationKept_iff {change : RelationChange} (ran : alterRelation probes before vcat vname change = .ok after) :
    RelationKept probes before after vcat vname change ↔ RelationCarried probes before vcat vname change := by
  obtain ⟨row, record, writes, found, made, stated, rfl⟩ := alterRelation_ok ran
  have written := relation_written stated
  have pk : record.pk = before.existingKeyCsv vcat vname "relation".toList := by
    obtain ⟨columns, types, -, -, rfl⟩ := record_ok made
    rfl
  have shaped := written.shape
  rw [pk] at shaped
  have shape := shapeKept_iff shaped recordSchema_untyped
  have marks := marksKept_iff shaped
  constructor
  · intro kept row' record' found' made'
    have facts := kept row' record' found' made'
    obtain rfl := Option.some.inj (found.symm.trans found')
    obtain rfl := Except.ok.inj (made.symm.trans made')
    exact ⟨fun unnamed => (projection_iff written (columns_kept made unnamed)).mp (facts.projection unnamed),
      fun unnamed => marks.mp (facts.marks unnamed), shape.mp facts.shape⟩
  · intro carried row' record' found' made'
    have facts := carried row' record' found' made'
    obtain rfl := Option.some.inj (found.symm.trans found')
    obtain rfl := Except.ok.inj (made.symm.trans made')
    exact ⟨⟨_, written.row, properties_kept made⟩,
      fun unnamed => (projection_iff written (columns_kept made unnamed)).mpr (facts.projection unnamed),
      fun unnamed => marks.mpr (facts.marks unnamed), shape.mpr facts.shape, written.others⟩

/-! ## What is kept of a function -/

/-- What a function's new definition says of its columns. -/
def functionShape (probes : SourceProbes) (store : PolicyTables) (vcat vname kind : Text) (isAlias : Bool) (definition : Text) :
    Shape :=
  let bound := if isAlias then ([], false) else
    match probes.probeSchema (decide (kind = "scalar".toList)) definition with
    | some schema => (schema, true)
    | none => ([], false)
  { schema := bound.1
    derived := bound.2
    marks := (store.declaredMarks vcat vname kind).reverse
    known := bound.1.map fun column => Text.fold column.1
    masked := [] }

private theorem functionShape_untyped {kind : Text} {isAlias : Bool} {definition : Text}
    (unbound : (functionShape probes store vcat vname kind isAlias definition).derived = false) :
    ∀ column ∈ (functionShape probes store vcat vname kind isAlias definition).schema, column.2 = [] := by
  revert unbound
  unfold functionShape
  dsimp only
  split_ifs
  · exact fun _ column none => (List.not_mem_nil none).elim
  · split
    · exact fun bound => Bool.noConfusion bound
    · exact fun _ column none => (List.not_mem_nil none).elim

/-- The tables an alteration of a function writes. -/
def functionTables : List TableName := [.functions, .objectColumns, .keys]

/-- Every fact of a function that the new definition leaves a meaning is as it was. -/
structure FunctionKept (probes : SourceProbes) (before after : PolicyTables) (vcat vname kind : Text) (shape : Shape) : Prop where
  properties : ∀ row, (before.rows .functions).find? (namedKind vcat vname kind) = some row →
    ∃ row', (after.rows .functions).filter (namedKind vcat vname kind) = [row'] ∧
      (row' .comment).textOr = (row .comment).textOr ∧ (row' .params).textOr = (row .params).textOr
  marks : MarksKept before after vcat vname kind shape
  shape : ShapeKept probes before after vcat vname kind shape
  others : ∀ table ∉ functionTables, after.rows table = before.rows table

/-- What the stored facts must be like for that: no comment and no parameters among them. -/
structure FunctionCarried (probes : SourceProbes) (before : PolicyTables) (vcat vname kind : Text) (shape : Shape) : Prop where
  properties : ∀ row, (before.rows .functions).find? (namedKind vcat vname kind) = some row →
    (row .comment).textOr = [] ∧ (row .params).textOr = []
  marks : MarksStand before vcat vname kind shape
  shape : ShapeCarried probes before vcat vname kind shape

private def functionCells (vcat vname kind : Text) (isAlias : Bool) (definition : Text) (author : Value × Value) :
    List (Column × Value) :=
  [(.vcat, .text vcat), (.vname, .text vname), (.kind, .text kind),
    (.form, .text (if isAlias then "alias" else "macro").toList), (.target, .text (if isAlias then definition else [])),
    (.template, .text (if isAlias then [] else definition)), (.params, .text []), (.createdBy, author.1),
    (.createdRoles, author.2)]

/-- The facts of a function are kept exactly when they are such as are carried. -/
theorem functionKept_iff {kind : Text} {isAlias : Bool} {definition : Text} {author : Value × Value} :
    FunctionKept probes before
        (before.writeAll (functionWrites probes vcat vname kind isAlias definition (before.existingKeyCsv vcat vname kind)
          (before.declaredMarks vcat vname kind).reverse author)) vcat vname kind
        (functionShape probes before vcat vname kind isAlias definition) ↔
      FunctionCarried probes before vcat vname kind (functionShape probes before vcat vname kind isAlias definition) := by
  generalize isShape : functionShape probes before vcat vname kind isAlias definition = shape
  have is : functionWrites probes vcat vname kind isAlias definition (before.existingKeyCsv vcat vname kind)
      (before.declaredMarks vcat vname kind).reverse author =
      .delete ⟨.functions, namedKind vcat vname kind⟩ :: .delete ⟨.objectColumns, namedKind vcat vname kind⟩ ::
        .insert .functions (functionCells vcat vname kind isAlias definition author) ::
        (columnSchemaStatements vcat vname kind shape.schema shape.derived shape.marks ++
          keyStatements probes vcat vname kind (before.existingKeyCsv vcat vname kind) shape.known shape.marks shape.masked) := by
    rw [← isShape]
    rfl
  have shapeTables : ∀ write ∈ columnSchemaStatements vcat vname kind shape.schema shape.derived shape.marks ++
      keyStatements probes vcat vname kind (before.existingKeyCsv vcat vname kind) shape.known shape.marks shape.masked,
      write.table = .objectColumns ∨ write.table = .keys := by
    intro write member
    rcases List.mem_append.mp member with member | member
    · exact .inl (columnSchemaStatements_table member)
    · exact .inr (keyStatements_table member)
  rw [is]
  have shaped := shape_written probes before vcat vname kind (before.existingKeyCsv vcat vname kind) shape
    [.delete ⟨.functions, namedKind vcat vname kind⟩, .delete ⟨.objectColumns, namedKind vcat vname kind⟩,
      .insert .functions (functionCells vcat vname kind isAlias definition author)]
  rw [List.append_assoc] at shaped
  have untyped : shape.derived = false → ∀ column ∈ shape.schema, column.2 = [] := by
    rw [← isShape]
    exact functionShape_untyped
  have row : ((before.writeAll (.delete ⟨.functions, namedKind vcat vname kind⟩ ::
      .delete ⟨.objectColumns, namedKind vcat vname kind⟩ ::
        .insert .functions (functionCells vcat vname kind isAlias definition author) ::
        (columnSchemaStatements vcat vname kind shape.schema shape.derived shape.marks ++
          keyStatements probes vcat vname kind (before.existingKeyCsv vcat vname kind) shape.known shape.marks
            shape.masked))).rows .functions).filter (namedKind vcat vname kind) =
      [TableName.functions.row (functionCells vcat vname kind isAlias definition author)] := by
    refine @filter_rewritten before .functions (namedKind vcat vname kind) [] [.delete ⟨.objectColumns, namedKind vcat vname kind⟩]
      _ [functionCells vcat vname kind isAlias definition author]
      (fun write member => by simp [List.mem_singleton.mp member, Write.table]) (fun write member => ?_) (fun given member => ?_)
    · rcases shapeTables write member with same | same <;> exact same.trans_ne (by decide)
    · rw [List.mem_singleton.mp member]
      simp [namedKind, named, Row.is, TableName.row, TableName.columns, functionCells]
  constructor
  · intro kept
    refine ⟨fun stored found => ?_, (marksKept_iff shaped).mp kept.marks, (shapeKept_iff shaped untyped).mp kept.shape⟩
    obtain ⟨row', listed, comment, params⟩ := kept.properties stored found
    rw [row] at listed
    obtain rfl := (List.cons.inj listed).1
    exact ⟨comment.symm, params.symm⟩
  · intro carried
    refine ⟨fun stored found => ?_, (marksKept_iff shaped).mpr carried.marks, (shapeKept_iff shaped untyped).mpr carried.shape,
      fun table absent => rows_writeAll_other fun write member same => absent ?_⟩
    · obtain ⟨comment, params⟩ := carried.properties stored found
      exact ⟨_, row, comment.symm, params.symm⟩
    · rw [← same]
      rcases List.mem_cons.mp member with rfl | member
      · simp [Write.table, functionTables]
      rcases List.mem_cons.mp member with rfl | member
      · simp [Write.table, functionTables]
      rcases List.mem_cons.mp member with rfl | member
      · simp [Write.table, functionTables]
      · rcases shapeTables write member with same | same <;> rw [same] <;> decide

end PolicyTables

namespace Alteration

open PolicyTables

variable {probes : SourceProbes} {refuses : Alteration → Option Text} {before after : PolicyTables} {vcat vname : Text}

private theorem relation_ran {change : RelationChange} (ran : ((relation vcat vname change).call probes refuses).alone before = .ok after) :
    alterRelation probes before vcat vname change = .ok after := by
  cases refused : refuses (relation vcat vname change) with
  | some refusal => simp [WriteCall.alone, call, refused, bind, Except.bind, pure, Except.pure] at ran
  | none => simpa [WriteCall.alone, call, refused, bind, Except.bind, pure, Except.pure] using ran

private theorem function_ran {kind : Text} {isAlias : Bool} {definition : Text}
    (ran : ((function vcat vname kind isAlias definition).call probes refuses).alone before = .ok after) :
    ∃ author, after = before.writeAll (functionWrites probes vcat vname kind isAlias definition
      (before.existingKeyCsv vcat vname kind) (before.declaredMarks vcat vname kind).reverse author) := by
  cases has : before.has .functions (namedKind vcat vname kind) with
  | false =>
    have none : ((function vcat vname kind isAlias definition).call probes refuses).outside.mapM (· before) =
        Except.error ("acl admin: ".toList ++ kind ++ " function \"".toList ++ vcat ++ ".".toList ++ vname ++
          "\" does not exist".toList) := by
      simp [call, has, List.mapM_cons, bind, Except.bind]
    rw [WriteCall.alone, none] at ran
    cases ran
  | true =>
    have answers : ((function vcat vname kind isAlias definition).call probes refuses).outside.mapM (· before) =
        .ok [.found, .key (before.existingKeyCsv vcat vname kind), .marks (before.declaredMarks vcat vname kind).reverse,
          .author (createdBy probes ((before.rows .functions).find? (namedKind vcat vname kind)))] := by
      simp [call, has, List.mapM_cons, bind, Except.bind, pure, Except.pure]
    rw [WriteCall.alone, answers] at ran
    cases refused : refuses (function vcat vname kind isAlias definition) with
    | some refusal => simp [call, refused, bind, Except.bind] at ran
    | none =>
      simp only [call, refused, bind, Except.bind, Except.ok.injEq] at ran
      exact ⟨_, ran.symm⟩

/-- An alteration keeps every fact it does not name, exactly when the facts are such as it carries. -/
theorem altered_facts_iff (probes : SourceProbes) (refuses : Alteration → Option Text) (before after : PolicyTables)
    (vcat vname : Text) :
    (∀ change, ((relation vcat vname change).call probes refuses).alone before = .ok after →
      (RelationKept probes before after vcat vname change ↔ RelationCarried probes before vcat vname change)) ∧
    ∀ kind isAlias definition, ((function vcat vname kind isAlias definition).call probes refuses).alone before = .ok after →
      (FunctionKept probes before after vcat vname kind (functionShape probes before vcat vname kind isAlias definition) ↔
        FunctionCarried probes before vcat vname kind (functionShape probes before vcat vname kind isAlias definition)) := by
  refine ⟨fun change ran => relationKept_iff (relation_ran ran), fun kind isAlias definition ran => ?_⟩
  obtain ⟨author, rfl⟩ := function_ran ran
  exact functionKept_iff

/-- A relation of one column that may not be null and is its key, with a comment of the column or without; and a
function. -/
def ordersTable (comment : Value) : PolicyTables := .of
  [(.relations, [(.vcat, .text "sales".toList), (.vname, .text "orders".toList), (.form, .text "subquery".toList),
      (.phys, .text "lake.orders".toList), (.rls, .text "id > 0".toList), (.comment, .text "all orders".toList)]),
    (.relationColumns, [(.vcat, .text "sales".toList), (.vname, .text "orders".toList), (.pos, .integer 0),
      (.name, .text "id".toList), (.expr, .text []), (.nullable, .boolean false)]),
    (.objectColumns, [(.vcat, .text "sales".toList), (.vname, .text "orders".toList), (.kind, .text "relation".toList),
      (.pos, .integer 0), (.name, .text "id".toList), (.type, .text []), (.comment, comment), (.derived, .boolean false),
      (.nullable, .boolean false)]),
    (.keys, [(.vcat, .text "sales".toList), (.vname, .text "orders".toList), (.kind, .text "relation".toList),
      (.pos, .integer 0), (.column, .text "id".toList)]),
    (.functions, [(.vcat, .text "sales".toList), (.vname, .text "orders".toList), (.kind, .text "scalar".toList),
      (.form, .text "alias".toList), (.target, .text "abs".toList), (.template, .text []), (.params, .text [])])]

private theorem byPos_nil : byPos [] = [] := List.mergeSort_nil

private theorem byPos_singleton (row : Row) : byPos [row] = [row] := List.mergeSort_singleton _

private theorem ordersTable_columns (comment : Value) :
    (ordersTable comment).storedColumns "sales".toList "orders".toList =
      ([("id".toList, [])], [("id".toList, false)]) := by
  have rows : ∃ row, ((ordersTable comment).rows .relationColumns).filter (named "sales".toList "orders".toList) = [row] ∧
      row .name = .text "id".toList ∧ row .expr = .text [] ∧ row .nullable = .boolean false :=
    ⟨_, rfl, rfl, rfl, rfl⟩
  obtain ⟨row, rows, name, expr, nullable⟩ := rows
  rw [storedColumns, rows, byPos_singleton]
  simp [name, expr, nullable, Value.textOr]

private theorem ordersTable_projection (comment : Value) :
    (ordersTable comment).projection "sales".toList "orders".toList = [("id".toList, [], .boolean false)] := by
  have rows : ∃ row, ((ordersTable comment).rows .relationColumns).filter (named "sales".toList "orders".toList) = [row] ∧
      row .name = .text "id".toList ∧ row .expr = .text [] ∧ row .nullable = .boolean false :=
    ⟨_, rfl, rfl, rfl, rfl⟩
  obtain ⟨row, rows, name, expr, nullable⟩ := rows
  rw [projection, rows, byPos_singleton]
  simp [name, expr, nullable, Value.textOr]

private theorem ordersTable_keyNames (comment : Value) :
    (ordersTable comment).keyNames "sales".toList "orders".toList "relation".toList = ["id".toList] := by
  have rows : ∃ row, ((ordersTable comment).rows .keys).filter (namedKind "sales".toList "orders".toList "relation".toList) =
      [row] ∧ row .column = .text "id".toList := ⟨_, rfl, rfl⟩
  obtain ⟨row, rows, column⟩ := rows
  rw [keyNames, rows, byPos_singleton]
  simp [column, Value.textOr]

private theorem ordersTable_columnRows (comment : Value) :
    ∃ row, (ordersTable comment).columnRows "sales".toList "orders".toList "relation".toList = [row] ∧
      row .name = .text "id".toList ∧ row .type = .text [] ∧ row .comment = comment ∧ row .nullable = .boolean false :=
  ⟨_, rfl, rfl, rfl, rfl, rfl⟩

private theorem ordersTable_record {comment : Value} {row : Row} {record : RelationRecord}
    (found : ((ordersTable comment).rows .relations).find? (named "sales".toList "orders".toList) = some row)
    (made : (RelationChange.rls "id > 1".toList).record noSources (ordersTable comment) "sales".toList "orders".toList row = .ok record) :
    (record.shape noSources).schema = [("id".toList, [])] ∧ record.marks.cell "id".toList = .boolean false := by
  rw [RelationChange.record, ordersTable_columns] at made
  obtain rfl := Option.some.inj found
  obtain rfl := Except.ok.inj made
  exact ⟨rfl, rfl⟩

/-- A relation with a key and marks keeps them; so does a function without comment and parameters. -/
theorem altered_facts_orders :
    (∃ after, ((relation "sales".toList "orders".toList (.rls "id > 1".toList)).call noSources fun _ => none).alone
          (ordersTable .null) = .ok after ∧
        RelationKept noSources (ordersTable .null) after "sales".toList "orders".toList (.rls "id > 1".toList)) ∧
      ∃ after, ((function "sales".toList "orders".toList "scalar".toList true "round".toList).call noSources fun _ => none).alone
          (ordersTable .null) = .ok after ∧
        FunctionKept noSources (ordersTable .null) after "sales".toList "orders".toList "scalar".toList
          (functionShape noSources (ordersTable .null) "sales".toList "orders".toList "scalar".toList true "round".toList) := by
  obtain ⟨column, columns, name, type, comment, nullable⟩ := ordersTable_columnRows .null
  refine ⟨⟨_, rfl, ((altered_facts_iff noSources (fun _ => none) (ordersTable .null) _ "sales".toList "orders".toList).1
      (.rls "id > 1".toList) rfl).mpr fun row record found made => ?_⟩,
    ⟨_, rfl, ((altered_facts_iff noSources (fun _ => none) (ordersTable .null) _ "sales".toList "orders".toList).2
      "scalar".toList true "round".toList rfl).mpr ?_⟩⟩
  · obtain ⟨schema, mark⟩ := ordersTable_record found made
    refine ⟨fun _ item member => ?_, fun _ item member _ _ => ?_, fun _ key member => ?_, fun item member commented => ?_, ?_⟩
    · rw [ordersTable_projection, List.mem_singleton] at member
      rw [member]
      exact mark
    · rw [columns, List.mem_singleton] at member
      rw [member, name, nullable]
      exact mark
    · rw [ordersTable_keyNames, List.mem_singleton] at member
      rw [member]
      exact ⟨by decide, by decide, by decide, fun rest is => by cases is⟩
    · rw [columns, List.mem_singleton] at member
      rw [member, comment] at commented
      exact absurd rfl commented
    · rw [declaredResult, columns, byPos_singleton]
      simp [type, Value.textOr]
  · have none : (ordersTable .null).columnRows "sales".toList "orders".toList "scalar".toList = [] := rfl
    have noKey : (ordersTable .null).keyNames "sales".toList "orders".toList "scalar".toList = [] := by
      rw [keyNames, show ((ordersTable .null).rows .keys).filter (namedKind "sales".toList "orders".toList "scalar".toList) = []
        from rfl, byPos_nil, List.map_nil]
    refine ⟨fun row found => ?_, fun item member => ?_, fun _ key member => ?_, fun item member => ?_, ?_⟩
    · obtain rfl := Option.some.inj found
      exact ⟨rfl, rfl⟩
    · rw [none] at member
      exact (List.not_mem_nil member).elim
    · rw [noKey] at member
      exact (List.not_mem_nil member).elim
    · rw [none] at member
      exact (List.not_mem_nil member).elim
    · rw [declaredResult, none, byPos_nil, List.filter_nil, List.map_nil]

/-- A relation whose predicate is altered loses the comment of its column. -/
theorem column_comment_lost :
    ¬ ∀ (probes : SourceProbes) (refuses : Alteration → Option Text) (before after : PolicyTables) (vcat vname : Text),
      (∀ change, ((relation vcat vname change).call probes refuses).alone before = .ok after →
        RelationKept probes before after vcat vname change) ∧
      ∀ kind isAlias definition, ((function vcat vname kind isAlias definition).call probes refuses).alone before = .ok after →
        FunctionKept probes before after vcat vname kind (functionShape probes before vcat vname kind isAlias definition) := by
  intro always
  have kept := (always noSources (fun _ => none) (ordersTable (.text "number".toList)) _ "sales".toList "orders".toList).1
    (.rls "id > 1".toList) rfl
  have carried := (relationKept_iff (@relation_ran noSources (fun _ => none) _ _ _ _ _ rfl)).mp kept
  have facts := carried _ _ rfl (by rw [RelationChange.record, ordersTable_columns]; rfl)
  obtain ⟨column, columns, name, -, comment, -⟩ := ordersTable_columnRows (.text "number".toList)
  refine facts.shape.comments column ?_ ?_ ⟨("id".toList, []), List.mem_singleton_self _, name⟩
  · rw [columns]
    exact List.mem_singleton_self _
  · rw [comment]
    decide

end Alteration

end DuckAcl
