import DuckAcl.Model.Alterations

/-! # The shape an alteration carries

The writers of relations and functions delete an object's columns and its key and insert them again. The names
of the columns come from the new definition, their marks and the key from what was read of the object before:
the key as one text, its names joined with commas. Comments and declared types are not read.
-/

namespace DuckAcl

/-- The table of a statement. -/
def Write.table : Write → TableName
  | .delete deletion => deletion.table
  | .insert table _ => table
  | .insertOrIgnore table _ => table

namespace PolicyTables

/-! ## Rewritten rows -/

section Rewriting

variable {store : PolicyTables} {table : TableName}

/-- A table that no statement is about stays as it is. -/
theorem rows_writeAll_other {writes : List Write} (others : ∀ write ∈ writes, write.table ≠ table) :
    (store.writeAll writes).rows table = store.rows table := by
  have kept := @filter_writeAll store table (fun _ => true) writes
    (fun write member => by
      cases write with
      | delete deletion => trivial
      | insert other cells => exact fun same => absurd same (others _ member)
      | insertOrIgnore other cells => exact fun same => absurd same (others _ member))
    (fun write member => by
      cases write with
      | delete deletion => exact fun same => absurd same (others _ member)
      | insert other cells => trivial
      | insertOrIgnore other cells => trivial)
  rw [List.filter_eq_self.mpr fun _ _ => rfl, List.filter_eq_self.mpr fun _ _ => rfl] at kept
  exact kept

theorem writeAll_after (first second : List Write) : store.writeAll (first ++ second) = (store.writeAll first).writeAll second :=
  List.foldl_append

theorem rows_each_inserted (cells : List (List (Column × Value))) :
    (store.writeAll (cells.map (.insert table))).rows table = store.rows table ++ cells.map table.row := by
  induction cells generalizing store with
  | nil => exact (List.append_nil _).symm
  | cons first rest ih =>
    have later := @ih (store.insert table first)
    have here : (store.insert table first).rows table = store.rows table ++ [table.row first] := Function.update_self _ _ _
    rw [here, List.append_assoc] at later
    exact later

/-- Rows that are deleted and inserted again are the inserted ones. -/
theorem filter_rewritten {mine : Row → Bool} {before between after : List Write} {cells : List (List (Column × Value))}
    (between_others : ∀ write ∈ between, write.table ≠ table) (after_others : ∀ write ∈ after, write.table ≠ table)
    (each : ∀ given ∈ cells, mine (table.row given) = true) :
    ((store.writeAll (before ++ Write.delete ⟨table, mine⟩ :: (between ++ (cells.map (.insert table) ++ after)))).rows table).filter
      mine = cells.map table.row := by
  have deleted (store : PolicyTables) : ((store.write (.delete ⟨table, mine⟩)).rows table).filter mine = [] := by
    have rows : (store.write (.delete ⟨table, mine⟩)).rows table = (store.rows table).filter fun row => !mine row :=
      Function.update_self _ _ _
    rw [rows, List.filter_filter, List.filter_eq_nil_iff]
    intro row _
    cases mine row <;> simp
  rw [writeAll_after, ← List.singleton_append, writeAll_after, writeAll_after, writeAll_after,
    rows_writeAll_other after_others, rows_each_inserted, rows_writeAll_other between_others, List.filter_append]
  have none := deleted (store.writeAll before)
  rw [show ((store.writeAll before).writeAll [.delete ⟨table, mine⟩]) = (store.writeAll before).write (.delete ⟨table, mine⟩) from rfl,
    none, List.nil_append, List.filter_eq_self]
  intro row member
  obtain ⟨given, among, rfl⟩ := List.mem_map.mp member
  exact each given among

/-- Rows with the positions of a list are in its order. -/
theorem byPos_positions {α : Type} (list : List α) {row : α × ℕ → Row} (positioned : ∀ item, row item .pos = .integer item.2) :
    byPos (list.zipIdx.map row) = list.zipIdx.map row := by
  refine List.mergeSort_of_pairwise ?_
  rw [List.pairwise_map]
  have increasing (start : ℕ) : (list.zipIdx start).Pairwise fun a b => a.2 ≤ b.2 := by
    induction list generalizing start with
    | nil => exact .nil
    | cons item rest ih =>
      rw [List.zipIdx_cons, List.pairwise_cons]
      refine ⟨fun other member => ?_, ih (start + 1)⟩
      have later := List.le_snd_of_mem_zipIdx member
      exact Nat.le_of_succ_le later
  refine (increasing 0).imp fun {a b} ordered => ?_
  rw [positioned, positioned]
  exact decide_eq_true (Int.ofNat_le.mpr ordered)

end Rewriting

/-! ## Names of a key in a list -/

/-- A name that a list with commas holds: it has none, no blank at an end, and no quotes around it. -/
def KeyName (name : Text) : Prop :=
  name ≠ [] ∧ ',' ∉ name ∧ Text.trim name = name ∧ ∀ rest, name = '"' :: rest → rest.getLast? ≠ some '"'

private theorem unquote_length (text : Text) : (keyItem.unquote text).length ≤ text.length := by
  fun_induction keyItem.unquote text with
  | case1 rest ih =>
    simp only [List.length_cons]
    omega
  | case2 c rest _ ih =>
    simp only [List.length_cons]
    omega
  | case3 => exact le_rfl

private theorem trim_length (text : Text) : (Text.trim text).length ≤ text.length := by
  have front := (List.dropWhile_sublist Text.isSpace (l := text)).length_le
  have back := (List.dropWhile_sublist Text.isSpace (l := (text.dropWhile Text.isSpace).reverse)).length_le
  rw [Text.trim, List.length_reverse]
  rw [List.length_reverse] at back
  exact back.trans front

theorem keyItem_eq_self {name : Text} :
    keyItem name = name ↔ Text.trim name = name ∧ ∀ rest, name = '"' :: rest → rest.getLast? ≠ some '"' := by
  have short := trim_length name
  rw [keyItem]
  constructor
  · intro same
    split at same
    · next rest trimmed =>
      split_ifs at same with quoted
      · have shorter := unquote_length rest.dropLast
        rw [same, List.length_dropLast] at shorter
        rw [trimmed, List.length_cons] at short
        omega
      · refine ⟨same, fun other isName => ?_⟩
        have rests : '"' :: other = '"' :: rest := (isName.symm.trans same.symm).trans trimmed
        cases rests
        exact quoted
    · next trimmed =>
      exact ⟨same, fun rest isName => absurd (same.trans isName) (trimmed rest)⟩
  · rintro ⟨trimmed, unquoted⟩
    rw [trimmed]
    split
    · next rest => exact if_neg (unquoted rest rfl)
    · rfl

theorem keyName_iff {name : Text} : KeyName name ↔ ',' ∉ name ∧ keyItem name = name ∧ name ≠ [] := by
  rw [keyItem_eq_self, KeyName]
  tauto

/-- The columns of a key's list. -/
def parseKey (csv : Text) : List Text := ((csv.splitOn ',').map keyItem).filter (· ≠ [])

private theorem keyItem_blank (name : Text) : keyItem (' ' :: name) = keyItem name := by
  have same : Text.trim (' ' :: name) = Text.trim name := by simp [Text.trim, Text.isSpace]
  rw [keyItem, keyItem, same]

private theorem intercalate_blank (name : Text) (names : List Text) :
    ", ".toList.intercalate (name :: names) = [','].intercalate (name :: names.map (' ' :: ·)) := by
  have comma : ", ".toList = [',', ' '] := by decide
  rw [comma]
  induction names generalizing name with
  | nil => rfl
  | cons next names ih =>
    rw [List.map_cons, List.intercalate_cons_cons, List.intercalate_cons_cons, ih next]
    cases names with
    | nil => simp
    | cons other names => simp [List.intercalate_cons_cons]

/-- What is read of names without commas. -/
private theorem parseKey_join {names : List Text} (free : ∀ name ∈ names, ',' ∉ name) :
    parseKey (", ".toList.intercalate names) = (names.map keyItem).filter (· ≠ []) := by
  cases names with
  | nil => decide
  | cons name names =>
    have pieces : (", ".toList.intercalate (name :: names)).splitOn ',' = name :: names.map (' ' :: ·) := by
      rw [intercalate_blank]
      refine List.splitOn_intercalate ',' (fun piece member => ?_) (List.cons_ne_nil _ _)
      rcases List.mem_cons.mp member with rfl | member
      · exact free _ List.mem_cons_self
      · obtain ⟨other, among, rfl⟩ := List.mem_map.mp member
        simpa using free other (List.mem_cons_of_mem _ among)
    have items : (names.map (' ' :: ·)).map keyItem = names.map keyItem := by
      rw [List.map_map]
      exact List.map_congr_left fun other _ => keyItem_blank other
    rw [parseKey, pieces, List.map_cons, items]
    rfl

private theorem splitOn_free {separator : Char} {text piece : Text} (member : piece ∈ text.splitOn separator) :
    separator ∉ piece := by
  induction text generalizing piece with
  | nil =>
    rw [List.splitOn_nil, List.mem_singleton] at member
    rw [member]
    exact List.not_mem_nil
  | cons c text ih =>
    rw [List.splitOn_cons_eq_if_modifyHead] at member
    split_ifs at member with same
    · rcases List.mem_cons.mp member with rfl | member
      · exact List.not_mem_nil
      · exact ih member
    · obtain ⟨first, rest, pieces⟩ := List.exists_cons_of_ne_nil (List.splitOn_ne_nil separator text)
      rw [pieces, List.modifyHead_cons] at member
      rw [pieces] at ih
      rcases List.mem_cons.mp member with rfl | member
      · intro inside
        rcases List.mem_cons.mp inside with is | inside
        · exact same (beq_iff_eq.mpr is.symm)
        · exact ih List.mem_cons_self inside
      · exact ih (List.mem_cons_of_mem _ member)

private theorem keyItem_sublist (text : Text) : (keyItem text).Sublist text := by
  have unquoted (text : Text) : (keyItem.unquote text).Sublist text := by
    fun_induction keyItem.unquote text with
    | case1 rest ih => exact (ih.cons_cons '"').trans ((List.sublist_cons_self '"' rest).cons_cons '"')
    | case2 c rest _ ih => exact ih.cons_cons c
    | case3 => exact List.Sublist.refl _
  have trimmed : (Text.trim text).Sublist text := by
    have front := List.dropWhile_sublist Text.isSpace (l := text)
    have back := (List.dropWhile_sublist Text.isSpace (l := (text.dropWhile Text.isSpace).reverse)).reverse
    rw [List.reverse_reverse] at back
    exact back.trans front
  rw [keyItem]
  split
  · next rest same =>
    split_ifs
    · rw [same] at trimmed
      exact (unquoted _).trans (((List.dropLast_sublist rest).trans (List.sublist_cons_self '"' rest)).trans trimmed)
    · exact trimmed
  · exact trimmed

/-- Names come back from their list exactly when the list holds each. -/
theorem parseKey_iff {names : List Text} : parseKey (", ".toList.intercalate names) = names ↔ ∀ name ∈ names, KeyName name := by
  constructor
  · intro same
    have free (name : Text) (member : name ∈ names) : ',' ∉ name := by
      rw [← same, parseKey, List.mem_filter, List.mem_map] at member
      obtain ⟨⟨piece, among, rfl⟩, -⟩ := member
      exact fun inside => splitOn_free among ((keyItem_sublist piece).subset inside)
    rw [parseKey_join free] at same
    have long : ((names.map keyItem).filter (· ≠ [])).length = (names.map keyItem).length := by
      rw [same, List.length_map]
    have full := List.length_filter_eq_length_iff.mp long
    rw [List.filter_eq_self.mpr full] at same
    intro name member
    have own : keyItem name = name := by
      have each := List.map_inj_left.mp (same.trans (List.map_id names).symm)
      exact each name member
    have given := of_decide_eq_true (full _ (List.mem_map_of_mem member))
    rw [own] at given
    exact keyName_iff.mpr ⟨free name member, own, given⟩
  · intro each
    have whole : names.map keyItem = names := by
      refine (List.map_congr_left fun name member => ?_).trans (List.map_id names)
      exact (keyName_iff.mp (each name member)).2.1
    rw [parseKey_join fun name member => (each name member).2.1, whole, List.filter_eq_self]
    exact fun name member => decide_eq_true (each name member).1

/-! ## The shape of an object -/

/-- The columns of the primary key, in order. -/
def keyNames (store : PolicyTables) (vcat vname kind : Text) : List Text :=
  (byPos ((store.rows .keys).filter (namedKind vcat vname kind))).map fun row => (row .column).textOr

/-- The rows of an object's columns. -/
def columnRows (store : PolicyTables) (vcat vname kind : Text) : List Row :=
  (store.rows .objectColumns).filter (namedKind vcat vname kind)

/-- The columns of a declared result: they have types, and no probe gave them. -/
def declaredResult (store : PolicyTables) (vcat vname kind : Text) : List (Text × Text) :=
  ((byPos (store.columnRows vcat vname kind)).filter fun row =>
    decide (row .derived = .boolean false) && decide ((row .type).textOr ≠ [])).map fun row => ((row .name).textOr, (row .type).textOr)

/-- What a new definition says of the object's columns. -/
structure Shape where
  schema : List (Text × Text)
  derived : Bool
  marks : Marks
  known : List Text
  masked : List (Text × Text)

namespace Shape

/-- A column of the new definition. -/
def Has (shape : Shape) (name : Value) : Prop := ∃ column ∈ shape.schema, name = .text column.1

/-- The new definition lets a column stay in the key: it is one of its columns, and neither nullable nor computed. -/
def Keyable (probes : SourceProbes) (shape : Shape) (column : Text) : Prop :=
  (shape.known ≠ [] → Text.fold column ∈ shape.known) ∧ shape.marks.find column ≠ some true ∧
    ¬ (shape.marks.find column = none ∧ (shape.masked.any fun pair => Text.ciEquals pair.1 column && decide (pair.2 ≠ []) &&
      !(decide (Text.trim pair.2 = []) || probes.plainColumnName (Text.trim pair.2))) = true)

end Shape

/-- The facts of the columns are kept, where the new definition leaves them a meaning. -/
structure ShapeKept (probes : SourceProbes) (before after : PolicyTables) (vcat vname kind : Text) (shape : Shape) : Prop where
  key : (∀ name ∈ before.keyNames vcat vname kind, shape.Keyable probes name) →
    after.keyNames vcat vname kind = before.keyNames vcat vname kind
  comments : ∀ row ∈ before.columnRows vcat vname kind, (row .comment).textOr ≠ [] → shape.Has (row .name) →
    ∃ row' ∈ after.columnRows vcat vname kind, row' .name = row .name ∧ row' .comment = row .comment
  result : after.declaredResult vcat vname kind = before.declaredResult vcat vname kind

/-- What the object's columns must be like for that. -/
structure ShapeCarried (probes : SourceProbes) (before : PolicyTables) (vcat vname kind : Text) (shape : Shape) : Prop where
  key : (∀ name ∈ before.keyNames vcat vname kind, shape.Keyable probes name) →
    ∀ name ∈ before.keyNames vcat vname kind, KeyName name
  comments : ∀ row ∈ before.columnRows vcat vname kind, (row .comment).textOr ≠ [] → ¬ shape.Has (row .name)
  result : before.declaredResult vcat vname kind = []

/-- The marks of the columns that the new definition still has. -/
def MarksKept (before after : PolicyTables) (vcat vname kind : Text) (shape : Shape) : Prop :=
  ∀ row ∈ before.columnRows vcat vname kind, row .nullable ≠ .null → shape.Has (row .name) →
    ∃ row' ∈ after.columnRows vcat vname kind, row' .name = row .name ∧ row' .nullable = row .nullable

/-- Each of those columns has the mark that is read for its name. -/
def MarksStand (before : PolicyTables) (vcat vname kind : Text) (shape : Shape) : Prop :=
  ∀ row ∈ before.columnRows vcat vname kind, row .nullable ≠ .null → shape.Has (row .name) →
    shape.marks.cell (row .name).textOr = row .nullable

/-- The cells of a column's row, as they are inserted. -/
private def columnCells (vcat vname kind : Text) (shape : Shape) (column : (Text × Text) × ℕ) : List (Column × Value) :=
  [(.vcat, .text vcat), (.vname, .text vname), (.kind, .text kind), (.pos, .integer column.2), (.name, .text column.1.1),
    (.type, .text column.1.2), (.derived, .boolean shape.derived), (.nullable, shape.marks.cell column.1.1)]

/-- The cells of a key's row. -/
private def keyCells (vcat vname kind : Text) (column : Text × ℕ) : List (Column × Value) :=
  [(.vcat, .text vcat), (.vname, .text vname), (.kind, .text kind), (.pos, .integer column.2), (.column, .text column.1)]

/-- The columns that a carried key keeps. -/
private def keptKey (probes : SourceProbes) (shape : Shape) (pk : Text) : List Text :=
  (carriedKey probes shape.known shape.marks shape.masked (pk.splitOn ',')).getD []

/-- The rows of an object's columns and of its key after the statements of its shape. -/
structure ShapeWritten (probes : SourceProbes) (after : PolicyTables) (vcat vname kind pk : Text) (shape : Shape) : Prop where
  columns : after.columnRows vcat vname kind =
    shape.schema.zipIdx.map fun column => TableName.objectColumns.row (columnCells vcat vname kind shape column)
  keys : (after.rows .keys).filter (namedKind vcat vname kind) =
    (keptKey probes shape pk).zipIdx.map fun column => TableName.keys.row (keyCells vcat vname kind column)

theorem columnSchemaStatements_table {vcat vname kind : Text} {columns : List (Text × Text)} {derived : Bool} {marks : Marks}
    {write : Write} (member : write ∈ columnSchemaStatements vcat vname kind columns derived marks) :
    write.table = .objectColumns := by
  rcases List.mem_cons.mp member with rfl | member
  · rfl
  · obtain ⟨column, -, rfl⟩ := List.mem_map.mp member
    rfl

theorem keyStatements_table {probes : SourceProbes} {vcat vname kind pk : Text} {known : List Text} {marks : Marks}
    {masked : List (Text × Text)} {write : Write} (member : write ∈ keyStatements probes vcat vname kind pk known marks masked) :
    write.table = .keys := by
  rcases List.mem_cons.mp member with rfl | member
  · rfl
  · obtain ⟨column, -, rfl⟩ := List.mem_map.mp member
    rfl

/-- The statements of a shape write it, whatever comes before them. -/
theorem shape_written (probes : SourceProbes) (store : PolicyTables) (vcat vname kind pk : Text) (shape : Shape) (first : List Write) :
    ShapeWritten probes
      (store.writeAll (first ++ columnSchemaStatements vcat vname kind shape.schema shape.derived shape.marks ++
        keyStatements probes vcat vname kind pk shape.known shape.marks shape.masked)) vcat vname kind pk shape := by
  have schema : columnSchemaStatements vcat vname kind shape.schema shape.derived shape.marks =
      .delete ⟨.objectColumns, namedKind vcat vname kind⟩ ::
        (shape.schema.zipIdx.map (columnCells vcat vname kind shape)).map (.insert .objectColumns) := by
    rw [List.map_map]
    rfl
  have key : keyStatements probes vcat vname kind pk shape.known shape.marks shape.masked =
      .delete ⟨.keys, namedKind vcat vname kind⟩ ::
        ((keptKey probes shape pk).zipIdx.map (keyCells vcat vname kind)).map (.insert .keys) := by
    rw [List.map_map]
    rfl
  constructor
  · have rewritten := @filter_rewritten store .objectColumns (namedKind vcat vname kind) first []
      (keyStatements probes vcat vname kind pk shape.known shape.marks shape.masked) (shape.schema.zipIdx.map (columnCells vcat vname kind shape)) (fun write none => (List.not_mem_nil none).elim)
      (fun write member => (keyStatements_table member).trans_ne (by decide)) (fun given member => by
        obtain ⟨column, -, rfl⟩ := List.mem_map.mp member
        simp [namedKind, named, Row.is, TableName.row, TableName.columns, columnCells])
    rw [schema, List.append_assoc]
    exact rewritten.trans (List.map_map ..)
  · have rewritten := @filter_rewritten store .keys (namedKind vcat vname kind)
      (first ++ columnSchemaStatements vcat vname kind shape.schema shape.derived shape.marks) [] []
      ((keptKey probes shape pk).zipIdx.map (keyCells vcat vname kind)) (fun write none => (List.not_mem_nil none).elim)
      (fun write none => (List.not_mem_nil none).elim) (fun given member => by
        obtain ⟨column, -, rfl⟩ := List.mem_map.mp member
        simp [namedKind, named, Row.is, TableName.row, TableName.columns, keyCells])
    rw [List.append_nil, List.nil_append] at rewritten
    rw [key]
    exact rewritten.trans (List.map_map ..)

/-- The columns of a list that may all stay are carried. -/
private theorem carriedKey_keyable {probes : SourceProbes} {shape : Shape} {items : List Text}
    (each : ∀ item ∈ items, keyItem item ≠ [] → shape.Keyable probes (keyItem item)) :
    carriedKey probes shape.known shape.marks shape.masked items = some ((items.map keyItem).filter (· ≠ [])) := by
  induction items with
  | nil => rfl
  | cons item items ih =>
    have later := ih fun other member => each other (List.mem_cons_of_mem _ member)
    rw [carriedKey]
    by_cases empty : keyItem item = []
    · rw [if_pos empty, later, List.map_cons, List.filter_cons_of_neg (by simpa using empty)]
    · obtain ⟨known, nullable, computed⟩ := each item List.mem_cons_self empty
      rw [if_neg empty, if_neg fun both => both.2 (known both.1), if_neg nullable, if_neg computed, later, List.map_cons,
        List.filter_cons_of_pos (by simpa using empty)]
      rfl

/-- What is carried of a list is all of it, or nothing. -/
private theorem carriedKey_cases (probes : SourceProbes) (shape : Shape) (items : List Text) :
    carriedKey probes shape.known shape.marks shape.masked items = none ∨
      carriedKey probes shape.known shape.marks shape.masked items = some ((items.map keyItem).filter (· ≠ [])) := by
  induction items with
  | nil => exact .inr rfl
  | cons item items ih =>
    rw [carriedKey]
    split_ifs with empty known nullable computed
    · rw [List.map_cons, List.filter_cons_of_neg (by simpa using empty)]
      exact ih
    · exact .inl rfl
    · exact .inl rfl
    · exact .inl rfl
    · rw [List.map_cons, List.filter_cons_of_pos (by simpa using empty)]
      rcases ih with none | same
      · rw [none]
        exact .inl rfl
      · rw [same]
        exact .inr rfl

/-- A key whose columns may stay is carried exactly when its list holds their names. -/
private theorem keptKey_iff {probes : SourceProbes} {shape : Shape} {names : List Text}
    (stay : ∀ name ∈ names, shape.Keyable probes name) :
    keptKey probes shape (", ".toList.intercalate names) = names ↔ ∀ name ∈ names, KeyName name := by
  rw [keptKey]
  constructor
  · intro same
    rcases carriedKey_cases probes shape ((", ".toList.intercalate names).splitOn ',') with none | some
    · rw [none] at same
      rw [← same]
      exact fun name member => (List.not_mem_nil member).elim
    · rw [some] at same
      exact parseKey_iff.mp same
  · intro each
    have parsed := parseKey_iff.mpr each
    rw [carriedKey_keyable fun item member given => ?_]
    · exact parsed
    · refine stay _ ?_
      rw [← parsed, parseKey]
      exact List.mem_filter.mpr ⟨List.mem_map_of_mem member, decide_eq_true given⟩

private theorem mem_zipIdx_of_mem {α : Type} {list : List α} {item : α} (member : item ∈ list) : ∃ pos, (item, pos) ∈ list.zipIdx := by
  obtain ⟨pos, here⟩ := List.mem_iff_getElem?.mp member
  exact ⟨pos, List.mem_zipIdx_iff_getElem?.mpr here⟩

section Written

variable {probes : SourceProbes} {before after : PolicyTables} {vcat vname kind : Text} {shape : Shape}
  (written : ShapeWritten probes after vcat vname kind (before.existingKeyCsv vcat vname kind) shape)

include written

/-- A row of a column is one of the new definition's. -/
private theorem columnRow_cases {row : Row} (member : row ∈ after.columnRows vcat vname kind) :
    ∃ column ∈ shape.schema, row .name = .text column.1 ∧ (row .type).textOr = column.2 ∧
      row .derived = .boolean shape.derived ∧ row .nullable = shape.marks.cell column.1 ∧ row .comment = .null := by
  rw [written.columns] at member
  obtain ⟨⟨column, pos⟩, among, rfl⟩ := List.mem_map.mp member
  exact ⟨column, (List.mem_zipIdx' among).2 ▸ List.getElem_mem _, rfl, rfl, rfl, rfl, rfl⟩

private theorem columnRow_of_mem {column : Text × Text} (member : column ∈ shape.schema) :
    ∃ row ∈ after.columnRows vcat vname kind, row .name = .text column.1 ∧ row .nullable = shape.marks.cell column.1 := by
  obtain ⟨pos, among⟩ := mem_zipIdx_of_mem member
  rw [written.columns]
  exact ⟨_, List.mem_map_of_mem among, rfl, rfl⟩

private theorem keyNames_written :
    after.keyNames vcat vname kind = keptKey probes shape (before.existingKeyCsv vcat vname kind) := by
  rw [keyNames, written.keys, byPos_positions _ fun _ => rfl, List.map_map]
  exact List.zipIdx_map_fst 0 _

/-- The facts of the columns are kept exactly when they are such as are carried. -/
theorem shapeKept_iff (untyped : shape.derived = false → ∀ column ∈ shape.schema, column.2 = []) :
    ShapeKept probes before after vcat vname kind shape ↔ ShapeCarried probes before vcat vname kind shape := by
  have csv : before.existingKeyCsv vcat vname kind = ", ".toList.intercalate (before.keyNames vcat vname kind) := rfl
  have none : after.declaredResult vcat vname kind = [] := by
    rw [declaredResult, List.map_eq_nil_iff, List.filter_eq_nil_iff]
    intro row member
    have listed : row ∈ after.columnRows vcat vname kind := (List.mergeSort_perm _ _).mem_iff.mp member
    obtain ⟨column, among, -, type, derived, -⟩ := columnRow_cases written listed
    rw [derived, type]
    cases is : shape.derived with
    | true => simp
    | false => simp [untyped is column among]
  constructor
  · intro kept
    refine ⟨fun stay => ?_, fun row member comment has => ?_, none.symm.trans kept.result |>.symm⟩
    · have same := kept.key stay
      rw [keyNames_written written, csv] at same
      exact (keptKey_iff stay).mp same
    · obtain ⟨row', listed, -, same⟩ := kept.comments row member comment has
      obtain ⟨column, -, -, -, -, -, lost⟩ := columnRow_cases written listed
      rw [← same, lost] at comment
      exact comment rfl
  · intro carried
    refine ⟨fun stay => ?_, fun row member comment has => absurd has (carried.comments row member comment), ?_⟩
    · rw [keyNames_written written, csv]
      exact (keptKey_iff stay).mpr (carried.key stay)
    · rw [none, carried.result]

theorem marksKept_iff : MarksKept before after vcat vname kind shape ↔ MarksStand before vcat vname kind shape := by
  refine forall₂_congr fun row member => imp_congr_right fun marked => imp_congr_right fun has => ?_
  obtain ⟨column, among, name⟩ := has
  constructor
  · rintro ⟨row', listed, named, same⟩
    obtain ⟨other, -, isName, -, -, nullable, -⟩ := columnRow_cases written listed
    rw [← same, nullable, ← named, isName]
    rfl
  · intro same
    obtain ⟨row', listed, isName, nullable⟩ := columnRow_of_mem written among
    rw [name] at same
    exact ⟨row', listed, isName.trans name.symm, nullable.trans same⟩

end Written

end PolicyTables

end DuckAcl
