import DuckAcl.Library.Bags
import DuckAcl.Model.RecordUndo
import DuckAcl.Soundness.RelationRemoval

/-! # Images of a name's rows

An image holds the rows it was read from, so a table that is put back from one holds them again. Taking a
name and putting one back both replace, table by table, the rows its sources show: what comes of a table
depends on the store as it was before the first statement, since a reference's columns are found before
the references go. Rows count with their number, not with their order.
-/

namespace DuckAcl

namespace PolicyTables

/-! ## Rows and their images -/

/-- A row's image gives the row again. -/
theorem row_imageOf {table : TableName} {row : Row} (own : ∀ cell, cell ∉ table.columns → row cell = .null) :
    table.row (table.columns.zip (imageOf table row)) = row := by
  funext cell
  have pairs : table.columns.zip (imageOf table row) = table.columns.map fun cell => (cell, row cell) := by
    have paired : (table.columns.map id).zip (table.columns.map row) = table.columns.map fun cell => (id cell, row cell) :=
      List.zip_map'
    rwa [List.map_id] at paired
  simp only [TableName.row, pairs]
  split
  · next listed =>
    have found : table.columns.find? (fun other => decide (other = cell)) = some cell := by
      have some : (table.columns.find? fun other => decide (other = cell)).isSome :=
        List.find?_isSome.mpr ⟨cell, listed, decide_eq_true rfl⟩
      obtain ⟨other, found⟩ := Option.isSome_iff_exists.mp some
      have same := List.find?_some found
      rw [decide_eq_true_eq] at same
      rw [found, same]
    rw [List.find?_map]
    simp only [Function.comp_def, found, Option.map_some, Option.getD_some]
  · next absent => exact (own cell absent).symm

/-- Rows of a table come back from their images. -/
theorem rows_imageOf {store : PolicyTables} {table : TableName} {rows : List Row}
    (held : ∀ row ∈ rows, row ∈ store.rows table) :
    (rows.map (imageOf table)).map (fun values => table.row (table.columns.zip values)) = rows := by
  rw [List.map_map]
  have each : ∀ row ∈ rows, ((fun values => table.row (table.columns.zip values)) ∘ imageOf table) row = id row := by
    intro row member
    exact row_imageOf (store.own table row (held row member))
  rw [List.map_congr_left each, List.map_id]

/-- The rows an image was read from. -/
theorem rows_readRelationRows (store : PolicyTables) (vcat vname : Text) (table : TableName) :
    ((store.readRelationRows vcat vname).rows table).map (fun values => table.row (table.columns.zip values)) =
      (store.rows table).filter (store.sourceHits vcat vname table) :=
  rows_imageOf fun _ member => (List.mem_filter.mp member).1

/-- The rows of a table, with their number. -/
def bag (store : PolicyTables) (table : TableName) : Multiset Row := store.rows table

/-- The rows of a name in a table, with their number. -/
def nameBag (store : PolicyTables) (vcat vname : Text) (table : TableName) : Multiset Row :=
  (store.bag table).filter (store.sourceHits vcat vname table · = true)

theorem nameBag_eq (store : PolicyTables) (vcat vname : Text) (table : TableName) :
    store.nameBag vcat vname table = ((store.rows table).filter (store.sourceHits vcat vname table) : List Row) := by
  rw [nameBag, bag, Multiset.filter_coe]
  simp only [Bool.decide_eq_true]

/-- Two images show the same rows of a table exactly when the stores they were read from have them. -/
theorem sameRows_iff {first second : PolicyTables} {vcat vname : Text} {table : TableName} :
    sameRows (first.readRelationRows vcat vname) (second.readRelationRows vcat vname) table = true ↔
      first.nameBag vcat vname table = second.nameBag vcat vname table := by
  rw [sameRows, List.isPerm_iff, nameBag_eq, nameBag_eq, Multiset.coe_eq_coe]
  constructor
  · intro same
    have rows := same.map fun values => table.row (table.columns.zip values)
    rwa [rows_readRelationRows, rows_readRelationRows] at rows
  · exact fun same => same.map (imageOf table)

theorem changed_eq_false_iff {before after : PolicyTables} {vcat vname : Text} {table : TableName} :
    changed ⟨before.readRelationRows vcat vname, after.readRelationRows vcat vname⟩ table = false ↔
      before.nameBag vcat vname table = after.nameBag vcat vname table := by
  rw [changed, Bool.not_eq_false']
  exact sameRows_iff

/-! ## Replacing a name's rows -/

/-- Two stores hold the same rows. -/
def SameBags (first second : PolicyTables) : Prop := ∀ table, first.bag table = second.bag table

theorem SameBags.symm {first second : PolicyTables} (same : first.SameBags second) : second.SameBags first :=
  fun table => (same table).symm

theorem SameBags.trans {first second third : PolicyTables} (one : first.SameBags second) (two : second.SameBags third) :
    first.SameBags third :=
  fun table => (one table).trans (two table)

theorem mem_rows_iff {first second : PolicyTables} {table : TableName} (same : first.bag table = second.bag table)
    {row : Row} : row ∈ first.rows table ↔ row ∈ second.rows table :=
  (Multiset.coe_eq_coe.mp same).mem_iff

theorem has_congr {first second : PolicyTables} {table : TableName} (same : first.bag table = second.bag table)
    (test : Row → Bool) : first.has table test = second.has table test := by
  rw [Bool.eq_iff_iff, has_iff, has_iff]
  simp only [mem_rows_iff same]

/-- Which rows a source shows depends on the references alone. -/
theorem sourceHits_congr {first second : PolicyTables} (vcat vname : Text) {table : TableName}
    (same : table = .referenceColumns → first.bag .references = second.bag .references) :
    first.sourceHits vcat vname table = second.sourceHits vcat vname table := by
  cases table
  case referenceColumns =>
    funext row
    have any := has_congr (same rfl) fun reference =>
      endsAt vcat vname reference && decide (reference .name = row .name)
    simp only [sourceHits, ofReference]
    rw [has, has] at any
    rw [any]
  all_goals rfl

theorem SameBags.sourceHits_eq {first second : PolicyTables} (same : first.SameBags second) (vcat vname : Text)
    (table : TableName) : first.sourceHits vcat vname table = second.sourceHits vcat vname table :=
  sourceHits_congr vcat vname fun _ => same .references

theorem SameBags.nameBag_eq {first second : PolicyTables} (same : first.SameBags second) (vcat vname : Text)
    (table : TableName) : first.nameBag vcat vname table = second.nameBag vcat vname table := by
  rw [nameBag, nameBag, same table, same.sourceHits_eq]

private theorem rows_insertRows (store : PolicyTables) (table : TableName) (rows : List RowImage) (other : TableName) :
    (store.writeAll (insertRows table rows)).rows other =
      if other = table then store.rows table ++ rows.map (fun values => table.row (table.columns.zip values))
      else store.rows other := by
  induction rows generalizing store with
  | nil =>
    show store.rows other = _
    split
    · next same => rw [same, List.map_nil, List.append_nil]
    · rfl
  | cons values rest ih =>
    have run : (store.writeAll (insertRows table (values :: rest))).rows other =
        ((store.insert table (table.columns.zip values)).writeAll (insertRows table rest)).rows other := rfl
    rw [run, ih]
    by_cases same : other = table
    · subst same
      simp only [↓reduceIte, insert, Function.update_self, List.map_cons, List.append_assoc, List.singleton_append]
    · simp only [same, ↓reduceIte, insert, Function.update_of_ne same]

/-- What replacing a name's rows in one table does to each. -/
theorem rows_replaceRows (store : PolicyTables) (vcat vname : Text) (table : TableName) (rows : List RowImage)
    (other : TableName) :
    (store.replaceRows vcat vname table rows).rows other =
      if other = table then (store.rows table).filter (fun row => !store.sourceHits vcat vname table row) ++
        rows.map (fun values => table.row (table.columns.zip values))
      else store.rows other := by
  have run : (store.replaceRows vcat vname table rows).rows other =
      ((store.deleteAll [⟨table, store.sourceHits vcat vname table⟩]).writeAll (insertRows table rows)).rows other := rfl
  rw [run, rows_insertRows]
  have left : ∀ which, (store.deleteAll [⟨table, store.sourceHits vcat vname table⟩]).rows which =
      (store.rows which).filter fun row =>
        !(decide (table = which) && store.sourceHits vcat vname table row) := by
    intro which
    show store.rows.deleteAll _ which = _
    rw [Tables.deleteAll_apply]
    simp only [Tables.hitBy, List.any_cons, List.any_nil, Bool.or_false]
  rw [left, left]
  by_cases same : other = table
  · simp only [same, ↓reduceIte, decide_true, Bool.true_and]
  · have differ : ¬ table = other := Ne.symm same
    simp only [same, ↓reduceIte, differ, decide_false, Bool.false_and, Bool.not_false, List.filter_true]

/-- A reference's columns come before the references. -/
private def ReferencesLast (tables : List TableName) : Prop :=
  tables.Pairwise fun first second => first = .references → second ≠ .referenceColumns

/-- The loop over the sources: each table some test picks is replaced as the store was before the loop. -/
private theorem rows_foldl {tables : List TableName} (distinct : tables.Nodup) (last : ReferencesLast tables)
    (store : PolicyTables) (vcat vname : Text) (picks : TableName → Bool) (rows : TableName → List RowImage)
    (table : TableName) :
    (tables.foldl (fun left table => if picks table then left.replaceRows vcat vname table (rows table) else left)
      store).rows table =
      if table ∈ tables ∧ picks table = true then
        (store.rows table).filter (fun row => !store.sourceHits vcat vname table row) ++
          (rows table).map (fun values => table.row (table.columns.zip values))
      else store.rows table := by
  induction tables generalizing store with
  | nil => simp
  | cons first rest ih =>
    obtain ⟨fresh, distinct⟩ := List.nodup_cons.mp distinct
    obtain ⟨before, last⟩ := List.pairwise_cons.mp last
    rw [List.foldl_cons, ih distinct last]
    by_cases here : table = first
    · subst here
      simp only [fresh, false_and, ↓reduceIte, List.mem_cons, true_or, true_and]
      split
      · rw [rows_replaceRows, if_pos rfl]
      · rfl
    · have kept : ∀ other, other ≠ first →
          (if picks first then store.replaceRows vcat vname first (rows first) else store).rows other =
            store.rows other := by
        intro other differ
        split
        · rw [rows_replaceRows, if_neg differ]
        · rfl
      simp only [List.mem_cons, here, false_or]
      by_cases member : table ∈ rest
      · have hits : (if picks first then store.replaceRows vcat vname first (rows first) else store).sourceHits vcat vname
            table = store.sourceHits vcat vname table := by
          apply sourceHits_congr
          intro columns
          rw [bag, bag, kept .references]
          rintro rfl
          exact before table member rfl columns
        rw [hits, kept table here]
      · simp only [member, false_and, ↓reduceIte]
        exact kept table here

theorem sourceTables_nodup : sourceTables.Nodup := by decide

private theorem sourceTables_last : ReferencesLast sourceTables := by
  unfold ReferencesLast
  decide

/-- The table's rows stay with the function of the same name. -/
def keptForFunction (store : PolicyTables) (vcat vname : Text) (table : TableName) : Bool :=
  sharesGrants table && store.has .functions (named vcat vname)

/-- What taking a name leaves of each table. -/
theorem rows_takeName (store : PolicyTables) (vcat vname : Text) (change : RelationRowsChange) (table : TableName) :
    (store.takeName vcat vname change).rows table =
      if table ∈ sourceTables ∧ store.keptForFunction vcat vname table = false then
        (store.rows table).filter (fun row => !store.sourceHits vcat vname table row) ++
          (if changed change table then change.before.rows table else []).map
            (fun values => table.row (table.columns.zip values))
      else store.rows table := by
  have run := rows_foldl sourceTables_nodup sourceTables_last store vcat vname
    (fun table => !store.keptForFunction vcat vname table)
    (fun table => if changed change table then change.before.rows table else []) table
  simp only [Bool.not_eq_true'] at run
  rw [← run, takeName]
  congr 2
  funext taken other
  cases kept : store.keptForFunction vcat vname other with
  | true =>
    rw [keptForFunction] at kept
    simp only [kept, ↓reduceIte, Bool.true_eq_false]
  | false =>
    rw [keptForFunction] at kept
    simp only [kept, ↓reduceIte, Bool.false_eq_true]

/-- What putting a name back leaves of each table. -/
theorem rows_putBack (store : PolicyTables) (vcat vname : Text) (change : RelationRowsChange) (table : TableName) :
    (store.putBack vcat vname change).rows table =
      if table ∈ sourceTables ∧ changed change table = true then
        (store.rows table).filter (fun row => !store.sourceHits vcat vname table row) ++
          (change.before.rows table).map (fun values => table.row (table.columns.zip values))
      else store.rows table :=
  rows_foldl sourceTables_nodup sourceTables_last store vcat vname (changed change) change.before.rows table

theorem sourceHits_of_not_mem {table : TableName} (absent : table ∉ sourceTables) (store : PolicyTables)
    (vcat vname : Text) (row : Row) : store.sourceHits vcat vname table row = false := by
  cases table
  all_goals first
    | rfl
    | exact absurd (by decide) absent

section Putting

variable {before after now : PolicyTables} {vcat vname : Text}

/-- The name's rows of a table, replaced by those another store has. -/
def nameReplaced (now before : PolicyTables) (vcat vname : Text) (table : TableName) : Multiset Row :=
  Bags.replaced (now.bag table) (before.bag table) (now.sourceHits vcat vname table)
    (before.sourceHits vcat vname table)

private theorem coe_replaced (table : TableName) :
    (((now.rows table).filter (fun row => !now.sourceHits vcat vname table row) ++
      ((before.readRelationRows vcat vname).rows table).map (fun values => table.row (table.columns.zip values)) :
        List Row) : Multiset Row) = nameReplaced now before vcat vname table := by
  rw [rows_readRelationRows, ← Multiset.coe_add, nameReplaced, Bags.replaced, bag, bag, Multiset.filter_coe,
    Multiset.filter_coe]
  simp only [Bool.decide_eq_true, Bool.decide_eq_false]

private theorem nameReplaced_of_same {table : TableName}
    (same : now.nameBag vcat vname table = before.nameBag vcat vname table) :
    nameReplaced now before vcat vname table = now.bag table :=
  Bags.replaced_of_same same

theorem nameBag_of_not_mem {table : TableName} (absent : table ∉ sourceTables) (store : PolicyTables) :
    store.nameBag vcat vname table = 0 := by
  rw [nameBag]
  simp only [sourceHits_of_not_mem absent, Bool.false_eq_true, Multiset.filter_false]

/-- Putting a name back replaces its rows in every table: those it does not touch are there already. -/
theorem bag_putBack
    (unchanged : ∀ table, before.nameBag vcat vname table = after.nameBag vcat vname table →
      now.nameBag vcat vname table = before.nameBag vcat vname table) (table : TableName) :
    (now.putBack vcat vname ⟨before.readRelationRows vcat vname, after.readRelationRows vcat vname⟩).bag table =
      nameReplaced now before vcat vname table := by
  rw [bag, rows_putBack]
  split
  · exact coe_replaced table
  · next untouched =>
    refine (nameReplaced_of_same ?_).symm
    by_cases member : table ∈ sourceTables
    · apply unchanged
      rw [← changed_eq_false_iff]
      simpa [member] using untouched
    · rw [nameBag_of_not_mem member, nameBag_of_not_mem member]

/-- Taking a name does the same where the rows it takes for good were none. -/
theorem bag_takeName
    (kept : ∀ table ∈ sourceTables, now.keptForFunction vcat vname table = true →
      now.nameBag vcat vname table = before.nameBag vcat vname table)
    (nothing : ∀ table ∈ sourceTables, now.keptForFunction vcat vname table = false →
      before.nameBag vcat vname table = after.nameBag vcat vname table → before.nameBag vcat vname table = 0)
    (table : TableName) :
    (now.takeName vcat vname ⟨before.readRelationRows vcat vname, after.readRelationRows vcat vname⟩).bag table =
      nameReplaced now before vcat vname table := by
  rw [bag, rows_takeName]
  split
  · next taken =>
    obtain ⟨member, free⟩ := taken
    cases differs : changed ⟨before.readRelationRows vcat vname, after.readRelationRows vcat vname⟩ table with
    | true => exact coe_replaced table
    | false =>
      have empty := nothing table member free (changed_eq_false_iff.mp differs)
      have none : ((before.readRelationRows vcat vname).rows table).map
          (fun values => table.row (table.columns.zip values)) = [] := by
        rw [rows_readRelationRows, ← Multiset.coe_eq_zero, ← nameBag_eq, empty]
      rw [← coe_replaced, none]
      rfl
  · next left =>
    refine (nameReplaced_of_same ?_).symm
    by_cases member : table ∈ sourceTables
    · apply kept table member
      simpa [member] using left
    · rw [nameBag_of_not_mem member, nameBag_of_not_mem member]

end Putting

end PolicyTables

end DuckAcl
