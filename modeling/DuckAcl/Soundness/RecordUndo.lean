import DuckAcl.Soundness.RecordImages

/-! # Undoing the record writes of a transaction

A record write moves no row outside its names (the frame of each write), and an undo replaces the names'
rows by those the write found, so a write whose rows nobody touched is taken back whole. What an undo
takes for good is the rest of a name whose record the write created: the tables the write left as they
were are cleared and not put back. The theorem follows a run of writes and the undos in reverse.
-/

namespace DuckAcl

namespace PolicyTables

/-! ## Frames -/

/-- The statement adds and takes rows of the name only. -/
def Concerns (store : PolicyTables) (vcat vname : Text) (write : Write) : Prop :=
  ∀ table, write.AddsNone table (fun row => !store.sourceHits vcat vname table row) ∧
    write.TakesNone table (fun row => !store.sourceHits vcat vname table row)

section Concerns

variable {store : PolicyTables} {vcat vname : Text}

private theorem concerns_delete {table : TableName} {hits : Row → Bool}
    (inside : ∀ row, hits row = true → store.sourceHits vcat vname table row = true) :
    store.Concerns vcat vname (.delete ⟨table, hits⟩) := by
  intro other
  refine ⟨trivial, ?_⟩
  rintro rfl row outside
  rw [Bool.not_eq_true'] at outside
  by_contra hit
  rw [Bool.not_eq_false] at hit
  rw [inside row hit] at outside
  cases outside

private theorem concerns_insert {table : TableName} {cells : List (Column × Value)}
    (inside : store.sourceHits vcat vname table (table.row cells) = true) :
    store.Concerns vcat vname (.insert table cells) ∧ store.Concerns vcat vname (.insertOrIgnore table cells) := by
  have adds : ∀ other, table = other → (!store.sourceHits vcat vname other (other.row cells)) = false := by
    rintro other rfl
    rw [inside]
    rfl
  exact ⟨fun other => ⟨adds other, trivial⟩, fun other => ⟨adds other, trivial⟩⟩

/-- Statements about a name leave the rows outside it. -/
theorem filter_concerns {writes : List Write} (concern : ∀ write ∈ writes, store.Concerns vcat vname write)
    (table : TableName) :
    ((store.writeAll writes).rows table).filter (fun row => !store.sourceHits vcat vname table row) =
      (store.rows table).filter (fun row => !store.sourceHits vcat vname table row) :=
  filter_writeAll (fun write member => (concern write member table).1) fun write member => (concern write member table).2

/-- Statements on other tables leave a table as it is. -/
theorem rows_writeAll_of_other {writes : List Write} {table : TableName}
    (other : ∀ write ∈ writes, ∀ test, write.AddsNone table test ∧ write.TakesNone table test) :
    (store.writeAll writes).rows table = store.rows table := by
  have same := @filter_writeAll store table (fun _ => true) writes
    (fun write member => (other write member _).1) (fun write member => (other write member _).2)
  simpa only [List.filter_true] using same

private theorem concerns_clearMark {write : Write} (member : write ∈ clearMark vcat vname) :
    store.Concerns vcat vname write := by
  unfold clearMark at member
  split_ifs at member
  · cases member
  · rw [List.mem_singleton] at member
    subst member
    exact concerns_delete fun row hit => hit

private theorem concerns_recordStatements {facts : RegisterFacts} {form phys viewSql origin : Text} {write : Write}
    (member : write ∈ recordStatements facts vcat vname form phys viewSql origin) :
    store.Concerns vcat vname write := by
  simp only [recordStatements, List.cons_append, List.nil_append, List.mem_cons, List.mem_append, List.mem_map,
    List.not_mem_nil, or_false, or_assoc] at member
  rcases member with rfl | rfl | rfl | rfl | ⟨cells, _, rfl⟩ | rfl | ⟨cells, _, rfl⟩ | rfl
  · exact concerns_delete fun row hit => hit
  · exact concerns_delete fun row hit => hit
  · refine (concerns_insert ?_).1
    simp [sourceHits, named, Row.is, TableName.row, TableName.columns]
  · exact concerns_delete fun row hit => hit
  · refine (concerns_insert ?_).1
    simp [sourceHits, named, Row.is, TableName.row, TableName.columns]
  · exact concerns_delete fun row hit => hit
  · refine (concerns_insert ?_).1
    simp [sourceHits, namedKind, named, Row.is, TableName.row, TableName.columns]
  · exact concerns_delete fun row hit => hit

private theorem recordStatements_table {facts : RegisterFacts} {form phys viewSql origin : Text} {write : Write}
    {table : TableName} (member : write ∈ recordStatements facts vcat vname form phys viewSql origin ++ clearMark vcat vname)
    (other : table ∉ [TableName.relations, .relationColumns, .relationTypes, .objectColumns, .keys, .schemaDropped])
    (test : Row → Bool) : write.AddsNone table test ∧ write.TakesNone table test := by
  simp only [List.mem_cons, List.not_mem_nil, or_false, not_or] at other
  simp only [recordStatements, clearMark, List.cons_append, List.nil_append, List.mem_cons, List.mem_append, List.mem_map,
    List.not_mem_nil, or_false, or_assoc] at member
  have marks : ∀ {parent : Text} {deletion : Delete}, write ∈ (if parent = [] then [] else [.delete deletion]) →
      write = .delete deletion := by
    intro parent deletion held
    split_ifs at held
    · cases held
    · exact List.mem_singleton.mp held
  have apart : ∀ {writes : Prop} {which : TableName}, table ≠ which → (which = table → writes) :=
    fun differ same => absurd same.symm differ
  obtain ⟨one, two, three, four, five, six⟩ := other
  rcases member with rfl | rfl | rfl | rfl | ⟨cells, _, rfl⟩ | rfl | ⟨cells, _, rfl⟩ | rfl | held
  · exact ⟨trivial, apart one⟩
  · exact ⟨trivial, apart two⟩
  · exact ⟨apart one, trivial⟩
  · exact ⟨trivial, apart three⟩
  · exact ⟨apart three, trivial⟩
  · exact ⟨trivial, apart four⟩
  · exact ⟨apart four, trivial⟩
  · exact ⟨trivial, apart five⟩
  · rw [marks held]
    exact ⟨trivial, apart six⟩

end Concerns

/-! ## What each write moves -/

/-- The write moved rows of the name only. -/
def MovesOnly (before after : PolicyTables) (vcat vname : Text) : Prop :=
  ∀ table, (after.bag table).filter (after.sourceHits vcat vname table · = false) =
    (before.bag table).filter (before.sourceHits vcat vname table · = false)

/-- The name has one record. -/
def OneRecord (store : PolicyTables) (vcat vname : Text) : Prop :=
  ((store.rows .relations).filter (named vcat vname)).length ≤ 1

section Moves

variable {store : PolicyTables} {vcat vname : Text}

private theorem filter_bag {first second : PolicyTables} {table : TableName} {hits : Row → Bool}
    (same : (first.rows table).filter (fun row => !hits row) = (second.rows table).filter (fun row => !hits row)) :
    (first.bag table).filter (hits · = false) = (second.bag table).filter (hits · = false) := by
  rw [bag, bag, Multiset.filter_coe, Multiset.filter_coe]
  simp only [Bool.decide_eq_false]
  rw [same]

private theorem register_table {facts : RegisterFacts} {form phys viewSql origin : Text} {marks : List Write}
    (clears : ∀ write ∈ marks, write ∈ clearMark vcat vname) {table : TableName}
    (other : table ∉ [TableName.relations, .relationColumns, .relationTypes, .objectColumns, .keys, .schemaDropped]) :
    (store.writeAll (recordStatements facts vcat vname form phys viewSql origin ++ marks)).rows table =
      store.rows table := by
  apply rows_writeAll_of_other
  intro write member test
  have among : write ∈ recordStatements facts vcat vname form phys viewSql origin ++ clearMark vcat vname := by
    rcases List.mem_append.mp member with stated | marked
    · exact List.mem_append_left _ stated
    · exact List.mem_append_right _ (clears write marked)
  exact recordStatements_table among other test

/-- Registering a name moves its rows only. -/
theorem register_moves {facts : RegisterFacts} {form phys viewSql origin : Text} {marks : List Write}
    (clears : ∀ write ∈ marks, write ∈ clearMark vcat vname) :
    store.MovesOnly (store.writeAll (recordStatements facts vcat vname form phys viewSql origin ++ marks)) vcat vname := by
  intro table
  have hits : (store.writeAll (recordStatements facts vcat vname form phys viewSql origin ++ marks)).sourceHits vcat vname
      table = store.sourceHits vcat vname table := by
    apply sourceHits_congr
    intro _
    rw [bag, register_table clears (by decide), bag]
  rw [hits]
  apply filter_bag
  apply filter_concerns
  intro write member
  rcases List.mem_append.mp member with stated | marked
  · exact concerns_recordStatements stated
  · exact concerns_clearMark (clears write marked)

/-- What a register does to the records. -/
theorem register_relations {facts : RegisterFacts} {form phys viewSql origin : Text} {marks : List Write}
    (clears : ∀ write ∈ marks, write ∈ clearMark vcat vname) :
    ∃ row, named vcat vname row = true ∧
      (store.writeAll (recordStatements facts vcat vname form phys viewSql origin ++ marks)).rows .relations =
        (store.rows .relations).filter (fun row => !named vcat vname row) ++ [row] := by
  obtain ⟨cells, later, split, bears, others⟩ : ∃ cells later, recordStatements facts vcat vname form phys viewSql origin =
      .delete ⟨.relations, named vcat vname⟩ :: .delete ⟨.relationColumns, named vcat vname⟩ ::
        .insert .relations cells :: later ∧ named vcat vname (TableName.relations.row cells) = true ∧
      ∀ write ∈ later, ∀ test, write.AddsNone .relations test ∧ write.TakesNone .relations test := by
    refine ⟨_, (recordStatements facts vcat vname form phys viewSql origin).drop 3, rfl, ?_, ?_⟩
    · simp [named, Row.is, TableName.row, TableName.columns]
    intro write member test
    simp only [recordStatements, List.cons_append, List.nil_append, List.drop_succ_cons, List.drop_zero, List.mem_cons,
      List.mem_append, List.mem_map, List.not_mem_nil, or_false, or_assoc] at member
    rcases member with rfl | ⟨cells, _, rfl⟩ | rfl | ⟨cells, _, rfl⟩ | rfl
    all_goals exact ⟨by simp [Write.AddsNone], by simp [Write.TakesNone]⟩
  refine ⟨TableName.relations.row cells, bears, ?_⟩
  rw [split]
  show ((PolicyTables.insert _ .relations _).writeAll (later ++ marks)).rows .relations = _
  rw [rows_writeAll_of_other]
  · simp only [insert, Function.update_self]
    congr 1
  · intro write member test
    rcases List.mem_append.mp member with late | marked
    · exact others write late test
    · have mark := clears write marked
      unfold clearMark at mark
      split_ifs at mark
      · cases mark
      · rw [List.mem_singleton.mp mark]
        exact ⟨trivial, by simp [Write.TakesNone]⟩

/-- A name that was registered has one record. -/
theorem register_record {facts : RegisterFacts} {form phys viewSql origin : Text} {marks : List Write}
    (clears : ∀ write ∈ marks, write ∈ clearMark vcat vname) :
    (store.writeAll (recordStatements facts vcat vname form phys viewSql origin ++ marks)).OneRecord vcat vname := by
  obtain ⟨row, _, records⟩ := @register_relations store vcat vname facts form phys viewSql origin marks clears
  rw [OneRecord, records, List.filter_append, List.filter_filter]
  have none : (store.rows .relations).filter (fun row => named vcat vname row && !named vcat vname row) = [] := by
    rw [List.filter_eq_nil_iff]
    simp
  rw [none, List.nil_append]
  exact List.length_filter_le _ _

theorem source_hits {source : RelationRowSource} (listed : source ∈ store.relationRowSources vcat vname) :
    source.hits = store.sourceHits vcat vname source.table := by
  simp only [relationRowSources, List.mem_cons, List.not_mem_nil, or_false] at listed
  rcases listed with rfl | rfl | rfl | rfl | rfl | rfl | rfl | rfl | rfl | rfl | rfl <;> rfl

/-- Dropping a name moves its rows only. -/
theorem drop_moves : store.MovesOnly (store.writeAll (store.dropRelationWrites vcat vname)) vcat vname := by
  have concern : ∀ write ∈ store.dropRelationWrites vcat vname, store.Concerns vcat vname write := by
    intro write member
    simp only [dropRelationWrites, List.mem_append, List.mem_map, List.mem_filter] at member
    rcases member with ⟨source, ⟨listed, _⟩, rfl⟩ | marked
    · apply concerns_delete
      intro row hit
      rwa [source_hits listed] at hit
    · split_ifs at marked
      · rw [List.mem_singleton.mp marked]
        refine (concerns_insert ?_).2
        simp [sourceHits, Row.is, TableName.row, TableName.columns]
      · cases marked
  have outside := filter_concerns concern
  intro table
  by_cases columns : table = .referenceColumns
  · subst columns
    -- the references are gone, so no column row is found through one any more
    have listed : ∀ {source : RelationRowSource}, source ∈ store.relationRowSources vcat vname → source.mark = false →
        source.grants = false → ∀ row ∈ (store.writeAll (store.dropRelationWrites vcat vname)).rows source.table,
          source.hits row = false := by
      intro source member unmarked ungranted
      apply dropRelation_clears member unmarked
      simp [ungranted]
    have references := @listed ⟨.references, endsAt vcat vname, false, false⟩ (by simp [relationRowSources]) rfl rfl
    have cleared := @listed ⟨.referenceColumns, store.ofReference (endsAt vcat vname) vcat, false, false⟩
      (by simp [relationRowSources]) rfl rfl
    have nothing : ∀ row, (store.writeAll (store.dropRelationWrites vcat vname)).sourceHits vcat vname .referenceColumns
        row = false := by
      intro row
      simp only [sourceHits, ofReference, Bool.and_eq_false_iff]
      right
      rw [List.any_eq_false]
      intro reference member
      have gone : endsAt vcat vname reference = false := references reference member
      simp [gone]
    have all : (store.writeAll (store.dropRelationWrites vcat vname)).bag .referenceColumns =
        ((store.writeAll (store.dropRelationWrites vcat vname)).bag .referenceColumns).filter
          (store.sourceHits vcat vname .referenceColumns · = false) := by
      symm
      rw [Multiset.filter_eq_self]
      exact fun row member => cleared row member
    simp only [nothing, Multiset.filter_true]
    rw [all]
    exact filter_bag (outside _)
  · have hits : (store.writeAll (store.dropRelationWrites vcat vname)).sourceHits vcat vname table =
        store.sourceHits vcat vname table := sourceHits_congr vcat vname fun same => absurd same columns
    rw [hits]
    exact filter_bag (outside table)

private theorem rows_update {table : TableName} {test : Row → Bool} {cells : List (Column × Value)} (other : TableName) :
    (store.update table test cells).rows other =
      if other = table then (store.rows other).map (fun row => if test row then setCells other cells row else row)
      else store.rows other := by
  by_cases same : other = table
  · subst same
    simp only [update, Function.update_self, ↓reduceIte]
  · simp only [update, Function.update_of_ne same, same, ↓reduceIte]

/-- The columns a rename sets in each of its tables. -/
private def renameCells (newVname newPhys : Text) : TableName → List (Column × Value)
  | .relations => (.vname, .text newVname) :: if newPhys = [] then [] else [(.phys, .text newPhys)]
  | _ => [(.vname, .text newVname)]

private theorem rows_renameRows {newVname newPhys : Text} (table : TableName) :
    (store.renameRows vcat vname newVname newPhys).rows table =
      if table ∈ TableName.relations :: renamedTables then (store.rows table).map (fun row =>
        if named vcat vname row then setCells table (renameCells newVname newPhys table) row else row)
      else store.rows table := by
  simp only [renameRows, renamedTables, List.foldl_cons, List.foldl_nil, rows_update]
  cases table
  all_goals rfl

/-- A row that moves bears the new name and is of the kind it was. -/
private theorem named_setCells {newVname newPhys : Text} {table : TableName}
    (listed : table ∈ TableName.relations :: renamedTables) {row : Row} (bears : named vcat vname row = true) :
    named vcat newVname (setCells table (renameCells newVname newPhys table) row) = true ∧
      setCells table (renameCells newVname newPhys table) row .kind = row .kind := by
  rw [named_iff] at bears
  rw [named_iff]
  simp only [renamedTables, List.mem_cons, List.not_mem_nil, or_false] at listed
  rcases listed with rfl | rfl | rfl | rfl
  · by_cases same : newPhys = [] <;> simp [setCells, TableName.columns, renameCells, same, bears.1]
  all_goals simp [setCells, TableName.columns, renameCells, bears.1]

/-- A name's rows in the tables a rename moves, those of another kind apart. -/
private theorem hits_of_named {table : TableName} (listed : table ∈ TableName.relations :: renamedTables) {row : Row}
    (bears : named vcat vname row = true) (kind : table = .objectColumns → row .kind = .text "relation".toList) :
    store.sourceHits vcat vname table row = true := by
  simp only [renamedTables, List.mem_cons, List.not_mem_nil, or_false] at listed
  rcases listed with rfl | rfl | rfl | rfl
  · exact bears
  · exact bears
  · exact namedKind_iff.mpr ⟨bears, kind rfl⟩
  · exact bears

/-- The rows of the name are all a relation's: none is a function's of the same name. -/
def OnlyRelationColumns (store : PolicyTables) (vcat vname : Text) : Prop :=
  ∀ row ∈ store.rows .objectColumns, named vcat vname row = true → row .kind = .text "relation".toList

/-- The write moved rows of the two names only, and no reference. -/
structure MovesBoth (before after : PolicyTables) (vcat vname newVname : Text) : Prop where
  outside : ∀ table, (after.bag table).filter (fun row =>
      before.sourceHits vcat vname table row = false ∧ before.sourceHits vcat newVname table row = false) =
    (before.bag table).filter (fun row =>
      before.sourceHits vcat vname table row = false ∧ before.sourceHits vcat newVname table row = false)
  references : after.bag .references = before.bag .references
  grants : ∀ table, sharesGrants table = true → after.bag table = before.bag table
  functions : after.bag .functions = before.bag .functions

private theorem rows_clearMark {moved : PolicyTables} {newVname : Text} {table : TableName}
    (other : table ≠ .schemaDropped) : (moved.writeAll (clearMark vcat newVname)).rows table = moved.rows table := by
  apply rows_writeAll_of_other
  intro write member test
  unfold clearMark at member
  split_ifs at member
  · cases member
  · rw [List.mem_singleton.mp member]
    exact ⟨trivial, fun same => absurd same.symm other⟩

/-- A rename leaves the tables it does not name. -/
theorem bag_renameRows {newVname newPhys : Text} {table : TableName}
    (unlisted : table ∉ TableName.relations :: renamedTables) (other : table ≠ .schemaDropped) :
    ((store.renameRows vcat vname newVname newPhys).writeAll (clearMark vcat newVname)).bag table = store.bag table := by
  rw [bag, rows_clearMark other, rows_renameRows, if_neg unlisted, bag]

/-- Renaming a record moves the rows of its two names only. -/
theorem rename_moves {newVname newPhys : Text} (plain : store.OnlyRelationColumns vcat vname) :
    store.MovesBoth ((store.renameRows vcat vname newVname newPhys).writeAll (clearMark vcat newVname)) vcat vname
      newVname := by
  refine ⟨?_, bag_renameRows (by decide) (by decide), ?_, bag_renameRows (by decide) (by decide)⟩
  · intro table
    rw [bag, bag, Multiset.filter_coe, Multiset.filter_coe, Multiset.coe_eq_coe]
    apply List.Perm.of_eq
    by_cases mark : table = .schemaDropped
    · subst mark
      have concern : ∀ write ∈ clearMark vcat newVname,
          (store.renameRows vcat vname newVname newPhys).Concerns vcat newVname write :=
        fun write member => concerns_clearMark member
      have cleared := filter_concerns concern .schemaDropped
      rw [rows_renameRows, if_neg (by decide)] at cleared
      have both := congrArg (List.filter fun row => !store.sourceHits vcat vname .schemaDropped row) cleared
      rw [List.filter_filter, List.filter_filter] at both
      simp only [Bool.decide_and, Bool.decide_eq_false]
      exact both
    · rw [rows_clearMark mark, rows_renameRows]
      split
      · next listed =>
        apply Bags.filter_map_moved
        intro row held bears
        have kind : table = .objectColumns → row .kind = .text "relation".toList := by
          rintro rfl
          exact plain row held bears
        obtain ⟨renamed, same⟩ := @named_setCells vcat vname newVname newPhys table listed row bears
        have was : store.sourceHits vcat vname table row = true := hits_of_named listed bears kind
        have is : store.sourceHits vcat newVname table
            (setCells table (renameCells newVname newPhys table) row) = true := by
          refine hits_of_named listed renamed fun columns => ?_
          rw [same]
          exact kind columns
        simp [was, is]
      · rfl
  · intro table shares
    apply bag_renameRows
    · revert shares
      cases table <;> decide
    · rintro rfl
      cases shares

/-- Two rows of one key are one row. -/
theorem oneRecord_of_keyed (keys : store.keyed .relations = true) : store.OneRecord vcat vname := by
  rw [keyed, decide_eq_true_eq] at keys
  have some : (((store.rows .relations).filter (named vcat vname)).map fun row =>
      (primaryKey .relations).map row).Nodup := keys.sublist (List.filter_sublist.map _)
  have same : ∀ key ∈ ((store.rows .relations).filter (named vcat vname)).map (fun row =>
      (primaryKey .relations).map row), key = [.text vcat, .text vname] := by
    intro key member
    obtain ⟨row, held, rfl⟩ := List.mem_map.mp member
    obtain ⟨cat, name⟩ := named_iff.mp (List.mem_filter.mp held).2
    simp only [primaryKey, List.map_cons, List.map_nil, cat, name]
  rw [List.eq_replicate_of_mem same, List.nodup_replicate, List.length_map] at some
  exact some

/-- The new name has the record after a rename. -/
theorem rename_has {newVname newPhys : Text} (held : store.has .relations (named vcat vname) = true) :
    ((store.renameRows vcat vname newVname newPhys).writeAll (clearMark vcat newVname)).has .relations
      (named vcat newVname) = true := by
  obtain ⟨row, member, bears⟩ := has_iff.mp held
  have renamed := (@named_setCells vcat vname newVname newPhys .relations (by decide) row bears).1
  refine has_iff.mpr ⟨_, ?_, renamed⟩
  rw [rows_clearMark (by decide), rows_renameRows, if_pos (by decide)]
  refine List.mem_map.mpr ⟨row, member, ?_⟩
  rw [if_pos bears]

theorem rename_oneRecord {newVname newPhys : Text}
    (keys : (TableName.relations :: renamedTables).all (store.renameRows vcat vname newVname newPhys).keyed = true) :
    ((store.renameRows vcat vname newVname newPhys).writeAll (clearMark vcat newVname)).OneRecord vcat newVname := by
  rw [OneRecord, rows_clearMark (by decide)]
  exact oneRecord_of_keyed (List.all_eq_true.mp keys .relations (by decide))

/-- Only the new name has the record after a rename. -/
theorem rename_record {newVname newPhys : Text}
    (held : ((store.renameRows vcat vname newVname newPhys).writeAll (clearMark vcat newVname)).has .relations
      (named vcat vname) = true) : vname = newVname := by
  obtain ⟨row, member, bears⟩ := has_iff.mp held
  rw [rows_clearMark (by decide), rows_renameRows, if_pos (by decide)] at member
  obtain ⟨old, _, rfl⟩ := List.mem_map.mp member
  split_ifs at bears with moves
  · have renamed := (@named_setCells vcat vname newVname newPhys .relations (by decide) old moves).1
    exact (named_unique bears renamed).2
  · exact absurd bears moves

end Moves

/-! ## Undoing one write -/

section Undo

variable {before after : PolicyTables} {now : RecordStore} {vcat vname : Text}

theorem record_isSome (store : PolicyTables) (vcat vname : Text) :
    (store.readRelationRows vcat vname).record.isSome = store.has .relations (named vcat vname) := by
  simp only [readRelationRows, Option.isSome_map]
  rw [Bool.eq_iff_iff, List.find?_isSome, has_iff]

/-- The record is the one the write left when nobody wrote the store. -/
theorem sameRecord_of_same {store : PolicyTables} (same : store.SameBags after) (one : after.OneRecord vcat vname)
    (has : after.has .relations (named vcat vname) = true) :
    sameRecord (store.readRelationRows vcat vname) (after.readRelationRows vcat vname) = true := by
  have found : (store.readRelationRows vcat vname).record = (after.readRelationRows vcat vname).record := by
    simp only [readRelationRows]
    rw [Bags.find?_of_perm (Multiset.coe_eq_coe.mp (same .relations)) one]
  rw [sameRecord, found, record_isSome, has]
  simp only [decide_true, Bool.and_true, Bool.true_and, List.all_eq_true, Bool.or_eq_true]
  intro table _
  exact .inr (sameRows_iff.mpr (same.nameBag_eq vcat vname table))

private theorem asLeft_of_same {store : PolicyTables} (same : store.SameBags after) (home : Text) (version : ℕ)
    (names : List Text) :
    asLeft store vcat ⟨home, version, names.map fun name =>
      (name, ⟨before.readRelationRows vcat name, after.readRelationRows vcat name⟩)⟩ = true := by
  simp only [asLeft, List.all_map, List.all_eq_true, Function.comp_apply]
  intro name _ table _
  exact sameRows_iff.mpr (same.nameBag_eq vcat name table)

private theorem changedAny_eq_false {home : Text} {version : ℕ} {names : List Text}
    (nothing : changedAny ⟨home, version, names.map fun name =>
      (name, ⟨before.readRelationRows vcat name, after.readRelationRows vcat name⟩)⟩ = false) {name : Text}
    (listed : name ∈ names) (table : TableName) :
    after.nameBag vcat name table = before.nameBag vcat name table := by
  by_cases member : table ∈ sourceTables
  · simp only [changedAny, List.any_map, List.any_eq_false, Function.comp_apply, Bool.not_eq_true] at nothing
    exact (changed_eq_false_iff.mp (nothing name listed table member)).symm
  · rw [nameBag_of_not_mem member, nameBag_of_not_mem member]

/-- What the undo of the write takes for good: rows of the name, in a table the write left as it was, that
no function of the same name shares. -/
def LosesNothing (before after : PolicyTables) (vcat vname : Text) : Prop :=
  ∀ table ∈ sourceTables, before.keptForFunction vcat vname table = false →
    before.nameBag vcat vname table = after.nameBag vcat vname table → before.nameBag vcat vname table = 0

private theorem keptForFunction_eq {first second : PolicyTables} (functions : first.bag .functions = second.bag .functions)
    (vcat vname : Text) (table : TableName) :
    first.keptForFunction vcat vname table = second.keptForFunction vcat vname table := by
  rw [keptForFunction, keptForFunction, has_congr functions]

private theorem nameBag_grants {first second : PolicyTables} {table : TableName} (shares : sharesGrants table = true)
    (same : first.bag table = second.bag table) (vcat vname : Text) :
    first.nameBag vcat vname table = second.nameBag vcat vname table := by
  have hits : first.sourceHits vcat vname table = second.sourceHits vcat vname table := by
    apply sourceHits_congr
    rintro rfl
    cases shares
  rw [nameBag, nameBag, same, hits]

/-- Taking a name whose other rows were none leaves its rows as the write found them. -/
private theorem bag_takeName_of_lossless {store : PolicyTables} (same : store.SameBags after)
    (functions : after.bag .functions = before.bag .functions)
    (grants : ∀ table, sharesGrants table = true → after.bag table = before.bag table)
    (lossless : before.LosesNothing after vcat vname) (table : TableName) :
    (store.takeName vcat vname ⟨before.readRelationRows vcat vname, after.readRelationRows vcat vname⟩).bag table =
      nameReplaced store before vcat vname table := by
  have functionsNow : store.bag .functions = before.bag .functions := (same .functions).trans functions
  apply bag_takeName
  · intro other _ kept
    rw [keptForFunction, Bool.and_eq_true] at kept
    exact nameBag_grants kept.1 ((same other).trans (grants other kept.1)) vcat vname
  · intro other member free
    apply lossless other member
    rw [← keptForFunction_eq functionsNow]
    exact free

private theorem nameReplaced_eq {store : PolicyTables} (same : store.SameBags after) (moves : before.MovesOnly after vcat vname)
    (table : TableName) : nameReplaced store before vcat vname table = before.bag table := by
  rw [nameReplaced, same table, same.sourceHits_eq]
  exact Bags.replaced_eq (moves table)

/-- The undo of a write of one name. -/
theorem undo_one {home : Text} {version : ℕ} {own : List ℕ} {takesCreated : Bool} (same : now.tables.SameBags after)
    (moves : before.MovesOnly after vcat vname)
    (only : onlyOwnSince now ⟨home, version, [(vname,
      ⟨before.readRelationRows vcat vname, after.readRelationRows vcat vname⟩)]⟩ own = true)
    (created : before.has .relations (named vcat vname) = false → after.has .relations (named vcat vname) = true →
      after.OneRecord vcat vname ∧ after.bag .functions = before.bag .functions ∧
      (∀ table, sharesGrants table = true → after.bag table = before.bag table) ∧
      before.LosesNothing after vcat vname) :
    ∃ back, undoTables now vcat ⟨home, version, [(vname,
      ⟨before.readRelationRows vcat vname, after.readRelationRows vcat vname⟩)]⟩ own takesCreated = .ok back ∧
      back.SameBags before := by
  simp only [undoTables, Option.isNone_iff_eq_none, ← Option.not_isSome_iff_eq_none, record_isSome, only]
  split_ifs with creates still dropped left
  · obtain ⟨one, functions, grants, lossless⟩ := created (by simpa using creates.1) creates.2
    refine ⟨_, rfl, fun table => ?_⟩
    rw [bag_takeName_of_lossless same functions grants lossless, nameReplaced_eq same moves]
  · obtain ⟨one, _⟩ := created (by simpa using creates.1) creates.2
    exact absurd (sameRecord_of_same same one creates.2) still
  · cases dropped.2.2
  · refine ⟨_, rfl, fun table => ?_⟩
    rw [bag_putBack, nameReplaced_eq same moves]
    intro other unchanged
    rw [same.nameBag_eq, unchanged]
  · exact absurd (asLeft_of_same same home version [vname]) left

private theorem sourceHits_moved {store : PolicyTables} (same : store.SameBags after)
    (references : after.bag .references = before.bag .references) (vcat vname : Text) (table : TableName) :
    store.sourceHits vcat vname table = before.sourceHits vcat vname table :=
  sourceHits_congr vcat vname fun _ => (same .references).trans references

private theorem nameReplaced_moved {store : PolicyTables} (same : store.SameBags after)
    (references : after.bag .references = before.bag .references) (vcat vname : Text) (table : TableName) :
    nameReplaced store before vcat vname table = Bags.replaced (after.bag table) (before.bag table)
      (before.sourceHits vcat vname table) (before.sourceHits vcat vname table) := by
  rw [nameReplaced, same table, sourceHits_moved same references]

/-- A rename's two names come back one after the other. -/
private theorem back_twice {store first : PolicyTables} {one two : Text} (same : store.SameBags after)
    (references : after.bag .references = before.bag .references)
    (outside : ∀ table, (after.bag table).filter (fun row =>
        before.sourceHits vcat one table row = false ∧ before.sourceHits vcat two table row = false) =
      (before.bag table).filter (fun row =>
        before.sourceHits vcat one table row = false ∧ before.sourceHits vcat two table row = false))
    (back : ∀ table, first.bag table = nameReplaced store before vcat one table) :
    (first.putBack vcat two ⟨before.readRelationRows vcat two, after.readRelationRows vcat two⟩).SameBags before := by
  have replaced : ∀ table, first.bag table = Bags.replaced (after.bag table) (before.bag table)
      (before.sourceHits vcat one table) (before.sourceHits vcat one table) := by
    intro table
    rw [back, nameReplaced_moved same references]
  have kept : first.bag .references = before.bag .references := by
    rw [replaced]
    apply Bags.replaced_eq
    rw [references]
  have hits : ∀ table, first.sourceHits vcat two table = before.sourceHits vcat two table :=
    fun table => sourceHits_congr vcat two fun _ => kept
  intro table
  rw [bag_putBack]
  · rw [nameReplaced, hits, replaced]
    exact Bags.replaced_twice (outside table)
  · intro other unchanged
    rw [nameBag, hits, replaced]
    apply Bags.filter_replaced
    have left : after.sourceHits vcat two other = before.sourceHits vcat two other :=
      sourceHits_congr vcat two fun _ => references
    rw [nameBag, nameBag, left] at unchanged
    exact unchanged.symm

/-- The undo of a rename that moved a record. -/
theorem undo_both {home newVname : Text} {version : ℕ} {own : List ℕ} {takesCreated : Bool}
    (same : now.tables.SameBags after) (moves : before.MovesBoth after vcat vname newVname)
    (one : after.OneRecord vcat newVname) (has : after.has .relations (named vcat newVname) = true)
    (old : after.has .relations (named vcat vname) = true → vname = newVname)
    (created : takesCreated = true → before.LosesNothing after vcat newVname) :
    ∃ back, undoTables now vcat ⟨home, version,
      [(vname, ⟨before.readRelationRows vcat vname, after.readRelationRows vcat vname⟩),
       (newVname, ⟨before.readRelationRows vcat newVname, after.readRelationRows vcat newVname⟩)]⟩ own takesCreated =
        .ok back ∧ back.SameBags before := by
  have swapped : ∀ table, (after.bag table).filter (fun row => before.sourceHits vcat newVname table row = false ∧
        before.sourceHits vcat vname table row = false) =
      (before.bag table).filter (fun row => before.sourceHits vcat newVname table row = false ∧
        before.sourceHits vcat vname table row = false) := by
    intro table
    simpa only [and_comm] using moves.outside table
  simp only [undoTables]
  split_ifs with takes still free left
  · refine ⟨_, rfl, ?_⟩
    exact back_twice same moves.references swapped
      (bag_takeName_of_lossless same moves.functions moves.grants (created takes))
  · have taken : now.tables.has .relations (named vcat vname) = true := by
      rw [← record_isSome, ← Option.not_isNone, Bool.not_eq_true']
      exact Bool.not_eq_true _ ▸ free
    obtain rfl := old ((has_congr (same .relations) _).symm.trans taken)
    refine ⟨_, rfl, fun table => ?_⟩
    rw [bag_takeName_of_lossless same moves.functions moves.grants (created takes),
      nameReplaced_moved same moves.references]
    apply Bags.replaced_eq
    simpa only [and_self] using moves.outside table
  · exact absurd (sameRecord_of_same same one has) still
  · refine ⟨_, rfl, ?_⟩
    refine back_twice same moves.references moves.outside fun table => ?_
    apply bag_putBack
    intro other unchanged
    rw [same.nameBag_eq, unchanged]
  · exact absurd (asLeft_of_same same home version [vname, newVname]) left

/-- The undo answers that it undid, and the names' rows are as the write found them. -/
def Undoes (now : RecordStore) (before : PolicyTables) (vcat : Text) (write : RecordWrite) (own : List ℕ)
    (takesCreated : Bool) : Prop :=
  ∃ back more, catalogUndoRecordWrite now vcat write own takesCreated = (.undone, back, more) ∧
    back.home = now.home ∧ back.tables.SameBags before ∧
    ((back.version = now.version ∧ more = own) ∨
      (back.version = now.version + 1 ∧ more = own ++ [now.version + 1]))

private theorem undoes_of {write : RecordWrite} {own : List ℕ} {takesCreated : Bool} (home : now.home = write.store)
    (nothing : changedAny write = false → now.tables.SameBags before)
    (undone : ∃ back, undoTables now vcat write own takesCreated = .ok back ∧ back.SameBags before) :
    Undoes now before vcat write own takesCreated := by
  obtain ⟨back, ran, same⟩ := undone
  unfold Undoes catalogUndoRecordWrite
  rw [if_neg (not_not.mpr home), ran]
  cases any : changedAny write with
  | false => exact ⟨now, own, rfl, rfl, nothing any, .inl ⟨rfl, rfl⟩⟩
  | true => exact ⟨_, _, rfl, rfl, same, .inr ⟨rfl, rfl⟩⟩

end Undo

/-! ## Undoing a transaction -/

/-- The undo of the write takes nothing for good. A register that creates its record, or a rename of a
record the transaction created, must find no row of the name in a table it leaves as it is; a rename must
find no columns of another kind under the old name. -/
def Restores (store : PolicyTables) (takesCreated : Bool) (call : RecordCall) : Prop :=
  ∀ after, call.apply store = .ok after →
    match call with
    | .registerView vcat vname _ _ | .registerCreated vcat vname _ _ _ =>
      store.has .relations (named vcat vname) = false → store.LosesNothing after vcat vname
    | .renameRelation vcat vname newVname _ => store.has .relations (named vcat vname) = true →
      store.OnlyRelationColumns vcat vname ∧ (takesCreated = true → store.LosesNothing after vcat newVname)
    | .dropRelation _ _ => True

section Transaction

variable {store next now : RecordStore} {write : RecordWrite} {own : List ℕ} {takesCreated : Bool}

private theorem undoes_one {before after : PolicyTables} {vcat vname : Text} {home : Text} {version : ℕ}
    (homes : now.home = home) (same : now.tables.SameBags after) (moves : before.MovesOnly after vcat vname)
    (only : onlyOwnSince now ⟨home, version, [(vname,
      ⟨before.readRelationRows vcat vname, after.readRelationRows vcat vname⟩)]⟩ own = true)
    (created : before.has .relations (named vcat vname) = false → after.has .relations (named vcat vname) = true →
      after.OneRecord vcat vname ∧ after.bag .functions = before.bag .functions ∧
      (∀ table, sharesGrants table = true → after.bag table = before.bag table) ∧
      before.LosesNothing after vcat vname) :
    Undoes now before vcat ⟨home, version, [(vname,
      ⟨before.readRelationRows vcat vname, after.readRelationRows vcat vname⟩)]⟩ own takesCreated := by
  refine undoes_of homes ?_ (undo_one same moves only created)
  intro nothing table
  have kept := @changedAny_eq_false before after vcat home version [vname] nothing vname List.mem_cons_self table
  rw [← nameReplaced_eq same moves, nameReplaced]
  refine (Bags.replaced_of_same ?_).symm
  show now.tables.nameBag vcat vname table = before.nameBag vcat vname table
  rw [same.nameBag_eq, kept]

private theorem undoes_both {before after : PolicyTables} {vcat vname newVname : Text} {home : Text} {version : ℕ}
    (homes : now.home = home) (same : now.tables.SameBags after) (moves : before.MovesBoth after vcat vname newVname)
    (one : after.OneRecord vcat newVname) (has : after.has .relations (named vcat newVname) = true)
    (old : after.has .relations (named vcat vname) = true → vname = newVname)
    (created : takesCreated = true → before.LosesNothing after vcat newVname) :
    Undoes now before vcat ⟨home, version,
      [(vname, ⟨before.readRelationRows vcat vname, after.readRelationRows vcat vname⟩),
       (newVname, ⟨before.readRelationRows vcat newVname, after.readRelationRows vcat newVname⟩)]⟩ own takesCreated := by
  refine undoes_of homes ?_ (undo_both same moves one has old created)
  intro nothing table
  have kept : ∀ name ∈ [vname, newVname], after.nameBag vcat name table = before.nameBag vcat name table :=
    fun name listed => @changedAny_eq_false before after vcat home version [vname, newVname] nothing name listed table
  have hits : ∀ name, after.sourceHits vcat name table = before.sourceHits vcat name table :=
    fun name => sourceHits_congr vcat name fun _ => moves.references
  simp only [nameBag, hits] at kept
  rw [same table]
  exact Bags.eq_of_same (moves.outside table) (kept vname (by simp)) (kept newVname (by simp))

private theorem clearMark_clears {vcat vname : Text} : ∀ write ∈ clearMark vcat vname, write ∈ clearMark vcat vname :=
  fun _ member => member

private theorem register_undoes {facts : RegisterFacts} {vcat vname form phys viewSql origin : Text} {marks : List Write}
    {before : PolicyTables} {home : Text} {version : ℕ} (homes : now.home = home)
    (clears : ∀ write ∈ marks, write ∈ clearMark vcat vname)
    (same : now.tables.SameBags (before.writeAll (recordStatements facts vcat vname form phys viewSql origin ++ marks)))
    (only : onlyOwnSince now ⟨home, version, [(vname, ⟨before.readRelationRows vcat vname,
      (before.writeAll (recordStatements facts vcat vname form phys viewSql origin ++ marks)).readRelationRows vcat
        vname⟩)]⟩ own = true)
    (lossless : before.has .relations (named vcat vname) = false →
      before.LosesNothing (before.writeAll (recordStatements facts vcat vname form phys viewSql origin ++ marks)) vcat
        vname) :
    Undoes now before vcat ⟨home, version, [(vname, ⟨before.readRelationRows vcat vname,
      (before.writeAll (recordStatements facts vcat vname form phys viewSql origin ++ marks)).readRelationRows vcat
        vname⟩)]⟩ own takesCreated := by
  apply undoes_one homes same (register_moves clears) only
  intro absent _
  refine ⟨register_record clears, ?_, ?_, lossless absent⟩
  · rw [bag, register_table clears (by decide), bag]
  · intro table shares
    rw [bag, register_table clears, bag]
    revert shares
    cases table <;> decide

/-- A write nobody wrote over is taken back whole. -/
theorem undo_write {call : RecordCall} (wrote : store.write call = .ok (next, write))
    (restores : store.tables.Restores takesCreated call) (home : now.home = store.home)
    (same : now.tables.SameBags next.tables) (only : onlyOwnSince now write own = true) :
    Undoes now store.tables call.vcat write own takesCreated := by
  unfold RecordStore.write at wrote
  cases ran : call.apply store.tables with
  | error failed =>
    rw [ran] at wrote
    cases wrote
  | ok after =>
    rw [ran] at wrote
    obtain ⟨rfl, rfl⟩ := Prod.mk.inj (Except.ok.inj wrote)
    have kept := restores after ran
    cases call with
    | registerView vcat vname body facts =>
      obtain rfl := Except.ok.inj ran
      rw [← List.append_nil (recordStatements _ _ _ _ _ _ _)] at same only kept ⊢
      exact register_undoes home (by simp) same only kept
    | registerCreated vcat vname phys origin facts =>
      obtain rfl := Except.ok.inj ran
      exact register_undoes home clearMark_clears same only kept
    | dropRelation vcat vname =>
      obtain ⟨held, rfl⟩ : store.tables.has .relations (named vcat vname) = true ∧
          after = store.tables.writeAll (store.tables.dropRelationWrites vcat vname) := by
        simp only [RecordCall.apply, catalogDropRelation] at ran
        split_ifs at ran with held
        exact ⟨held, (Except.ok.inj ran).symm⟩
      refine undoes_one home same drop_moves only ?_
      intro absent
      cases held.symm.trans absent
    | renameRelation vcat vname newVname newPhys =>
      simp only [RecordCall.apply, renamed] at ran
      split_ifs at ran with held keys
      · obtain rfl := Except.ok.inj ran
        obtain ⟨plain, created⟩ := kept held
        exact undoes_both home same (rename_moves plain) (rename_oneRecord keys) (rename_has held) rename_record created
      · -- an object without a record: nothing changed, and nothing is written
        obtain rfl := Except.ok.inj ran
        have nothing : changedAny ⟨store.home, store.version + 1, [vname, newVname].map fun name => (name,
            ⟨store.tables.readRelationRows vcat name, store.tables.readRelationRows vcat name⟩)⟩ = false := by
          simp only [changedAny, List.any_map, List.any_eq_false, Function.comp_apply, Bool.not_eq_true]
          exact fun name _ table _ => changed_eq_false_iff.mpr rfl
        unfold Undoes catalogUndoRecordWrite
        rw [if_neg (not_not.mpr home)]
        exact ⟨now, own, if_pos nothing, rfl, same, .inl ⟨rfl, rfl⟩⟩

/-- The versions of a run are consecutive. -/
private theorem onlyOwnSince_range {start count : ℕ} (version : now.version = start + count)
    (since : start ≤ write.version) (until' : write.version ≤ now.version) :
    onlyOwnSince now write (List.range' (start + 1) count) = true := by
  have counted : ∀ bound many, start + many ≤ bound →
      (List.range' (start + 1) many).countP (fun mine => decide (write.version < mine) && decide (mine ≤ bound)) =
        start + many - write.version := by
    intro bound many
    induction many with
    | zero =>
      intro _
      simp only [List.range'_zero, List.countP_nil]
      omega
    | succ many ih =>
      intro fits
      rw [List.range'_concat, List.countP_append, ih (by omega)]
      by_cases later : write.version < start + 1 + many
      · have inside : start + 1 + many ≤ bound := by omega
        simp only [Nat.one_mul, List.countP_singleton, later, inside, decide_true, Bool.and_self, ↓reduceIte]
        omega
      · simp only [Nat.one_mul, List.countP_singleton, later, decide_false, Bool.false_and, Bool.false_eq_true, ↓reduceIte]
        omega
  rw [onlyOwnSince, decide_eq_true_eq, version, counted _ _ (le_refl _)]
  omega

private theorem write_version {call : RecordCall} (wrote : store.write call = .ok (next, write)) :
    next.home = store.home ∧ next.version = store.version + 1 ∧ write.version = store.version + 1 := by
  unfold RecordStore.write at wrote
  cases ran : call.apply store.tables with
  | error failed =>
    rw [ran] at wrote
    cases wrote
  | ok after =>
    rw [ran] at wrote
    obtain ⟨rfl, rfl⟩ := Prod.mk.inj (Except.ok.inj wrote)
    exact ⟨rfl, rfl, rfl⟩

private theorem writeSteps_cons {call : RecordCall} {rest : List (RecordCall × Bool)}
    (wrote : store.write call = .ok (next, write)) :
    store.writeSteps ((call, takesCreated) :: rest) =
      ((next.writeSteps rest).1, ⟨call.vcat, write, takesCreated⟩ :: (next.writeSteps rest).2) := by
  simp only [RecordStore.writeSteps, wrote]

private theorem writeSteps_failed {call : RecordCall} {rest : List (RecordCall × Bool)} {failed : Text}
    (wrote : store.write call = .error failed) :
    store.writeSteps ((call, takesCreated) :: rest) = store.writeSteps rest := by
  simp only [RecordStore.writeSteps, wrote]

/-- A transaction's writes commit the versions that follow. -/
theorem writeSteps_versions (calls : List (RecordCall × Bool)) (store : RecordStore) :
    (store.writeSteps calls).1.home = store.home ∧
      (store.writeSteps calls).1.version = store.version + (store.writeSteps calls).2.length ∧
      ownVersions (store.writeSteps calls).2 = List.range' (store.version + 1) (store.writeSteps calls).2.length := by
  induction calls generalizing store with
  | nil => exact ⟨rfl, rfl, rfl⟩
  | cons first rest ih =>
    obtain ⟨call, takesCreated⟩ := first
    cases wrote : store.write call with
    | error failed =>
      rw [writeSteps_failed wrote]
      exact ih store
    | ok written =>
      obtain ⟨next, write⟩ := written
      obtain ⟨sameHome, moved, committed⟩ := write_version wrote
      obtain ⟨home, version, versions⟩ := ih next
      rw [writeSteps_cons wrote]
      refine ⟨home.trans sameHome, ?_, ?_⟩
      · rw [List.length_cons, version, moved]
        omega
      · rw [ownVersions] at versions
        rw [ownVersions, List.map_cons, List.length_cons, List.range'_succ, versions, committed, moved]

/-- Every write of the transaction, where it happens, is one whose undo takes nothing for good. -/
def RestoresAlong : RecordStore → List (RecordCall × Bool) → Prop
  | _, [] => True
  | store, (call, takesCreated) :: rest => store.tables.Restores takesCreated call ∧
    match store.write call with
    | .error _ => RestoresAlong store rest
    | .ok (next, _) => RestoresAlong next rest

private theorem undoSteps_append (first second : List RecordStep) (store : RecordStore) (own : List ℕ) :
    undoSteps (first ++ second) store own =
      ((undoSteps first store own).1 ++
          (undoSteps second (undoSteps first store own).2.1 (undoSteps first store own).2.2).1,
        (undoSteps second (undoSteps first store own).2.1 (undoSteps first store own).2.2).2) := by
  induction first generalizing store own with
  | nil => rfl
  | cons step rest ih => simp only [List.cons_append, undoSteps, ih]

/-- The state of a rollback: the rows are those of a store of the run, and the versions since the
transaction began are its own. -/
structure RolledBackTo (now : RecordStore) (own : List ℕ) (start : ℕ) (store : RecordStore) : Prop where
  home : now.home = store.home
  tables : now.tables.SameBags store.tables
  versions : ∃ count, now.version = start + count ∧ own = List.range' (start + 1) count
  since : store.version ≤ now.version

private theorem rolledBack_undo {call : RecordCall} {start : ℕ} (wrote : store.write call = .ok (next, write))
    (restores : store.tables.Restores takesCreated call) (began : start ≤ store.version)
    (there : RolledBackTo now own start next) :
    (catalogUndoRecordWrite now call.vcat write own takesCreated).1 = .undone ∧
      RolledBackTo (catalogUndoRecordWrite now call.vcat write own takesCreated).2.1
        (catalogUndoRecordWrite now call.vcat write own takesCreated).2.2 start store := by
  obtain ⟨sameHome, moved, committed⟩ := write_version wrote
  obtain ⟨home, tables, ⟨count, version, rfl⟩, since⟩ := there
  have only : onlyOwnSince now write (List.range' (start + 1) count) = true := by
    apply onlyOwnSince_range version
    · omega
    · omega
  obtain ⟨back, more, ran, backHome, same, versions⟩ := undo_write wrote restores (home.trans sameHome) tables only
  rw [ran]
  refine ⟨rfl, backHome.trans (home.trans sameHome), same, ?_, ?_⟩
  · rcases versions with ⟨unmoved, rfl⟩ | ⟨moved, rfl⟩
    · exact ⟨count, unmoved.trans version, rfl⟩
    · refine ⟨count + 1, ?_, ?_⟩
      · show back.version = _
        omega
      · show List.range' (start + 1) count ++ [now.version + 1] = _
        rw [List.range'_concat, version]
        congr 2
        omega
  · show store.version ≤ back.version
    rcases versions with ⟨unmoved, _⟩ | ⟨moved, _⟩ <;> omega

/-- The undos of a run, newest first, lead back to its first store. -/
theorem rolledBack_run (calls : List (RecordCall × Bool)) {start : ℕ} (began : start ≤ store.version)
    (restores : RestoresAlong store calls) (there : RolledBackTo now own start (store.writeSteps calls).1) :
    (∀ outcome ∈ (undoSteps (store.writeSteps calls).2.reverse now own).1, outcome = .undone) ∧
      RolledBackTo (undoSteps (store.writeSteps calls).2.reverse now own).2.1
        (undoSteps (store.writeSteps calls).2.reverse now own).2.2 start store := by
  induction calls generalizing store with
  | nil => exact ⟨by simp [RecordStore.writeSteps, undoSteps], there⟩
  | cons first rest ih =>
    obtain ⟨call, takesCreated⟩ := first
    obtain ⟨here, later⟩ := restores
    cases wrote : store.write call with
    | error failed =>
      rw [writeSteps_failed wrote] at there ⊢
      rw [wrote] at later
      exact ih began later there
    | ok written =>
      obtain ⟨next, write⟩ := written
      rw [wrote] at later
      rw [writeSteps_cons wrote] at there ⊢
      obtain ⟨_, moved, _⟩ := write_version wrote
      obtain ⟨undone, back⟩ := ih (by omega) later there
      obtain ⟨last, first⟩ := rolledBack_undo wrote here began back
      rw [List.reverse_cons, undoSteps_append]
      refine ⟨?_, first⟩
      intro outcome member
      rcases List.mem_append.mp member with earlier | only
      · exact undone outcome earlier
      · simp only [undoSteps, List.mem_singleton] at only
        rw [only]
        exact last

/-- A rollback that nobody wrote into takes every record write back: each undo answers that it undid, and
every table has the rows it had. -/
theorem rollback_restores (store : RecordStore) (calls : List (RecordCall × Bool)) (restores : RestoresAlong store calls) :
    let (last, steps) := store.writeSteps calls
    let (outcomes, back, _) := undoSteps steps.reverse last (ownVersions steps)
    (∀ outcome ∈ outcomes, outcome = .undone) ∧
      ∀ table, (back.tables.rows table).Perm (store.tables.rows table) := by
  obtain ⟨home, version, versions⟩ := writeSteps_versions calls store
  have there : RolledBackTo (store.writeSteps calls).1 (ownVersions (store.writeSteps calls).2) store.version
      (store.writeSteps calls).1 := by
    refine ⟨rfl, fun _ => rfl, ⟨_, version, versions⟩, le_refl _⟩
  obtain ⟨undone, back⟩ := rolledBack_run calls (le_refl _) restores there
  exact ⟨undone, fun table => Multiset.coe_eq_coe.mp (back.tables table)⟩

/-- A name without rows has none to lose. -/
theorem losesNothing_of_none {before : PolicyTables} {vcat vname : Text}
    (none : (sourceTables.all fun table => !before.has table (before.sourceHits vcat vname table)) = true)
    (after : PolicyTables) : before.LosesNothing after vcat vname := by
  intro table member _ _
  rw [List.all_eq_true] at none
  have empty := none table member
  rw [Bool.not_eq_true', has_eq_false] at empty
  rw [nameBag, Multiset.filter_eq_nil]
  intro row held
  rw [empty row held]
  decide

/-- One table with a grant on it, as an expansion recorded it. -/
def salesStore : RecordStore where
  home := "acl.relations".toList
  tables := .of
    [(.relations, [(.vcat, .text "v".toList), (.vname, .text "s.t".toList), (.form, .text "alias".toList),
        (.phys, .text "p.t".toList), (.viewSql, .text []), (.rls, .text []), (.origin, .text "p".toList)]),
     (.roleObjectCaps, [(.role, .text "r".toList), (.vcat, .text "v".toList), (.vname, .text "s.t".toList),
        (.caps, .text "select".toList)])]
  version := 4

/-- The table is dropped and another made. -/
def swapTable : List (RecordCall × Bool) :=
  [(.dropRelation "v".toList "s.t".toList, false),
   (.registerCreated "v".toList "s.u".toList "p.u".toList "p".toList ⟨[], [], .null, .null⟩, false)]

theorem rollback_restores_sales : RestoresAlong salesStore swapTable ∧
    let (last, steps) := salesStore.writeSteps swapTable
    let (outcomes, back, _) := undoSteps steps.reverse last (ownVersions steps)
    (∀ outcome ∈ outcomes, outcome = .undone) ∧
      ∀ table, (back.tables.rows table).Perm (salesStore.tables.rows table) := by
  have along : RestoresAlong salesStore swapTable := by
    refine ⟨fun _ _ => trivial, ?_⟩
    have wrote : ∃ next write, salesStore.write (.dropRelation "v".toList "s.t".toList) = .ok (next, write) ∧
        (sourceTables.all fun table =>
          !next.tables.has table (next.tables.sourceHits "v".toList "s.u".toList table)) = true := by
      refine ⟨_, _, rfl, ?_⟩
      decide
    obtain ⟨next, write, wrote, none⟩ := wrote
    simp only [wrote]
    refine ⟨fun after _ _ => losesNothing_of_none none after, ?_⟩
    split <;> trivial
  exact ⟨along, rollback_restores salesStore swapTable along⟩

/-- A grant on a name that has no record yet. -/
def awaitedStore : RecordStore where
  home := "acl.relations".toList
  tables := .of [(.roleObjectCaps, [(.role, .text "r".toList), (.vcat, .text "v".toList), (.vname, .text "s.t".toList),
    (.caps, .text "select".toList)])]
  version := 4

/-- The undo of a create takes the grant that waited for the name. -/
theorem rollback_takes_awaiting_grant :
    let (last, steps) := awaitedStore.writeSteps
      [(.registerCreated "v".toList "s.t".toList "p.t".toList "p".toList ⟨[], [], .null, .null⟩, false)]
    let (outcomes, back, _) := undoSteps steps.reverse last (ownVersions steps)
    outcomes = [.undone] ∧
      ¬ ∀ table, (back.tables.rows table).Perm (awaitedStore.tables.rows table) := by
  refine ⟨by decide, ?_⟩
  intro same
  have lengths := (same .roleObjectCaps).length_eq
  revert lengths
  decide

end Transaction

end PolicyTables

end DuckAcl
