import DuckAcl.Soundness.RecordUndo

/-! # Undoing among other writers

Between a record write and its undo the store may have become any other. The undo then refuses and
leaves the store, or takes rows of its names under one of three judgements: the record the write made is
still the one the image shows; every name's rows are what the write left; or a rename of a record the
transaction created goes back to a name that has no record. What it puts back are rows that tables the
write changed had before. A dropped record comes back only into a store that nobody else wrote since.
-/

namespace DuckAcl

namespace PolicyTables

/-- The undo takes the name wherever its record is: the write made the record, or moved one the
transaction had made. -/
def TakesName (before after : PolicyTables) (takesCreated : Bool) (call : RecordCall) (name : Text) : Prop :=
  match call with
  | .renameRelation _ _ newVname _ => takesCreated = true ∧ name = newVname
  | _ => before.has .relations (named call.vcat name) = false ∧ after.has .relations (named call.vcat name) = true

/-- The write changed the name's rows of the table. -/
def Changes (before after : PolicyTables) (vcat name : Text) (table : TableName) : Prop :=
  before.nameBag vcat name table ≠ after.nameBag vcat name table

/-- What an undo may take a row of a table for. -/
inductive MayTake (before after now : PolicyTables) (call : RecordCall) (takesCreated : Bool) (table : TableName)
    (row : Row) : Prop where
  /-- The name has a record the write made, or moved, and it is still that one. -/
  | record (name : Text) (listed : name ∈ call.names) (hits : now.sourceHits call.vcat name table row = true)
      (takes : TakesName before after takesCreated call name)
      (same : sameRecord (now.readRelationRows call.vcat name) (after.readRelationRows call.vcat name) = true)
  /-- The write changed the table, and every row of its names is as it left it. -/
  | left (name : Text) (listed : name ∈ call.names) (hits : now.sourceHits call.vcat name table row = true)
      (changes : Changes before after call.vcat name table)
      (same : ∀ other ∈ call.names, ∀ table ∈ sourceTables,
        now.nameBag call.vcat other table = after.nameBag call.vcat other table)
  /-- A rename goes back to its old name, which has no record. -/
  | free (name newName newPhys : Text) (renames : call = .renameRelation call.vcat name newName newPhys)
      (created : takesCreated = true) (hits : now.sourceHits call.vcat name table row = true)
      (changes : Changes before after call.vcat name table)
      (none : now.has .relations (named call.vcat name) = false)

/-- The row was there before the write, in a table the write changed. -/
def MayPut (before after : PolicyTables) (call : RecordCall) (table : TableName) (row : Row) : Prop :=
  ∃ name ∈ call.names, row ∈ before.nameBag call.vcat name table ∧ Changes before after call.vcat name table

section Exchanges

variable {before after now mid : PolicyTables} {vcat vname : Text} {takes puts : Row → Prop} {table : TableName}

private theorem bag_filter_append {hits : Row → Bool} (rows : List Row) :
    (((mid.rows table).filter (fun row => !hits row) ++ rows : List Row) : Multiset Row) =
      (mid.bag table).filter (hits · = false) + (rows : Multiset Row) := by
  rw [← Multiset.coe_add, bag, Multiset.filter_coe]
  simp only [Bool.decide_eq_false]

private theorem mem_before (row : Row)
    (member : row ∈ ((before.readRelationRows vcat vname).rows table).map
      (fun values => table.row (table.columns.zip values))) : row ∈ before.nameBag vcat vname table := by
  rw [rows_readRelationRows] at member
  rw [nameBag_eq]
  exact member

/-- Putting a name back exchanges rows of the name in the tables the write changed. -/
private theorem exchange_putBack (done : Bags.Exchange (now.bag table) (mid.bag table) takes puts)
    (may : Changes before after vcat vname table → ∀ row ∈ now.bag table,
      mid.sourceHits vcat vname table row = true → takes row)
    (come : Changes before after vcat vname table → ∀ row ∈ before.nameBag vcat vname table, puts row) :
    Bags.Exchange (now.bag table)
      ((mid.putBack vcat vname ⟨before.readRelationRows vcat vname, after.readRelationRows vcat vname⟩).bag table)
      takes puts := by
  show Bags.Exchange (now.bag table) ((mid.putBack _ _ _).rows table : List Row) takes puts
  rw [rows_putBack]
  split
  · next picked =>
    have changes : Changes before after vcat vname table := by
      intro same
      rw [changed_eq_false_iff.mpr same] at picked
      cases picked.2
    rw [bag_filter_append]
    exact done.replace (may changes) fun row member => come changes row (mem_before row member)
  · exact done

/-- Taking a name exchanges its rows for those tables the write changed had. -/
private theorem exchange_takeName
    (may : ∀ row ∈ now.bag table, now.sourceHits vcat vname table row = true → takes row)
    (come : Changes before after vcat vname table → ∀ row ∈ before.nameBag vcat vname table, puts row) :
    Bags.Exchange (now.bag table)
      ((now.takeName vcat vname ⟨before.readRelationRows vcat vname, after.readRelationRows vcat vname⟩).bag table)
      takes puts := by
  show Bags.Exchange (now.bag table) ((now.takeName _ _ _).rows table : List Row) takes puts
  rw [rows_takeName]
  split
  · rw [bag_filter_append]
    refine (Bags.Exchange.refl _ takes puts).replace may ?_
    intro row member
    cases differs : changed ⟨before.readRelationRows vcat vname, after.readRelationRows vcat vname⟩ table with
    | false =>
      rw [differs] at member
      simp at member
    | true =>
      rw [differs] at member
      refine come ?_ row (mem_before row member)
      intro same
      rw [changed_eq_false_iff.mpr same] at differs
      cases differs
  · exact Bags.Exchange.refl _ takes puts

end Exchanges

/-! ## What an undo does to each row -/

section Undo

variable {before after : PolicyTables} {now : RecordStore} {call : RecordCall} {own : List ℕ} {takesCreated : Bool}
variable {back : PolicyTables} {home : Text} {version : ℕ}

/-- The images a write keeps of its names. -/
def imagesOf (before after : PolicyTables) (call : RecordCall) : List (Text × RelationRowsChange) :=
  call.names.map fun name => (name, ⟨before.readRelationRows call.vcat name, after.readRelationRows call.vcat name⟩)

/-- Every row of the names is as the write left it. -/
private theorem asLeft_spec (left : asLeft now.tables call.vcat ⟨home, version, imagesOf before after call⟩ = true) :
    ∀ name ∈ call.names, ∀ table ∈ sourceTables,
      now.tables.nameBag call.vcat name table = after.nameBag call.vcat name table := by
  intro name listed table member
  simp only [asLeft, imagesOf, List.all_map, List.all_eq_true, Function.comp_apply] at left
  exact sameRows_iff.mp (left name listed table member)

private theorem undo_one_exchange {vname : Text} (names : call.names = [vname])
    (renames : ∀ vcat old new phys, call ≠ .renameRelation vcat old new phys)
    (undone : undoTables now call.vcat ⟨home, version, imagesOf before after call⟩ own takesCreated = .ok back)
    (table : TableName) :
    Bags.Exchange (now.tables.bag table) (back.bag table)
      (MayTake before after now.tables call takesCreated table) (MayPut before after call table) := by
  have images : imagesOf before after call = [(vname,
      ⟨before.readRelationRows call.vcat vname, after.readRelationRows call.vcat vname⟩)] := by
    rw [imagesOf, names, List.map_cons, List.map_nil]
  have listed : vname ∈ call.names := by
    rw [names]
    exact List.mem_cons_self
  have left := @asLeft_spec before after now call home version
  rw [images] at undone left
  simp only [undoTables] at undone
  split_ifs at undone with creates still dropped same
  · obtain rfl := Except.ok.inj undone
    apply exchange_takeName
    · intro row _ hits
      refine .record vname listed hits ?_ still
      have none : before.has .relations (named call.vcat vname) = false := by
        rw [← record_isSome, ← Option.not_isNone, creates.1]
        rfl
      have some : after.has .relations (named call.vcat vname) = true := by
        rw [← record_isSome]
        exact creates.2
      cases call with
      | renameRelation vcat old new phys => exact absurd rfl (renames vcat old new phys)
      | _ => exact ⟨none, some⟩
    · exact fun changes row held => ⟨vname, listed, held, changes⟩
  · obtain rfl := Except.ok.inj undone
    apply exchange_putBack (Bags.Exchange.refl _ _ _)
    · exact fun changes row _ hits => .left vname listed hits changes (left same)
    · exact fun changes row held => ⟨vname, listed, held, changes⟩

/-- Which rows a source shows stays the same where the write does not follow references. -/
private theorem sourceHits_static {first second : PolicyTables} {vcat name : Text} {table : TableName}
    (still : before.bag .references = after.bag .references) (columns : before.bag .referenceColumns = after.bag .referenceColumns)
    (changes : Changes before after vcat name table) :
    first.sourceHits vcat name table = second.sourceHits vcat name table := by
  apply sourceHits_congr
  rintro rfl
  refine absurd ?_ changes
  rw [nameBag, nameBag, columns, sourceHits_congr vcat name fun _ => still]

private theorem undo_both_exchange {vcat vname newVname newPhys : Text}
    (still : before.bag .references = after.bag .references) (columns : before.bag .referenceColumns = after.bag .referenceColumns)
    (undone : undoTables now vcat ⟨home, version, imagesOf before after (.renameRelation vcat vname newVname newPhys)⟩ own
      takesCreated = .ok back) (table : TableName) :
    Bags.Exchange (now.tables.bag table) (back.bag table)
      (MayTake before after now.tables (.renameRelation vcat vname newVname newPhys) takesCreated table)
      (MayPut before after (.renameRelation vcat vname newVname newPhys) table) := by
  have listed : vname ∈ (RecordCall.renameRelation vcat vname newVname newPhys).names := List.mem_cons_self
  have listedNew : newVname ∈ (RecordCall.renameRelation vcat vname newVname newPhys).names :=
    List.mem_cons_of_mem _ List.mem_cons_self
  have left := @asLeft_spec before after now (.renameRelation vcat vname newVname newPhys) home version
  have images : imagesOf before after (.renameRelation vcat vname newVname newPhys) =
      [(vname, ⟨before.readRelationRows vcat vname, after.readRelationRows vcat vname⟩),
       (newVname, ⟨before.readRelationRows vcat newVname, after.readRelationRows vcat newVname⟩)] := rfl
  rw [images] at undone left
  simp only [undoTables] at undone
  have come : ∀ {name}, name ∈ (RecordCall.renameRelation vcat vname newVname newPhys).names →
      Changes before after vcat name table → ∀ row ∈ before.nameBag vcat name table,
        MayPut before after (.renameRelation vcat vname newVname newPhys) table row :=
    fun member changes row held => ⟨_, member, held, changes⟩
  have taken : sameRecord (now.tables.readRelationRows vcat newVname) (after.readRelationRows vcat newVname) = true →
      takesCreated = true → Bags.Exchange (now.tables.bag table)
        ((now.tables.takeName vcat newVname
          ⟨before.readRelationRows vcat newVname, after.readRelationRows vcat newVname⟩).bag table)
        (MayTake before after now.tables (.renameRelation vcat vname newVname newPhys) takesCreated table)
        (MayPut before after (.renameRelation vcat vname newVname newPhys) table) := by
    intro same takes
    apply exchange_takeName
    · exact fun row _ hits => .record newVname listedNew hits ⟨takes, rfl⟩ same
    · exact come listedNew
  split_ifs at undone with takes record free same
  · obtain rfl := Except.ok.inj undone
    apply exchange_putBack (taken record takes)
    · intro changes row _ hits
      rw [sourceHits_static still columns changes] at hits
      refine .free vname newVname newPhys rfl takes hits changes ?_
      show now.tables.has .relations (named vcat vname) = false
      rw [← record_isSome, ← Option.not_isNone, free]
      rfl
    · exact come listed
  · obtain rfl := Except.ok.inj undone
    exact taken record takes
  · obtain rfl := Except.ok.inj undone
    apply exchange_putBack
    · apply exchange_putBack (Bags.Exchange.refl _ _ _)
      · exact fun changes row _ hits => .left vname listed hits changes (left same)
      · exact come listed
    · intro changes row _ hits
      rw [sourceHits_static still columns changes] at hits
      exact .left newVname listedNew hits changes (left same)
    · exact come listedNew

/-- A refusal names its reason. -/
private theorem undoTables_error {vcat : Text} {write : RecordWrite} {outcome : RecordUndoOutcome}
    (refused : undoTables now vcat write own takesCreated = .error outcome) : outcome ≠ .undone := by
  rintro rfl
  unfold undoTables at refused
  split at refused
  · split_ifs at refused <;> cases refused
  · dsimp only at refused
    split_ifs at refused <;> cases refused
  · cases refused

/-- What an undo can do: refuse, find nothing to do, or write. -/
private theorem undo_cases (now : RecordStore) (vcat : Text) (write : RecordWrite) (own : List ℕ) (takesCreated : Bool) :
    (∃ outcome, outcome ≠ .undone ∧ catalogUndoRecordWrite now vcat write own takesCreated = (outcome, now, own)) ∨
    (changedAny write = false ∧ catalogUndoRecordWrite now vcat write own takesCreated = (.undone, now, own)) ∨
    ∃ tables, undoTables now vcat write own takesCreated = .ok tables ∧
      catalogUndoRecordWrite now vcat write own takesCreated =
        (.undone, { now with tables := tables, version := now.version + 1 }, own ++ [now.version + 1]) := by
  unfold catalogUndoRecordWrite
  by_cases home : now.home ≠ write.store
  · rw [if_pos home]
    exact .inl ⟨.otherStore, by decide, rfl⟩
  rw [if_neg home]
  cases any : changedAny write with
  | false => exact .inr (.inl ⟨rfl, rfl⟩)
  | true =>
    cases ran : undoTables now vcat write own takesCreated with
    | error outcome => exact .inl ⟨outcome, undoTables_error ran, rfl⟩
    | ok tables => exact .inr (.inr ⟨tables, rfl, rfl⟩)

/-- A write's undo exchanges rows only as it may. -/
private theorem undo_exchange (ran : call.apply before = .ok after)
    (undone : undoTables now call.vcat ⟨home, version, imagesOf before after call⟩ own takesCreated = .ok back)
    (table : TableName) :
    Bags.Exchange (now.tables.bag table) (back.bag table)
      (MayTake before after now.tables call takesCreated table) (MayPut before after call table) := by
  cases call with
  | renameRelation vcat vname newVname newPhys =>
    have still : ∀ other ∈ [TableName.references, .referenceColumns], before.bag other = after.bag other := by
      intro other listed
      simp only [RecordCall.apply, renamed] at ran
      split_ifs at ran
      · obtain rfl := Except.ok.inj ran
        simp only [List.mem_cons, List.not_mem_nil, or_false] at listed
        rcases listed with rfl | rfl
        · exact (bag_renameRows (by decide) (by decide)).symm
        · exact (bag_renameRows (by decide) (by decide)).symm
      · obtain rfl := Except.ok.inj ran
        rfl
    exact undo_both_exchange (still _ (by simp)) (still _ (by simp)) undone table
  | registerView vcat vname body facts => exact undo_one_exchange rfl (by simp) undone table
  | registerCreated vcat vname phys origin facts => exact undo_one_exchange rfl (by simp) undone table
  | dropRelation vcat vname => exact undo_one_exchange rfl (by simp) undone table

/-- A drop leaves no record of the name it took one of. -/
private theorem drop_record {vcat vname : Text} (ran : before.catalogDropRelation vcat vname = .ok after) :
    before.has .relations (named vcat vname) = true ∧ after.has .relations (named vcat vname) = false := by
  simp only [catalogDropRelation] at ran
  split_ifs at ran with held
  obtain rfl := Except.ok.inj ran
  refine ⟨held, has_eq_false.mpr ?_⟩
  have listed : (⟨.relations, named vcat vname, false, false⟩ : RelationRowSource) ∈
      before.relationRowSources vcat vname := by
    simp [relationRowSources]
  exact dropRelation_clears listed rfl (by simp)

/-- The undo of a drop writes only where the versions since are the transaction's own. -/
private theorem undo_drop_only {vcat vname : Text} (ran : before.catalogDropRelation vcat vname = .ok after)
    (undone : (catalogUndoRecordWrite now vcat ⟨home, version, imagesOf before after (.dropRelation vcat vname)⟩ own
      takesCreated).1 = .undone) :
    onlyOwnSince now ⟨home, version, imagesOf before after (.dropRelation vcat vname)⟩ own = true := by
  obtain ⟨had, gone⟩ := drop_record ran
  have some : (before.readRelationRows vcat vname).record.isSome = true := by
    rw [record_isSome]
    exact had
  have none : (after.readRelationRows vcat vname).record.isNone = true := by
    rw [← Option.not_isSome, record_isSome, gone]
    rfl
  have any : changedAny ⟨home, version, imagesOf before after (.dropRelation vcat vname)⟩ = true := by
    by_contra nothing
    rw [Bool.not_eq_true] at nothing
    simp only [changedAny, imagesOf, RecordCall.names, List.map_cons, List.map_nil, List.any_cons, List.any_nil,
      Bool.or_false, List.any_eq_false] at nothing
    have same := changed_eq_false_iff.mp (Bool.not_eq_true _ ▸ nothing .relations (by decide))
    obtain ⟨row, held, bears⟩ := has_iff.mp had
    have member : row ∈ before.nameBag vcat vname .relations := Multiset.mem_filter.mpr ⟨held, bears⟩
    rw [RecordCall.vcat] at same
    rw [same] at member
    obtain ⟨kept, _⟩ := Multiset.mem_filter.mp member
    exact absurd bears (Bool.not_eq_true _ ▸ has_eq_false.mp gone row kept)
  by_contra others
  rw [Bool.not_eq_true] at others
  have refused : undoTables now vcat ⟨home, version, imagesOf before after (.dropRelation vcat vname)⟩ own takesCreated =
      .error .writtenSince := by
    have images : imagesOf before after (.dropRelation vcat vname) = [(vname,
      ⟨before.readRelationRows vcat vname, after.readRelationRows vcat vname⟩)] := rfl
    rw [images] at others ⊢
    have kept : ¬ ((before.readRelationRows vcat vname).record.isNone = true ∧
        (after.readRelationRows vcat vname).record.isSome = true) := by
      rintro ⟨absent, _⟩
      rw [← Option.not_isSome, some] at absent
      cases absent
    simp only [undoTables]
    rw [if_neg kept, if_pos ⟨some, none, others⟩]
  rcases undo_cases now vcat ⟨home, version, imagesOf before after (.dropRelation vcat vname)⟩ own takesCreated with
    ⟨outcome, refuses, ended⟩ | ⟨nothing, _⟩ | ⟨tables, done, _⟩
  · rw [ended] at undone
    exact refuses undone
  · cases any.symm.trans nothing
  · cases refused.symm.trans done

end Undo

/-- Whatever was written between a record write and its undo: the undo refuses and leaves the store, or it
takes and puts back no other rows than it may, and a dropped record comes back only where every version
since is the transaction's own. -/
theorem undo_spares_others {store next now back : RecordStore} {write : RecordWrite} {call : RecordCall}
    {own more : List ℕ} {takesCreated : Bool} {outcome : RecordUndoOutcome}
    (wrote : store.write call = .ok (next, write)) (distinct : own.Nodup)
    (ended : catalogUndoRecordWrite now call.vcat write own takesCreated = (outcome, back, more)) :
    (outcome ≠ .undone ∧ back = now) ∨
    (outcome = .undone ∧
      (∀ table, Bags.Exchange (now.tables.bag table) (back.tables.bag table)
        (MayTake store.tables next.tables now.tables call takesCreated table)
        (MayPut store.tables next.tables call table)) ∧
      ∀ vcat vname, call = .dropRelation vcat vname →
        ∀ version, write.version < version → version ≤ now.version → version ∈ own) := by
  unfold RecordStore.write at wrote
  cases ran : call.apply store.tables with
  | error failed =>
    rw [ran] at wrote
    cases wrote
  | ok after =>
    rw [ran] at wrote
    obtain ⟨rfl, rfl⟩ := Prod.mk.inj (Except.ok.inj wrote)
    have only : outcome = .undone → ∀ vcat vname, call = .dropRelation vcat vname →
        ∀ version, store.version + 1 < version → version ≤ now.version → version ∈ own := by
      rintro rfl vcat vname rfl version above below
      have only := undo_drop_only ran (congrArg Prod.fst ended)
      rw [onlyOwnSince, decide_eq_true_eq] at only
      exact Bags.mem_of_countP distinct only above below
    rcases undo_cases now call.vcat ⟨store.home, store.version + 1, imagesOf store.tables after call⟩ own takesCreated with
      ⟨reason, refuses, how⟩ | ⟨_, how⟩ | ⟨tables, done, how⟩
    · obtain ⟨rfl, rest⟩ := Prod.mk.inj (ended.symm.trans how)
      exact .inl ⟨refuses, (Prod.mk.inj rest).1⟩
    · obtain ⟨rfl, rest⟩ := Prod.mk.inj (ended.symm.trans how)
      obtain ⟨rfl, _⟩ := Prod.mk.inj rest
      exact .inr ⟨rfl, fun table => Bags.Exchange.refl _ _ _, only rfl⟩
    · obtain ⟨rfl, rest⟩ := Prod.mk.inj (ended.symm.trans how)
      obtain ⟨rfl, _⟩ := Prod.mk.inj rest
      exact .inr ⟨rfl, undo_exchange ran done, only rfl⟩

/-- The client's transaction registers a view. -/
def openView : RecordCall := .registerView "v".toList "s.t".toList "SELECT 1".toList ⟨[], [], .null, .null⟩

/-- The store before the view, and after it. -/
def emptyStore : RecordStore := ⟨"acl.relations".toList, .of [], 4⟩

def viewStore : RecordStore × RecordWrite :=
  (emptyStore.write openView).toOption.getD (emptyStore, ⟨[], 0, []⟩)

/-- An operator has given the view a row predicate since. -/
def guardedStore : RecordStore :=
  { viewStore.1 with
    tables := viewStore.1.tables.update .relations (named "v".toList "s.t".toList) [(.rls, .text "tenant = 1".toList)],
    version := 6 }

theorem undo_spares_others_guarded : emptyStore.write openView = .ok viewStore ∧ [5].Nodup ∧
    ((catalogUndoRecordWrite guardedStore openView.vcat viewStore.2 [5] false).1 ≠ .undone ∧
        (catalogUndoRecordWrite guardedStore openView.vcat viewStore.2 [5] false).2.1 = guardedStore ∨
      (catalogUndoRecordWrite guardedStore openView.vcat viewStore.2 [5] false).1 = .undone ∧
      (∀ table, Bags.Exchange (guardedStore.tables.bag table)
        ((catalogUndoRecordWrite guardedStore openView.vcat viewStore.2 [5] false).2.1.tables.bag table)
        (MayTake emptyStore.tables viewStore.1.tables guardedStore.tables openView false table)
        (MayPut emptyStore.tables viewStore.1.tables openView table)) ∧
      ∀ vcat vname, openView = .dropRelation vcat vname →
        ∀ version, viewStore.2.version < version → version ≤ guardedStore.version → version ∈ [5]) :=
  ⟨rfl, by decide, undo_spares_others (by rfl) (by decide) rfl⟩

/-- The undo takes the record although an operator wrote it again since: its row is not the one the write
left, and it is gone. -/
theorem undo_takes_rewritten_record :
    (catalogUndoRecordWrite guardedStore openView.vcat viewStore.2 [5] false).1 = .undone ∧
      ∃ row ∈ guardedStore.tables.rows .relations, named "v".toList "s.t".toList row = true ∧
        row ∉ viewStore.1.tables.rows .relations ∧
        row ∉ (catalogUndoRecordWrite guardedStore openView.vcat viewStore.2 [5] false).2.1.tables.rows .relations := by
  refine ⟨by decide, ?_⟩
  have held : guardedStore.tables.has .relations
      (fun row => named "v".toList "s.t".toList row && row.is .rls "tenant = 1".toList) = true := by decide
  have left : viewStore.1.tables.has .relations (fun row => row.is .rls "tenant = 1".toList) = false := by decide
  have back : (catalogUndoRecordWrite guardedStore openView.vcat viewStore.2 [5] false).2.1.tables.has .relations
      (fun row => row.is .rls "tenant = 1".toList) = false := by decide
  obtain ⟨row, member, passes⟩ := has_iff.mp held
  rw [Bool.and_eq_true] at passes
  refine ⟨row, member, passes.1, ?_, ?_⟩
  · intro kept
    exact absurd passes.2 (Bool.not_eq_true _ ▸ has_eq_false.mp left row kept)
  · intro kept
    exact absurd passes.2 (Bool.not_eq_true _ ▸ has_eq_false.mp back row kept)

end PolicyTables

end DuckAcl
