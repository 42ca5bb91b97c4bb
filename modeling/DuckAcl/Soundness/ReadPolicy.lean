import Mathlib.Data.List.Dedup
import DuckAcl.Library.Outcome
import DuckAcl.Model.TableRead
import DuckAcl.Soundness.FieldLists

/-! # A column policy on reads

A restricting grant folded into an alias-form object leaves a projection, or a query that matches
the listed names. The read returns only listed columns that the object declares, with one
exception: where the object declares columns and the grant lists none of them, the projection is
empty, and together with a row filter an empty projection reads every column.
-/

namespace DuckAcl

/-- The policy a restricting grant starts from: the object's own, its write side cleared. -/
def AliasObject.restricted (object : AliasObject) (grants : GrantUnion) : TablePolicy :=
  { object.policy with
    rlsUnchecked := object.policy.rlsUnchecked || grants.isUnchecked
    rls := composeRls object.rls grants.predicate
    writeColumns := []
    writeOrder := []
    visibleColumns := []
    narrowedReads := [] }

/-- A lookup under a restricting grant. -/
theorem AliasObject.lookup_restricts (object : AliasObject) (vname : Text) {grants : GrantUnion}
    (restricts : grants.restricts = true) :
    object.lookup vname grants = (listColumns grants.columns).bind fun listed =>
      if object.columns = [] then .ok ((object.restricted grants).restrictUndeclared listed)
      else (object.restricted grants).restrictDeclared vname object.columns listed := by
  simp only [AliasObject.lookup, applyGrantPolicy, AliasObject.policy, restricts, Bool.true_eq_false, and_false,
    ↓reduceIte, AliasObject.restricted]
  rfl

theorem listColumns_ok {items : ColumnItems} {listed : List ListedColumn} (ran : listColumns items = .ok listed) :
    ∃ trees, ColumnTrees.fromItems items = .ok trees ∧ listed = trees.columns.map listedColumn := by
  simp only [listColumns, bind, Except.bind, pure, Except.pure] at ran
  split at ran
  · cases ran
  · rename_i trees read
    cases ran
    exact ⟨trees, read, rfl⟩

@[simp] theorem listedColumn_name (column : FieldNode) : (listedColumn column).name = column.name := by
  rw [listedColumn]
  split_ifs <;> rfl

/-! ## The object's order -/

private theorem takeListed_some {name : Text} {listed left : List ListedColumn} {column : ListedColumn}
    (taken : takeListed name listed = some (column, left)) :
    column ∈ listed ∧ Text.ciEquals name column.name = true ∧ ∀ other ∈ left, other ∈ listed ∨ other.name = [] := by
  induction listed generalizing left with
  | nil => cases taken
  | cons first rest ih =>
    rw [takeListed] at taken
    split_ifs at taken with same
    · cases taken
      refine ⟨List.mem_cons_self .., same, fun other member => ?_⟩
      rcases List.mem_cons.mp member with rfl | inside
      · exact .inr rfl
      · exact .inl (List.mem_cons_of_mem _ inside)
    · obtain ⟨⟨found, remaining⟩, inner, equal⟩ := Option.map_eq_some_iff.mp taken
      cases equal
      obtain ⟨member, sameName, others⟩ := ih inner
      refine ⟨List.mem_cons_of_mem _ member, sameName, fun other inside => ?_⟩
      rcases List.mem_cons.mp inside with rfl | inside
      · exact .inl (List.mem_cons_self ..)
      · exact (others other inside).imp_left (List.mem_cons_of_mem _)

private theorem takeListed_none {name : Text} {listed : List ListedColumn} :
    takeListed name listed = none ↔ ∀ column ∈ listed, Text.ciEquals name column.name = false := by
  induction listed with
  | nil => simp [takeListed]
  | cons first rest ih =>
    rw [takeListed]
    split_ifs with same
    · simp [same]
    · simp [ih, same]

/-- An ordered column is a listed one the object declares, or one that has no name left. -/
theorem orderListed_mem {defined : List (Text × Text)} {listed : List ListedColumn} {column : ListedColumn}
    (member : column ∈ orderListed defined listed) :
    (column ∈ listed ∨ column.name = []) ∧ declares defined column.name = true := by
  induction defined generalizing listed with
  | nil => cases member
  | cons first rest ih =>
    rw [orderListed] at member
    have widen {name : Text} (declared : declares rest name = true) : declares (first :: rest) name = true := by
      rw [declares, List.any_cons]
      exact Bool.or_eq_true_iff.mpr (.inr declared)
    split at member
    · rename_i taken left found
      obtain ⟨inside, same, others⟩ := takeListed_some found
      rcases List.mem_cons.mp member with rfl | member
      · refine ⟨.inl inside, ?_⟩
        rw [declares, List.any_cons, same, Bool.true_or]
      · obtain ⟨origin, declared⟩ := ih member
        refine ⟨?_, widen declared⟩
        rcases origin with inLeft | nameless
        · exact others column inLeft
        · exact .inr nameless
    · obtain ⟨origin, declared⟩ := ih member
      exact ⟨origin, widen declared⟩

/-- Nothing is ordered exactly when the object declares no listed column. -/
theorem orderListed_eq_nil {defined : List (Text × Text)} {listed : List ListedColumn} :
    orderListed defined listed = [] ↔ ∀ column ∈ listed, declares defined column.name = false := by
  induction defined with
  | nil => simp [orderListed, declares]
  | cons first rest ih =>
    rw [orderListed]
    split
    · rename_i taken left found
      obtain ⟨inside, same, _⟩ := takeListed_some found
      simp only [reduceCtorEq, false_iff, not_forall]
      refine ⟨taken, inside, ?_⟩
      rw [declares, List.any_cons, same]
      simp
    · rename_i missing
      rw [takeListed_none] at missing
      rw [ih]
      refine forall₂_congr fun column member => ?_
      rw [declares, declares, List.any_cons, missing column member, Bool.false_or]

/-! ## What folding the list leaves alone -/

/-- Two policies read the same relation with the same rows. -/
structure SameRead (policy next : TablePolicy) : Prop where
  query : next.query = policy.query
  rls : next.rls = policy.rls
  renames : next.renames = policy.renames
  casts : next.casts = policy.casts
  caps : next.caps = policy.caps
  writable : next.writable = policy.writable
  phys : next.phys = policy.phys

theorem SameRead.trans {first second third : TablePolicy} (left : SameRead first second)
    (right : SameRead second third) : SameRead first third where
  query := right.query.trans left.query
  rls := right.rls.trans left.rls
  renames := right.renames.trans left.renames
  casts := right.casts.trans left.casts
  caps := right.caps.trans left.caps
  writable := right.writable.trans left.writable
  phys := right.phys.trans left.phys

/-- The write side of a listed column does not touch the read side. -/
theorem listWrite_read (policy : TablePolicy) (column : ListedColumn) (source : Text) :
    SameRead policy (policy.listWrite column source) ∧
      (policy.listWrite column source).projection = policy.projection := by
  rw [TablePolicy.listWrite]
  dsimp only
  split_ifs <;> exact ⟨⟨rfl, rfl, rfl, rfl, rfl, rfl, rfl⟩, rfl⟩

theorem listDeclared_ok {vname : Text} {objectColumns : List (Text × Text)} {policy next : TablePolicy}
    {column : ListedColumn} (ran : policy.listDeclared vname objectColumns column = .ok next) :
    ∃ source, renameSource vname column.name (definedSource objectColumns column.name) policy.renames = .ok source ∧
      next = TablePolicy.listWrite
        { policy with projection := policy.projection ++ [⟨column.read source, column.name⟩] } column source.name := by
  simp only [TablePolicy.listDeclared, bind, Except.bind, pure, Except.pure] at ran
  split at ran
  · cases ran
  · rename_i source found
    cases ran
    exact ⟨source, found, rfl⟩

/-- Folding the ordered columns adds one select item each, under the column's name. -/
theorem listDeclared_fold {vname : Text} {objectColumns : List (Text × Text)} {ordered : List ListedColumn}
    {policy next : TablePolicy}
    (ran : ordered.foldlM (TablePolicy.listDeclared vname objectColumns) policy = .ok next) :
    SameRead policy next ∧
      next.projection.map SelectItem.name = policy.projection.map SelectItem.name ++ ordered.map ListedColumn.name := by
  induction ordered generalizing policy with
  | nil =>
    cases ran
    exact ⟨⟨rfl, rfl, rfl, rfl, rfl, rfl, rfl⟩, by simp⟩
  | cons column ordered ih =>
    simp only [List.foldlM_cons, bind, Except.bind] at ran
    split at ran
    · cases ran
    · rename_i middle first
      obtain ⟨source, _, rfl⟩ := listDeclared_ok first
      obtain ⟨same, items⟩ := ih ran
      obtain ⟨frame, projection⟩ := listWrite_read
        { policy with projection := policy.projection ++ [⟨column.read source, column.name⟩] } column source.name
      refine ⟨SameRead.trans ⟨frame.query, frame.rls, frame.renames, frame.casts, frame.caps, frame.writable,
        frame.phys⟩ same, ?_⟩
      rw [items, projection]
      simp

theorem listWrite_fold_read (listed : List ListedColumn) (policy : TablePolicy) :
    SameRead policy (listed.foldl (fun policy column => policy.listWrite column column.name) policy) := by
  induction listed generalizing policy with
  | nil => exact ⟨rfl, rfl, rfl, rfl, rfl, rfl, rfl⟩
  | cons column listed ih => exact (listWrite_read policy column column.name).1.trans (ih _)

/-- A declared restriction that is not refused: no listed column is guarded but undeclared. -/
theorem restrictDeclared_ok {vname : Text} {objectColumns : List (Text × Text)} {listed : List ListedColumn}
    {policy next : TablePolicy} (ran : policy.restrictDeclared vname objectColumns listed = .ok next) :
    (∀ column ∈ listed, declares objectColumns column.name = false → column.guarded = false) ∧
      ∃ folded, (orderListed objectColumns listed).foldlM (TablePolicy.listDeclared vname objectColumns) policy =
        .ok folded ∧ next = { folded with subqueryForm := true } := by
  simp only [TablePolicy.restrictDeclared, bind, Except.bind, pure, Except.pure] at ran
  cases unknown : listed.find? fun column => !declares objectColumns column.name && column.guarded with
  | some column => simp [unknown, throw, throwThe, MonadExceptOf.throw] at ran
  | none =>
    simp only [unknown] at ran
    split at ran
    · cases ran
    · rename_i folded done
      cases ran
      refine ⟨fun column member undeclared => ?_, folded, done, rfl⟩
      have := List.find?_eq_none.mp unknown column member
      simpa [undeclared] using this

/-! ## What a read returns -/

/-- The united list names the column. -/
def GrantUnion.Lists (grants : GrantUnion) (name : Text) : Prop :=
  ∃ trees, ColumnTrees.fromItems grants.columns = .ok trees ∧
    ∃ column ∈ trees.columns, Text.ciEquals column.name name = true

/-- A read is refused, or returns only columns the grant lists and, where the object declares
columns, the object declares. -/
def Confined (object : AliasObject) (grants : GrantUnion) (answer : Except Refusal (List Text)) : Prop :=
  ∀ columns, answer = .ok columns → ∀ name ∈ columns,
    grants.Lists name ∧ (object.columns ≠ [] → declares object.columns name = true)

/-- Where an empty projection reads everything: the object declares columns, the grant lists none
of them and guards nothing, a row filter is left, and the engine binds the star. -/
structure OpensEmpty (plainWord : Text → Bool) (object : AliasObject) (grants : GrantUnion) : Prop where
  declared : object.columns ≠ []
  selects : ciContains object.caps "select".toList = true
  unlisted : ∃ trees, ColumnTrees.fromItems grants.columns = .ok trees ∧ ∀ column ∈ trees.columns,
    declares object.columns column.name = false ∧ (listedColumn column).guarded = false
  filtered : composeRls object.rls grants.predicate ≠ []
  casts : (object.casts.map fun cast => Text.fold cast.1).Nodup ∧ ∀ cast ∈ object.casts, cast.1 ≠ []
  renames : (object.policy.renames.map fun rename => Text.fold rename.2).Nodup ∧
    ∀ rename ∈ object.policy.renames, plainWord rename.1 ∧ plainWord rename.2

section

variable {plainWord : Text → Bool} {view : Text → Except Refusal (List Text)}

/-- A policy with a query of its own reads that query. -/
private theorem readTable_ok {vname : Text} {policy : TablePolicy} {phys columns : List Text}
    (subquery : policy.subqueryForm = true) (ran : readTable plainWord view vname policy phys = .ok columns) :
    ciContains policy.caps "select".toList = true ∧
      buildTableSubquery plainWord view vname policy phys = .ok columns := by
  rw [readTable] at ran
  split_ifs at ran with denied
  exact ⟨by simpa using denied, ran⟩

private theorem matching_columns {names phys columns : List Text} {replaces : List SelectItem} {source : ReadFrom}
    (ran : (PolicyQuery.matching names replaces source).columns view phys = .ok columns) :
    ∀ column ∈ columns, Text.fold column ∈ names := by
  simp only [PolicyQuery.columns] at ran
  obtain ⟨offered, _, ran⟩ := Outcome.bind_ok ran
  obtain ⟨replaced, _, ran⟩ := Outcome.bind_ok ran
  rw [keepMatching] at ran
  dsimp only at ran
  split_ifs at ran
  cases ran
  intro column member
  simpa using (List.mem_filter.mp member).2

/-- Where the object declares no columns the engine keeps only listed names. -/
private theorem undeclared_confined {object : AliasObject} {vname : Text} {grants : GrantUnion} {listed : List ListedColumn}
    (bare : object.columns = []) (list : listColumns grants.columns = .ok listed) (table : TableColumns) :
    Confined object grants (readTable plainWord view vname
      ((object.restricted grants).restrictUndeclared listed) table.names) := by
  intro columns ran name member
  obtain ⟨_, built⟩ := readTable_ok rfl ran
  have query := (listWrite_fold_read listed { object.restricted grants with query := some (.matching
    (listed.map fun column => Text.fold column.name)
    ((listed.filter ListedColumn.guarded).map fun column => ⟨column.read (.column column.name), column.name⟩)
    (object.restricted grants).readFrom) }).query
  rw [buildTableSubquery, TablePolicy.restrictUndeclared] at built
  simp only [query] at built
  have kept := matching_columns built name member
  obtain ⟨trees, read, rfl⟩ := listColumns_ok list
  refine ⟨⟨trees, read, ?_⟩, fun declared => absurd bare declared⟩
  obtain ⟨column, inside, same⟩ := List.mem_map.mp kept
  obtain ⟨tree, isColumn, rfl⟩ := List.mem_map.mp inside
  rw [listedColumn_name] at same
  exact ⟨tree, isColumn, Text.ciEquals_iff.mpr same⟩

private theorem itemColumns_ok {items : List SelectItem} {columns : List Text} (ran : itemColumns items = .ok columns) :
    columns = items.map SelectItem.name ∧ ∀ name ∈ columns, name ≠ [] := by
  rw [itemColumns] at ran
  split_ifs at ran with given
  cases ran
  refine ⟨rfl, fun name member => ?_⟩
  obtain ⟨item, inside, rfl⟩ := List.mem_map.mp member
  simpa using List.all_eq_true.mp given item inside

private theorem starReplace_ok {names columns kept : List Text} (ran : starReplace names columns = .ok kept) :
    (names.map Text.fold).Nodup ∧ (∀ name ∈ names, ciContains columns name = true) ∧ kept = columns := by
  rw [starReplace] at ran
  split_ifs at ran with accepted
  cases ran
  exact ⟨accepted.1, accepted.2, rfl⟩

private theorem starRename_ok {renames : List (Text × Text)} {columns kept : List Text}
    (ran : starRename plainWord renames columns = .ok kept) :
    (renames.map fun rename => Text.fold rename.2).Nodup ∧
      (∀ rename ∈ renames, plainWord rename.1 ∧ plainWord rename.2 ∧ ciContains columns rename.2) ∧
      kept = columns.map fun column =>
        match renames.find? fun rename => Text.ciEquals rename.2 column with
        | some rename => rename.1
        | none => column := by
  rw [starRename] at ran
  split_ifs at ran with accepted
  cases ran
  exact ⟨accepted.1, accepted.2, rfl⟩

/-- Where the object declares columns, the read is confined unless an empty projection opens it. -/
private theorem declared_confined {object : AliasObject} {vname : Text} {grants : GrantUnion} {listed : List ListedColumn}
    {policy : TablePolicy} (declared : object.columns ≠ []) (list : listColumns grants.columns = .ok listed)
    (restricted : (object.restricted grants).restrictDeclared vname object.columns listed = .ok policy)
    (closed : ¬ OpensEmpty plainWord object grants) (table : TableColumns) :
    Confined object grants (readTable plainWord view vname policy table.names) := by
  intro columns ran name member
  obtain ⟨guardedDeclared, folded, fold, rfl⟩ := restrictDeclared_ok restricted
  obtain ⟨same, items⟩ := listDeclared_fold fold
  obtain ⟨selects, built⟩ := readTable_ok rfl ran
  have noQuery : folded.query = none := same.query
  rw [buildTableSubquery] at built
  simp only [noQuery] at built
  have start : (object.restricted grants).projection = [] := rfl
  rw [start, List.map_nil, List.nil_append] at items
  cases projected : folded.projection.isEmpty with
  | false =>
    simp only [projected, Bool.false_eq_true, false_and, ↓reduceIte] at built
    obtain ⟨_, _, built⟩ := Outcome.bind_ok built
    obtain ⟨rfl, given⟩ := itemColumns_ok built
    have nonempty := given name member
    rw [items] at member
    obtain ⟨column, inside, rfl⟩ := List.mem_map.mp member
    obtain ⟨origin, isDeclared⟩ := orderListed_mem inside
    refine ⟨?_, fun _ => isDeclared⟩
    obtain ⟨trees, read, rfl⟩ := listColumns_ok list
    obtain ⟨tree, isColumn, rfl⟩ := List.mem_map.mp (origin.resolve_right nonempty)
    exact ⟨trees, read, tree, isColumn, by rw [listedColumn_name]; exact Text.ciEquals_refl _⟩
  | true =>
    -- an empty projection that is read at all has a row filter, and is a star
    exfalso
    apply closed
    have ordered : orderListed object.columns listed = [] := by
      rw [List.isEmpty_iff.mp projected, List.map_nil] at items
      exact List.map_eq_nil_iff.mp items.symm
    have undeclared := orderListed_eq_nil.mp ordered
    simp only [projected, true_and, ↓reduceIte] at built
    split_ifs at built with unfiltered
    obtain ⟨offered, cast, renamed⟩ := Outcome.bind_ok built
    obtain ⟨trees, read, rfl⟩ := listColumns_ok list
    have sameCaps : folded.caps = object.caps := same.caps
    refine ⟨declared, by rwa [← sameCaps], ⟨trees, read, fun column isColumn => ?_⟩, ?_, ?_, ?_⟩
    · have hidden := undeclared (listedColumn column) (List.mem_map_of_mem isColumn)
      refine ⟨by rwa [listedColumn_name] at hidden, guardedDeclared _ (List.mem_map_of_mem isColumn) hidden⟩
    · have rls : folded.rls = composeRls object.rls grants.predicate := same.rls
      rw [← rls]
      exact unfiltered
    · have sameCasts : folded.casts = object.casts := same.casts
      simp only [ReadFrom.columns, TablePolicy.readFrom, sameCasts] at cast
      obtain ⟨once, present, _⟩ := starReplace_ok cast
      rw [List.map_map] at once
      refine ⟨once, fun entry inside nameless => ?_⟩
      obtain ⟨column, isColumn, equal⟩ := List.any_eq_true.mp (present entry.1 (List.mem_map_of_mem inside))
      rw [nameless, Text.ciEquals_iff] at equal
      exact table.given column isColumn (Text.fold_eq_nil.mp equal)
    · have sameRenames : folded.renames = object.policy.renames := same.renames
      simp only [sameRenames] at renamed
      obtain ⟨once, words, _⟩ := starRename_ok renamed
      exact ⟨once, fun rename inside => ⟨(words rename inside).1, (words rename inside).2.1⟩⟩

/-- A physical table that has the given columns and one more. -/
private theorem exists_table (wanted avoided : List Text) (given : ∀ name ∈ wanted, name ≠ []) :
    ∃ table : TableColumns, ∃ fresh ∈ table.names, (∀ name ∈ wanted, ciContains table.names name = true) ∧
      (∀ name ∈ wanted, Text.ciEquals name fresh = false) ∧ ∀ name ∈ avoided, Text.ciEquals name fresh = false := by
  obtain ⟨fresh, nonempty, apart⟩ := Text.exists_fresh (wanted ++ avoided)
  have folded {name : Text} (inside : name ∈ (wanted.map Text.fold).dedup) : ∃ old ∈ wanted, name = Text.fold old := by
    obtain ⟨old, isWanted, rfl⟩ := List.mem_map.mp (List.mem_dedup.mp inside)
    exact ⟨old, isWanted, rfl⟩
  refine ⟨⟨(wanted.map Text.fold).dedup ++ [fresh], ?_, ?_⟩, fresh, by simp, ?_, ?_, ?_⟩
  · intro name member
    rcases List.mem_append.mp member with inside | inside
    · obtain ⟨old, isWanted, rfl⟩ := folded inside
      exact fun empty => given old isWanted (Text.fold_eq_nil.mp empty)
    · rw [List.mem_singleton.mp inside]
      exact nonempty
  · refine List.pairwise_append.mpr ⟨?_, List.pairwise_singleton _ _, ?_⟩
    · refine (List.nodup_dedup _).imp_of_mem fun {first second} inFirst inSecond differ => ?_
      obtain ⟨left, _, rfl⟩ := folded inFirst
      obtain ⟨right, _, rfl⟩ := folded inSecond
      rw [Bool.eq_false_iff, Ne, Text.ciEquals_iff, Text.fold_fold, Text.fold_fold]
      exact differ
    · intro name inside other isFresh
      obtain ⟨old, isWanted, rfl⟩ := folded inside
      rw [List.mem_singleton.mp isFresh, Bool.eq_false_iff, Ne, Text.ciEquals_iff, Text.fold_fold,
        ← Text.ciEquals_iff, ← Ne, ← Bool.eq_false_iff]
      exact apart old (List.mem_append_left _ isWanted)
  · intro name isWanted
    refine List.any_eq_true.mpr ⟨Text.fold name, ?_, ?_⟩
    · exact List.mem_append_left _ (List.mem_dedup.mpr (List.mem_map_of_mem isWanted))
    · rw [Text.ciEquals_iff, Text.fold_fold]
  · exact fun name isWanted => apart name (List.mem_append_left _ isWanted)
  · exact fun name isAvoided => apart name (List.mem_append_right _ isAvoided)

/-- Where the grant lists and guards nothing the object declares, the restriction keeps no column. -/
private theorem restrictDeclared_empty {object : AliasObject} {grants : GrantUnion} {trees : ColumnTrees}
    (hidden : ∀ column ∈ trees.columns, declares object.columns column.name = false ∧ (listedColumn column).guarded = false)
    (vname : Text) :
    (object.restricted grants).restrictDeclared vname object.columns (trees.columns.map listedColumn) =
      .ok { object.restricted grants with subqueryForm := true } := by
  have unguarded : (trees.columns.map listedColumn).find?
      (fun column => !declares object.columns column.name && column.guarded) = none := by
    rw [List.find?_eq_none]
    intro column inside
    obtain ⟨tree, isColumn, rfl⟩ := List.mem_map.mp inside
    simp [(hidden tree isColumn).2]
  have unordered : orderListed object.columns (trees.columns.map listedColumn) = [] := by
    rw [orderListed_eq_nil]
    intro column inside
    obtain ⟨tree, isColumn, rfl⟩ := List.mem_map.mp inside
    rw [listedColumn_name]
    exact (hidden tree isColumn).1
  rw [TablePolicy.restrictDeclared, unguarded, unordered]
  rfl

/-- Where an empty projection opens the read, some table has a column the grant does not list and
the read returns it. -/
private theorem opensEmpty_leaks {object : AliasObject} {grants : GrantUnion} (restricts : grants.restricts = true)
    (opens : OpensEmpty plainWord object grants) (vname : Text) :
    ∃ table, ¬ Confined object grants (object.read plainWord view vname grants table) := by
  obtain ⟨trees, read, hidden⟩ := opens.unlisted
  have list : listColumns grants.columns = .ok (trees.columns.map listedColumn) := by
    rw [listColumns, read]
    rfl
  obtain ⟨table, fresh, isColumn, wanted, notWanted, unlisted⟩ := exists_table
    (object.casts.map Prod.fst ++ object.policy.renames.map Prod.snd) (trees.columns.map FieldNode.name) (by
      intro name inside
      rcases List.mem_append.mp inside with inCasts | inRenames
      · obtain ⟨cast, isCast, rfl⟩ := List.mem_map.mp inCasts
        exact opens.casts.2 cast isCast
      · obtain ⟨rename, isRename, rfl⟩ := List.mem_map.mp inRenames
        obtain ⟨column, _, kept⟩ := List.mem_filterMap.mp isRename
        split_ifs at kept with bare
        cases kept
        exact bare)
  have replaced : starReplace (object.casts.map Prod.fst) table.names = .ok table.names := by
    rw [starReplace, if_pos]
    refine ⟨by rw [List.map_map]; exact opens.casts.1, fun name inside => wanted name (List.mem_append_left _ inside)⟩
  have renamed : ∃ columns, starRename plainWord object.policy.renames table.names = .ok columns ∧ fresh ∈ columns := by
    rw [starRename, if_pos]
    · refine ⟨_, rfl, List.mem_map.mpr ⟨fresh, isColumn, ?_⟩⟩
      have untouched : object.policy.renames.find? (fun rename => Text.ciEquals rename.2 fresh) = none := by
        rw [List.find?_eq_none]
        intro rename inside
        rw [notWanted rename.2 (List.mem_append_right _ (List.mem_map_of_mem inside))]
        exact Bool.false_ne_true
      rw [untouched]
    · refine ⟨opens.renames.1, fun rename inside => ⟨(opens.renames.2 rename inside).1, (opens.renames.2 rename inside).2, ?_⟩⟩
      exact wanted rename.2 (List.mem_append_right _ (List.mem_map_of_mem inside))
  obtain ⟨columns, renamed, returned⟩ := renamed
  refine ⟨table, fun confined => ?_⟩
  have ran : object.read plainWord view vname grants table = .ok columns := by
    have looked : object.lookup vname grants = .ok { object.restricted grants with subqueryForm := true } := by
      rw [object.lookup_restricts vname restricts, list]
      dsimp only [Except.bind]
      rw [if_neg opens.declared, restrictDeclared_empty hidden]
    have selects : ciContains (object.restricted grants).caps "select".toList = true := opens.selects
    have filtered : (object.restricted grants).rls ≠ [] := opens.filtered
    rw [AliasObject.read, looked]
    show readTable plainWord view vname _ table.names = _
    rw [readTable, if_neg (by rw [selects]; decide), if_pos rfl, buildTableSubquery]
    show (if ([] : List SelectItem).isEmpty ∧ (object.restricted grants).rls = [] then _ else _) = _
    rw [if_neg (fun both => filtered both.2)]
    show (starReplace (object.casts.map Prod.fst) table.names).bind _ = _
    rw [replaced]
    exact renamed
  obtain ⟨⟨others, sameRead, column, inside, same⟩, _⟩ := confined columns ran fresh returned
  rw [read] at sameRead
  cases sameRead
  rw [unlisted column.name (List.mem_map_of_mem inside)] at same
  cases same

end

/-- A restricting grant confines every read of an alias-form object, unless an empty projection
opens it. -/
theorem read_confined_iff (plainWord : Text → Bool) (view : Text → Except Refusal (List Text)) (object : AliasObject)
    (vname : Text) (grants : GrantUnion) (restricts : grants.restricts = true) :
    (∀ table, Confined object grants (object.read plainWord view vname grants table)) ↔
      ¬ OpensEmpty plainWord object grants := by
  constructor
  · intro confined opens
    obtain ⟨table, leak⟩ : ∃ table, ¬ Confined object grants (object.read plainWord view vname grants table) :=
      opensEmpty_leaks restricts opens vname
    exact leak (confined table)
  · intro closed table columns ran
    rw [AliasObject.read, object.lookup_restricts vname restricts] at ran
    obtain ⟨policy, found, ran⟩ := Outcome.bind_ok ran
    obtain ⟨listed, list, found⟩ := Outcome.bind_ok found
    split_ifs at found with declared
    · cases found
      exact undeclared_confined declared list table columns ran
    · exact declared_confined declared list found closed table columns ran

/-- An object that declares `id`, and a role granted `note` of the rows of one tenant: the read
answers every column of the table. -/
theorem read_opens_empty :
    ∃ grants, (narrowAll [{ rls := "tenant = 1".toList, columnCsv := "note".toList }]).bind
        (GrantUnion.add {}) = .ok grants ∧ grants.restricts = true ∧
      ∃ table, ¬ Confined { phys := "t".toList, columns := [("id".toList, [])], caps := ["select".toList] } grants
        (AliasObject.read (fun _ => true) (fun _ => .error [])
          { phys := "t".toList, columns := [("id".toList, [])], caps := ["select".toList] } "v".toList grants table) := by
  refine ⟨{ any := true, predicates := ["tenant = 1".toList], columns := [("note".toList, [])] }, by decide +kernel, rfl,
    ⟨["id".toList, "secret".toList], by decide, by decide⟩, fun confined => ?_⟩
  obtain ⟨⟨trees, read, column, inside, same⟩, _⟩ := confined ["id".toList, "secret".toList] (by decide)
    "secret".toList (by decide)
  have unlisted : ((ColumnTrees.fromItems [("note".toList, [])]).toOption.all fun trees =>
      trees.columns.all fun column => !Text.ciEquals column.name "secret".toList) = true := by
    decide
  rw [read] at unlisted
  have apart := List.all_eq_true.mp unlisted column inside
  rw [same] at apart
  cases apart

/-- A role granted a declared column reads within its list. -/
theorem read_confined_iff_declared :
    (∀ table, Confined { phys := "t".toList, columns := [("id".toList, [])], caps := ["select".toList] }
        { any := true, columns := [("id".toList, [])] }
        (AliasObject.read (fun _ => true) (fun _ => .error [])
          { phys := "t".toList, columns := [("id".toList, [])], caps := ["select".toList] } "v".toList
          { any := true, columns := [("id".toList, [])] } table)) ↔
      ¬ OpensEmpty (fun _ => true) { phys := "t".toList, columns := [("id".toList, [])], caps := ["select".toList] }
        { any := true, columns := [("id".toList, [])] } :=
  read_confined_iff _ _ _ _ _ rfl

end DuckAcl
