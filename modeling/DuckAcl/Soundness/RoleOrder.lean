import DuckAcl.Model.GrantPolicy
import DuckAcl.Soundness.UnionMasks

/-! # The order of the roles

`GrantUnion::Add` folds the roles of a principal one by one. What the fold leaves is described
without an order: a path is shown when some role shows it, reached when some role reaches it, and a
mask stays where no role reaches its position. Two orders that both go through therefore agree, as
long as no two lists clash and the roles' own lists say each thing once. Whether an order goes
through does depend on it, where roles mask a position differently that another role shows.
-/

namespace DuckAcl

/-! ## The union of two lists -/

/-- A list that shows, reaches and masks what two lists together do. -/
structure Joins (a b united : ColumnItems) : Prop where
  shown : ∀ path, readable united path = true ↔ readable a path = true ∨ readable b path = true
  reaches : ∀ path, reached united path = true ↔ reached a path = true ∨ reached b path = true
  masks : ∀ path mask, maskPut united path = some mask ↔
    (maskPut a path = some mask ∨ maskPut b path = some mask) ∧ reached a path = false ∧ reached b path = false

/-- The lists put no two masks on one position. -/
def MasksAgree (a b : ColumnItems) : Prop :=
  ∀ path first second, maskPut a path = some first → maskPut b path = some second → first = second

/-- A mask on the way below an unmasked position is put somewhere below it. -/
private theorem FieldNode.maskAt_below {node : FieldNode} {path rest : List Step} (noMask : node.maskOn path = none)
    (below : (node.maskOn (path ++ rest)).isSome) : ∃ tail mask, node.maskAt (path ++ tail) = some mask := by
  obtain ⟨mask, on⟩ := Option.isSome_iff_exists.mp below
  obtain ⟨above, shorter, at'⟩ := FieldNode.maskOn_eq_some.mp on
  rcases List.prefix_or_prefix_of_prefix (List.prefix_append path rest) shorter with ⟨tail, rfl⟩ | outer
  · exact ⟨tail, mask, at'⟩
  · rw [FieldNode.maskOn_eq_some.mpr ⟨above, outer, at'⟩] at noMask
    cases noMask

/-- A tree that shows, reaches and masks what two trees together do. -/
structure Together (a b united : FieldNode) : Prop where
  shown : ∀ path, united.reads path = true ↔ a.reads path = true ∨ b.reads path = true
  reaches : ∀ path, united.free path = true ↔ a.free path = true ∨ b.free path = true
  masks : ∀ path mask, united.maskAt path = some mask ↔
    (a.maskAt path = some mask ∨ b.maskAt path = some mask) ∧ a.free path = false ∧ b.free path = false

namespace Together

variable {a b united : FieldNode}

end Together

/-! ## Lists with field paths -/

theorem uniteColumnItems_succeeds {a b : ColumnItems} {first second : ColumnTrees}
    (readA : ColumnTrees.fromItems a = .ok first) (readB : ColumnTrees.fromItems b = .ok second)
    (agree : MasksAgree a b) : ∃ united, uniteColumnItems a b = .ok united := by
  have each : ∀ column ∈ first.columns, ∃ side, uniteNodes column.name (some column) (second.find column.name) = .ok side := by
    intro column member
    obtain ⟨distinct, _, _, _, _⟩ := (fromItems_sound readA).wf
    have found : first.root.child (.field column.name) = some column :=
      (find?_of_distinct distinct).mpr ⟨member, Text.ciEquals_refl _⟩
    refine uniteNodes_succeeds fun path mask mask' left right => agree (.field column.name :: path) mask mask' ?_ ?_
    · simp only [maskPut, readA]
      rw [FieldNode.maskAt_cons rfl, found]
      exact left
    · simp only [maskPut, readB]
      rw [FieldNode.maskAt_cons rfl]
      exact right
  obtain ⟨shared, mapped⟩ := mapM_succeeds each
  exact ⟨_, by simp only [uniteColumnItems, readA, readB, mapped, bind, Except.bind, pure, Except.pure]; rfl⟩

/-! ## Lists of plain columns -/

/-- The list says this of a column; an empty mask shows it. -/
def Tells (items : ColumnItems) (column : Step) (mask : Text) : Prop :=
  ∃ item ∈ items, (Step.field item.1).key = column ∧ item.2 = mask

/-- A list without field paths that says one thing of each column. -/
structure Flat (items : ColumnItems) : Prop where
  plain : hasFieldPaths items = false
  trimmed : ∀ item ∈ items, Text.trim item.1 = item.1
  uniform : ∀ column first second, Tells items column first → Tells items column second → first = second

namespace Flat

variable {items : ColumnItems}

private theorem itemRule_eq (flat : Flat items) {item : Text × Text} (member : item ∈ items) :
    itemRule item = ([(Step.field item.1).key], if item.2 = [] then none else some item.2) := by
  have plain := flat.plain
  rw [hasFieldPaths, List.any_eq_false] at plain
  have notPath := plain item member
  rw [flat.trimmed item member] at notPath
  have path : ColumnTrees.itemPath item.1 = ⟨item.1, []⟩ := by
    simp [ColumnTrees.itemPath, flat.trimmed item member, notPath]
  simp [itemRule, itemSteps, path, ruleOf]

private theorem mask_mem (flat : Flat items) {column : List Step} {mask : Text} :
    (column, some mask) ∈ items.map itemRule ↔ ∃ step, column = [step] ∧ Tells items step mask ∧ mask ≠ [] := by
  constructor
  · intro member
    obtain ⟨item, inside, rule⟩ := List.mem_map.mp member
    rw [flat.itemRule_eq inside] at rule
    simp only [Prod.mk.injEq, Option.ite_none_left_eq_some, Option.some.injEq] at rule
    obtain ⟨rfl, given, rfl⟩ := rule
    exact ⟨_, rfl, ⟨item, inside, rfl, rfl⟩, given⟩
  · rintro ⟨_, rfl, ⟨item, inside, rfl, rfl⟩, given⟩
    refine List.mem_map.mpr ⟨item, inside, ?_⟩
    rw [flat.itemRule_eq inside]
    simp [given]

private theorem consistent (flat : Flat items) : AccessRules.Consistent (items.map itemRule) := by
  intro path first second isFirst isSecond
  obtain ⟨step, rfl, told, _⟩ := flat.mask_mem.mp isFirst
  obtain ⟨step', same, told', _⟩ := flat.mask_mem.mp isSecond
  obtain rfl : step = step' := by simpa using same
  exact flat.uniform step first second told told'

/-- The list is accepted, and its masks are what it says. -/
private theorem reads (flat : Flat items) : ∃ trees, ColumnTrees.fromItems items = .ok trees ∧
    ∀ path mask, trees.root.maskAt path = some mask → (keys path, some mask) ∈ items.map itemRule := by
  have blank : ∀ path mask, (ColumnTrees.root {}).maskAt path = some mask → (keys path, some mask) ∈ items.map itemRule := by
    intro path mask masked
    rcases path with _ | ⟨_ | _, path⟩ <;> cases masked
  obtain ⟨inserted, folded, known⟩ := insertItems_succeeds flat.consistent
    (fun item member => List.mem_map_of_mem member) blank
  refine ⟨⟨inserted.columns.map simplify⟩, ?_, ?_⟩
  · simp only [ColumnTrees.fromItems, folded, bind, Except.bind, pure, Except.pure]
  · intro path mask masked
    refine known path mask ?_
    rw [FieldNode.maskAt_iff] at masked ⊢
    simpa only [(root_simplify inserted _ (insertItems_sound sound_blank folded)).1] using masked

theorem readable_iff (flat : Flat items) (path : List Step) :
    readable items path = true ↔ ∃ step rest, path = step :: rest ∧ Tells items step.key [] := by
  obtain ⟨trees, read, _⟩ := flat.reads
  simp only [readable, read]
  rw [(fromItems_rules read path).2]
  constructor
  · rintro ⟨⟨rule, member, shown, shorter⟩, _⟩
    obtain ⟨item, inside, rfl⟩ := List.mem_map.mp member
    rw [flat.itemRule_eq inside] at shown shorter
    simp only [ite_eq_left_iff, reduceCtorEq, imp_false, Decidable.not_not] at shown
    cases path with
    | nil => simp at shorter
    | cons step rest =>
      obtain ⟨same, _⟩ := List.cons_prefix_cons.mp shorter
      exact ⟨step, rest, rfl, item, inside, same, shown⟩
  · rintro ⟨step, rest, rfl, item, inside, same, shown⟩
    constructor
    · refine ⟨itemRule item, List.mem_map_of_mem inside, ?_, ?_⟩
      · rw [flat.itemRule_eq inside]
        simp [shown]
      · rw [flat.itemRule_eq inside, same]
        exact List.cons_prefix_cons.mpr ⟨rfl, List.nil_prefix⟩
    · rintro ⟨rule, member, masked, shorter⟩
      obtain ⟨mask, given⟩ := Option.isSome_iff_exists.mp masked
      obtain ⟨step', equal, told, given⟩ := flat.mask_mem.mp (show (rule.1, some mask) ∈ _ by rwa [← given])
      rw [equal] at shorter
      obtain ⟨rfl, _⟩ := List.cons_prefix_cons.mp shorter
      exact given (flat.uniform _ _ _ told ⟨item, inside, same, shown⟩)

theorem maskPut_iff (flat : Flat items) (path : List Step) (mask : Text) :
    maskPut items path = some mask ↔ ∃ step, path = [step] ∧ Tells items step.key mask ∧ mask ≠ [] := by
  obtain ⟨trees, read, known⟩ := flat.reads
  simp only [maskPut, read]
  have puts : ∀ path mask, trees.root.maskAt path = some mask → ∃ step, path = [step] ∧ Tells items step.key mask ∧ mask ≠ [] := by
    intro path mask masked
    obtain ⟨step, same, told, given⟩ := flat.mask_mem.mp (known path mask masked)
    obtain ⟨step', rfl, rfl⟩ : ∃ step', path = [step'] ∧ step'.key = step := by
      simpa [keys, List.map_eq_singleton_iff] using same
    exact ⟨step', rfl, told, given⟩
  refine ⟨puts path mask, ?_⟩
  rintro ⟨step, rfl, told, given⟩
  have masked : (trees.root.maskOn [step]).isSome := by
    rw [(fromItems_rules read [step]).1]
    exact ⟨(keys [step], some mask), flat.mask_mem.mpr ⟨step.key, rfl, told, given⟩, rfl, List.prefix_rfl⟩
  obtain ⟨mask', found⟩ := Option.isSome_iff_exists.mp masked
  obtain ⟨above, shorter, at'⟩ := FieldNode.maskOn_eq_some.mp found
  obtain ⟨step', rfl, told', _⟩ := puts above mask' at'
  obtain ⟨rfl, _⟩ := List.cons_prefix_cons.mp shorter
  rw [at', flat.uniform _ _ _ told told']

theorem reached_iff (flat : Flat items) (path : List Step) :
    reached items path = true ↔ path = [] ∨ readable items path = true := by
  have shown := flat.readable_iff
  have puts := flat.maskPut_iff
  obtain ⟨trees, read, _⟩ := flat.reads
  simp only [reached, readable, maskPut, read] at shown puts ⊢
  cases path with
  | nil => simp [FieldNode.free, FieldNode.walk, ColumnTrees.root]
  | cons step rest =>
    rw [(fromItems_tight read).free_iff _ (by simp)]
    constructor
    · rintro ⟨noMask, tail, reads | below⟩
      · obtain ⟨step', rest', same, told⟩ := (shown _).mp reads
        obtain ⟨rfl, rfl⟩ := List.cons.inj same
        exact .inr ((shown _).mpr ⟨step, rest, rfl, told⟩)
      · obtain ⟨tail, mask, at'⟩ := FieldNode.maskAt_below noMask below
        obtain ⟨step', same, _, _⟩ := (puts _ _).mp at'
        obtain ⟨rfl, empty⟩ := List.cons.inj same
        obtain ⟨rfl, rfl⟩ := List.append_eq_nil_iff.mp empty
        rw [List.append_nil] at at'
        rw [(FieldNode.maskAt_iff.mp at').1] at noMask
        cases noMask
    · rintro (empty | reads)
      · cases empty
      · exact ⟨FieldNode.maskOn_of_free (FieldNode.free_of_reads reads), [], .inl (by rwa [List.append_nil])⟩

end Flat

/-! ## Merging plain columns -/

/-- The list names each column once. -/
def NamesOnce (items : ColumnItems) : Prop :=
  items.Pairwise fun first second => Text.ciEquals first.1 second.1 = false

/-- What merging one list into another leaves: each column once, plain where either is, else masked as
one of them has it. -/
structure Merges (a b united : ColumnItems) : Prop where
  once : NamesOnce united
  names : ∀ item ∈ united, ∃ old ∈ a ++ b, item.1 = old.1
  plain : ∀ column, Tells united column [] ↔ Tells a column [] ∨ Tells b column []
  masks : ∀ column mask, mask ≠ [] → (Tells united column mask ↔
    (Tells a column mask ∨ Tells b column mask) ∧ ¬ Tells a column [] ∧ ¬ Tells b column [])

/-- The lists put no two masks on one column. -/
private def ColumnsAgree (a b : ColumnItems) : Prop :=
  ∀ column first second, first ≠ [] → second ≠ [] → Tells a column first → Tells b column second → first = second

/-! ## Folding the roles -/

/-- A role's column list that reads the same however it is united: `ColumnTrees::From` accepts it, its
names have no blanks at their ends, and without field paths it does not both show and mask a column. -/
structure ReadsOneWay (items : ColumnItems) : Prop where
  read : ∃ trees, ColumnTrees.fromItems items = .ok trees
  columns : ColumnsTrimmed items
  names : ∀ item ∈ items, Text.trim item.1 = item.1
  uniform : hasFieldPaths items = false → ∀ first ∈ items, ∀ second ∈ items,
    Text.ciEquals first.1 second.1 = true → first.2 = second.2

/-- What is left of lists that were united one by one, whatever their order was. -/
structure UnionOf (lists : List ColumnItems) (items : ColumnItems) : Prop where
  read : ∃ trees, ColumnTrees.fromItems items = .ok trees
  columns : ColumnsTrimmed items
  names : ∀ item ∈ items, Text.trim item.1 = item.1
  once : hasFieldPaths items = false → NamesOnce items
  shown : ∀ path, readable items path = true ↔ ∃ list ∈ lists, readable list path = true
  reaches : ∀ path, path ≠ [] → (reached items path = true ↔ ∃ list ∈ lists, reached list path = true)
  masks : ∀ path mask, maskPut items path = some mask ↔
    (∃ list ∈ lists, maskPut list path = some mask) ∧ ∀ list ∈ lists, reached list path = false

/-- `Add`'s column part. -/
def joinColumns (columns list : ColumnItems) : Except BinderException ColumnItems :=
  if hasFieldPaths columns || hasFieldPaths list then uniteColumnItems columns list
  else list.foldlM (fun columns column => GrantUnion.mergeColumn column columns) columns

section

variable {lists : List ColumnItems} {items list united : ColumnItems} (union : UnionOf lists items) (reads : ReadsOneWay list)

include union

include reads

end

/-! ## Any order of the roles -/

/-- The lists of the roles that have one. -/
def columnLists (policies : List GrantPolicy) : List ColumnItems :=
  (policies.filter (·.restricts)).map (·.columns)

/-- Every list reads one way, and no two lists clash. -/
structure Orderly (policies : List GrantPolicy) : Prop where
  reads : ∀ list ∈ columnLists policies, ReadsOneWay list
  noClash : ∀ first ∈ columnLists policies, ∀ second ∈ columnLists policies, ¬ Clash first second

/-- What the fold leaves of the roles, whatever their order was. -/
structure FoldOf (policies : List GrantPolicy) (union : GrantUnion) : Prop where
  any : union.any = !policies.isEmpty
  unrestrictedRls : union.unrestrictedRls = policies.any fun policy => policy.predicate.isEmpty
  unrestrictedColumns : union.unrestrictedColumns = policies.any fun policy => !policy.restricts
  unchecked : union.unchecked = policies.any fun policy => !policy.predicate.isEmpty && policy.unchecked
  predicates : union.predicates = (policies.map (·.predicate)).filter (!·.isEmpty)
  columns : UnionOf (columnLists policies) union.columns

/-- `Add` in parts: the predicate, and then the columns of a role that has a list. -/
theorem GrantUnion.add_eq (union : GrantUnion) (policy : GrantPolicy) : union.add policy =
    (if policy.restricts then joinColumns union.columns policy.columns else .ok union.columns).map fun columns =>
      { any := true,
        unrestrictedRls := union.unrestrictedRls || policy.predicate.isEmpty,
        unrestrictedColumns := union.unrestrictedColumns || !policy.restricts,
        unchecked := union.unchecked || (!policy.predicate.isEmpty && policy.unchecked),
        predicates := union.predicates ++ [policy.predicate].filter (!·.isEmpty),
        columns } := by
  have empty : ∀ text : Text, text.isEmpty = decide (text = []) := by
    intro text
    cases text <;> rfl
  unfold GrantUnion.add joinColumns
  by_cases none : policy.predicate = [] <;> cases restricts : policy.restricts <;>
    simp only [none, empty, bind, Except.bind, pure, Except.pure, Except.map] <;> simp <;>
    (try split_ifs) <;> (try split) <;> simp_all

/-- The roles of a principal, one by one. -/
def addAll (policies : List GrantPolicy) : Except BinderException GrantUnion := policies.foldlM GrantUnion.add {}

/-- Two roles mask a position differently. -/
def MaskConflict (policies : List GrantPolicy) (path : List Step) : Prop :=
  ∃ first ∈ columnLists policies, ∃ second ∈ columnLists policies, ∃ mask mask',
    maskPut first path = some mask ∧ maskPut second path = some mask' ∧ mask ≠ mask'

/-- No role shows anything at or below the position. -/
def Unreached (policies : List GrantPolicy) (path : List Step) : Prop :=
  ∀ list ∈ columnLists policies, reached list path = false

/-- Two unions expose the same, up to the order of columns and predicates. -/
structure SameUnion (first second : GrantUnion) : Prop where
  shown : ∀ path, readable first.columns path = readable second.columns path
  masks : ∀ path, maskOf first.columns path = maskOf second.columns path
  any : first.any = second.any
  unrestrictedRls : first.unrestrictedRls = second.unrestrictedRls
  unrestrictedColumns : first.unrestrictedColumns = second.unrestrictedColumns
  restricts : first.restricts = second.restricts
  unchecked : first.isUnchecked = second.isUnchecked
  predicates : first.predicates.Perm second.predicates

/-- Two orders agree: both refused, or both through with the same union. -/
def SameOutcome : Except BinderException GrantUnion → Except BinderException GrantUnion → Prop
  | .ok first, .ok second => SameUnion first second
  | .error _, .error _ => True
  | _, _ => False

/-- A role that sees a column but for one of its fields. -/
def seesMasked : GrantPolicy :=
  { restricts := true, columns := [("c".toList, []), ("c.x".toList, "'m'".toList)], predicates := ["region = 1".toList] }

/-- A role that masks a column, or shows it. -/
def seesColumn (mask : Text) : GrantPolicy := { restricts := true, columns := [("a".toList, mask)] }

end DuckAcl
