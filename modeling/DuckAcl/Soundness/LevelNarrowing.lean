import DuckAcl.Model.GrantPolicy
import DuckAcl.Soundness.TreeIntersection

/-! # Levels only narrow

`GrantPolicy::Narrow` folds the levels of a grant chain into one list. Whether a level is folded
through its trees or, when no list names a path, column by column, the list it leaves shows what
both lists show and masks with the narrower level's mask where both mask one position. Along a
whole chain a path is shown exactly when every level that gave a list shows it.
-/

namespace DuckAcl

open AccessRules

/-- The list `result` is what `narrower` leaves of `wider`. -/
structure Narrows (wider narrower result : ColumnItems) : Prop where
  accepted : ∃ trees, ColumnTrees.fromItems result = .ok trees
  trimmed : ColumnsTrimmed result
  names : ∀ item ∈ result, Text.trim item.1 = item.1
  reads : ∀ path, readable result path = (readable wider path && readable narrower path)
  reaches : ∀ path, reached result path = true → reached wider path = true ∧ reached narrower path = true
  masks : ∀ path mask, maskPut result path = some mask →
    maskPut narrower path = some mask ∨ (maskOf narrower path = none ∧ maskPut wider path = some mask)

/-! ## Lists with field paths -/

private theorem root_eq_meetNode {wider narrower : ColumnTrees} (wf : wider.root.Wf) :
    ColumnTrees.root ⟨wider.columns.filterMap fun column => (narrower.find column.name).bind (intersectNodes column)⟩ =
      meetNode wider.root narrower.root := by
  obtain ⟨distinct, _, _, _, _⟩ := wf
  have missing : ∀ column ∈ narrower.columns.filter fun column => (wider.root.find column.name).isNone,
      (meet (wider.root.find column.name) (narrower.root.find column.name)) = none := by
    intro column member
    rw [Option.isNone_iff_eq_none.mp (List.mem_filter.mp member).2]
    rfl
  have shared : ∀ column ∈ wider.columns, meet (wider.root.find column.name) (narrower.root.find column.name) =
      (narrower.find column.name).bind (intersectNodes column) := by
    intro column member
    have found : wider.root.find column.name = some column :=
      (find?_of_distinct distinct).mpr ⟨member, Text.ciEquals_refl _⟩
    have same : narrower.root.find column.name = narrower.find column.name := rfl
    rw [found, same]
    cases narrower.find column.name <;> rfl
  have fields : (meetNode wider.root narrower.root).fields =
      wider.columns.filterMap fun column => (narrower.find column.name).bind (intersectNodes column) := by
    have split : (meetNode wider.root narrower.root).fields = (mergedNames wider.root narrower.root).filterMap
        fun name => meet (wider.root.find name) (narrower.root.find name) := by
      refine List.filterMap_congr fun name _ => ?_
      rw [childOrWhole_root, childOrWhole_root]
      exact filter_keepMerged_false _
    rw [split, mergedNames, List.filterMap_append, List.filterMap_map, List.filterMap_map]
    have rest : (List.filter (fun column => (wider.root.find column.name).isNone) narrower.root.fields).filterMap
        ((fun name => meet (wider.root.find name) (narrower.root.find name)) ∘ FieldNode.name) = [] := by
      rw [List.filterMap_eq_nil_iff]
      exact missing
    rw [rest, List.append_nil]
    exact List.filterMap_congr shared
  rw [ColumnTrees.root, ← fields]
  rfl

private theorem meetNode_root_cases {a b : FieldNode} (plainA : a.masked = false) (plainB : b.masked = false) :
    (meetNode a b).empty = true ∨ intersectNodes a b = some (meetNode a b) := by
  rw [intersectNodes_plain plainA plainB]
  split_ifs with empty
  · exact .inl empty
  · exact .inr rfl

section

variable {wider narrower : ColumnTrees} (soundA : wider.Sound) (soundB : narrower.Sound)

/-- The trees `IntersectColumnItems` writes. -/
def meetTrees (wider narrower : ColumnTrees) : ColumnTrees :=
  ⟨wider.columns.filterMap fun column => (narrower.find column.name).bind (intersectNodes column)⟩

private theorem mem_meetTrees {column : FieldNode} (member : column ∈ (meetTrees wider narrower).columns) :
    ∃ first ∈ wider.columns, ∃ second ∈ narrower.columns, Text.ciEquals second.name first.name = true ∧
      intersectNodes first second = some column := by
  obtain ⟨first, inside, built⟩ := List.mem_filterMap.mp member
  obtain ⟨second, found, met⟩ := Option.bind_eq_some_iff.mp built
  have same := List.find?_some found
  exact ⟨first, inside, second, List.mem_of_find?_eq_some found, same, met⟩

include soundA soundB

private theorem meetTrees_sound : (meetTrees wider narrower).Sound := by
  have formed {column : FieldNode} (member : column ∈ (meetTrees wider narrower).columns) :
      column.Wf ∧ column.Named := by
    obtain ⟨first, inA, second, inB, _, met⟩ := mem_meetTrees member
    obtain ⟨⟨_, _, _, fieldsA, _⟩, namedA, _⟩ := soundA
    obtain ⟨⟨_, _, _, fieldsB, _⟩, namedB, _⟩ := soundB
    exact intersectNodes_formed ⟨fieldsA first inA, namedA first inA⟩ ⟨fieldsB second inB, namedB second inB⟩ column met
  refine ⟨.mk ?_ nofun nofun (fun column member => (formed member).1) nofun, fun column member => (formed member).2, ?_⟩
  · obtain ⟨distinct, _, _, _, _⟩ := soundA.wf
    refine List.pairwise_filterMap.mpr (distinct.imp fun apart first builtFirst second builtSecond => ?_)
    obtain ⟨_, _, metFirst⟩ := Option.bind_eq_some_iff.mp builtFirst
    obtain ⟨_, _, metSecond⟩ := Option.bind_eq_some_iff.mp builtSecond
    rw [intersectNodes_name metFirst, intersectNodes_name metSecond]
    exact apart
  · intro column member nameless
    obtain ⟨first, inA, second, inB, same, met⟩ := mem_meetTrees member
    rw [intersectNodes_name met] at nameless
    rw [nameless, Text.ciEquals_iff] at same
    exact intersectNodes_childless (soundA.nameless first inA nameless)
      (soundB.nameless second inB (Text.fold_eq_nil.mp same)) met

omit soundA soundB in
private theorem meetTrees_trimmed (trimmedA : wider.Trimmed) (trimmedB : narrower.Trimmed) :
    (meetTrees wider narrower).Trimmed := by
  intro column member marked
  obtain ⟨first, inA, second, inB, same, met⟩ := mem_meetTrees member
  rw [intersectNodes_name met]
  rcases intersectNodes_marked met marked with wasMarked | wasMarked
  · exact trimmedA first inA wasMarked
  · exact Text.trim_eq_self_of_ciEquals same (trimmedB second inB wasMarked)

end

/-- Narrowing through the trees. -/
theorem intersectColumnItems_narrows {wider narrower : ColumnItems}
    (acceptedWider : ∃ trees, ColumnTrees.fromItems wider = .ok trees)
    (acceptedNarrower : ∃ trees, ColumnTrees.fromItems narrower = .ok trees)
    (trimmedWider : ColumnsTrimmed wider) (trimmedNarrower : ColumnsTrimmed narrower) :
    ∃ result, intersectColumnItems wider narrower = .ok result ∧ Narrows wider narrower result := by
  obtain ⟨a, readA⟩ := acceptedWider
  obtain ⟨b, readB⟩ := acceptedNarrower
  have ran : intersectColumnItems wider narrower = .ok (meetTrees a b).items := by
    simp only [intersectColumnItems, readA, readB, bind, Except.bind, pure, Except.pure]
    rfl
  have soundA := fromItems_sound readA
  have soundB := fromItems_sound readB
  have tightA := fromItems_tight readA
  have tightB := fromItems_tight readB
  have sound := meetTrees_sound soundA soundB
  have trimmed := meetTrees_trimmed (fromItems_trimmed readA trimmedWider) (fromItems_trimmed readB trimmedNarrower)
  have root : (meetTrees a b).root = meetNode a.root b.root := root_eq_meetNode soundA.wf
  have shape : (meetNode a.root b.root).empty = true ∨ intersectNodes a.root b.root = some (meetNode a.root b.root) :=
    meetNode_root_cases rfl rfl
  have tight : (meetTrees a b).root.Tight := by
    rw [root]
    rcases shape with empty | found
    · exact FieldNode.tight_of_empty empty
    · exact (intersectNodes_tight soundA.wf soundB.wf tightA tightB found).1
  have reads (path : List Step) : (meetTrees a b).root.reads path = (a.root.reads path && b.root.reads path) := by
    rw [root, ← readsSide_plain rfl rfl]
    exact intersectNodes_reads soundA.wf soundB.wf tightA tightB path
  obtain ⟨reread, read, kept, walk⟩ := fromItems_items sound trimmed
  have rereads (path : List Step) : reread.root.reads path = (meetTrees a b).root.reads path := by
    rw [Bool.eq_iff_iff, (walk path).2, tight.reads_iff]
  refine ⟨_, ran, ⟨reread, read⟩, kept, items_names_trimmed sound trimmed, ?_, ?_, ?_⟩
  · intro path
    simp only [readable, readA, readB, read]
    rw [rereads, reads]
  · intro path isReached
    simp only [reached, readA, readB, read] at isReached ⊢
    cases path with
    | nil => exact ⟨rfl, rfl⟩
    | cons step path =>
      rw [(fromItems_tight read).free_iff (step :: path) nofun, (walk _).1] at isReached
      simp only [rereads, (walk _).1] at isReached
      rw [← tight.free_iff (step :: path) nofun, root] at isReached
      rcases shape with empty | found
      · have missing := FieldNode.child_of_empty empty step
        obtain ⟨name, equal⟩ := (meetNode a.root b.root).childOr_eq step
        rw [FieldNode.free, FieldNode.walk_cons rfl, equal, missing] at isReached
        cases isReached
      · exact intersectNodes_free soundA.wf soundB.wf tightA tightB found isReached
  · intro path mask masked
    simp only [maskPut, maskOf, readA, readB, read] at masked ⊢
    rw [FieldNode.maskAt_iff] at masked
    simp only [(walk _).1] at masked
    rw [← FieldNode.maskAt_iff, root] at masked
    rcases shape with empty | found
    · rw [FieldNode.maskAt_iff, (FieldNode.empty_walk empty path).2] at masked
      cases masked.1
    · exact intersectNodes_maskAt soundA.wf soundB.wf found masked

/-! ## Lists of columns only -/

/-- A list of columns: no item is a path, and every name is trimmed, as a parsed list has it. -/
structure PlainList (items : ColumnItems) : Prop where
  noPaths : hasFieldPaths items = false
  names : ∀ item ∈ items, Text.trim item.1 = item.1

theorem PlainList.steps {items : ColumnItems} (plain : PlainList items) {item : Text × Text} (member : item ∈ items) :
    itemSteps item = [.field item.1] := by
  have notPath : ColumnTrees.looksLikePath item.1 = false := by
    have := List.any_eq_false.mp plain.noPaths item member
    rw [plain.names item member] at this
    exact Bool.eq_false_iff.mpr this
  simp [itemSteps, ColumnTrees.itemPath, plain.names item member, notPath]

private theorem PlainList.above {items : ColumnItems} (plain : PlainList items) {item : Text × Text}
    (member : item ∈ items) {path : List Step} : (itemRule item).1 <+: keys path ↔
      ∃ name rest, path = .field name :: rest ∧ Text.ciEquals item.1 name = true := by
  rw [itemRule, plain.steps member]
  constructor
  · intro shorter
    cases path with
    | nil => simp [ruleOf] at shorter
    | cons step rest =>
      obtain ⟨same, _⟩ := List.cons_prefix_cons.mp shorter
      cases step with
      | element => cases same
      | field name => exact ⟨name, rest, rfl, Step.key_field_eq.mp same⟩
  · rintro ⟨name, rest, rfl, same⟩
    exact List.cons_prefix_cons.mpr ⟨Step.key_field_eq.mpr same, List.nil_prefix⟩

/-- What an accepted list of columns masks and shows: a column some item masks, and a column items
name without masking it. -/
theorem PlainList.walk {items : ColumnItems} {trees : ColumnTrees} (plain : PlainList items)
    (read : ColumnTrees.fromItems items = .ok trees) (path : List Step) :
    ((trees.root.maskOn path).isSome ↔ ∃ name rest, path = .field name :: rest ∧
        ∃ item ∈ items, Text.ciEquals item.1 name = true ∧ item.2 ≠ []) ∧
      (trees.root.reads path = true ↔ ∃ name rest, path = .field name :: rest ∧
        (∃ item ∈ items, Text.ciEquals item.1 name = true) ∧
          ∀ item ∈ items, Text.ciEquals item.1 name = true → item.2 = []) := by
  obtain ⟨masks, reads⟩ := fromItems_rules read path
  have masked : Masks (items.map itemRule) (keys path) ↔ ∃ name rest, path = .field name :: rest ∧
      ∃ item ∈ items, Text.ciEquals item.1 name = true ∧ item.2 ≠ [] := by
    constructor
    · rintro ⟨_, inside, given, shorter⟩
      obtain ⟨item, member, rfl⟩ := List.mem_map.mp inside
      obtain ⟨name, rest, rfl, same⟩ := (plain.above member).mp shorter
      refine ⟨name, rest, rfl, item, member, same, fun bare => ?_⟩
      simp [itemRule, ruleOf, bare] at given
    · rintro ⟨name, rest, rfl, item, member, same, given⟩
      exact ⟨_, List.mem_map_of_mem member, by simp [itemRule, ruleOf, given],
        (plain.above member).mpr ⟨name, rest, rfl, same⟩⟩
  refine ⟨masks.trans masked, reads.trans ?_⟩
  rw [Shows, masked]
  constructor
  · rintro ⟨⟨_, inside, given, shorter⟩, unmasked⟩
    obtain ⟨item, member, rfl⟩ := List.mem_map.mp inside
    obtain ⟨name, rest, rfl, same⟩ := (plain.above member).mp shorter
    refine ⟨name, rest, rfl, ⟨item, member, same⟩, fun other isItem sameName => ?_⟩
    by_contra bare
    exact unmasked ⟨name, rest, rfl, other, isItem, sameName, bare⟩
  · rintro ⟨name, rest, rfl, ⟨item, member, same⟩, bare⟩
    refine ⟨⟨_, List.mem_map_of_mem member, ?_, (plain.above member).mpr ⟨name, rest, rfl, same⟩⟩, ?_⟩
    · simp [itemRule, ruleOf, bare item member same]
    · rintro ⟨name', rest', equal, other, isItem, sameName, given⟩
      obtain ⟨rfl, _⟩ : name = name' ∧ rest = rest' := by simpa using equal
      exact given (bare other isItem sameName)

/-- A column's mask stays through the later items of its list. -/
private theorem insertItem_keeps {trees after : ColumnTrees} {item : Text × Text} {name mask : Text}
    (ran : trees.insertItem item = .ok after) (masked : trees.root.maskAt [.field name] = some mask) :
    after.root.maskAt [.field name] = some mask := by
  obtain ⟨_, _, blank, new, inserted, children⟩ := insertPath_cons rfl (insertItem_ok.mp ran)
  rw [FieldNode.maskAt_cons rfl, Option.bind_eq_some_iff] at masked
  obtain ⟨column, found, here⟩ := masked
  rw [FieldNode.maskAt_cons rfl, children]
  split_ifs with same
  · rw [FieldNode.child_congr _ same, found, Option.getD_some] at inserted
    simp only [FieldNode.maskAt, Option.ite_none_right_eq_some, Option.some.injEq] at here
    obtain ⟨isMasked, rfl⟩ := here
    have kept : new.masked = true ∧ new.mask = column.mask := by
      cases steps : (ColumnTrees.itemPath item.1).steps with
      | nil =>
        rw [steps] at inserted
        simp only [insertPath] at inserted
        split_ifs at inserted with given clash
        · cases inserted
          simp only [isMasked, ne_eq, true_and, Decidable.not_not] at clash
          exact ⟨rfl, clash.symm⟩
        · cases inserted
          exact ⟨isMasked, rfl⟩
      | cons step rest =>
        rw [steps] at inserted
        cases step <;> simp only [insertPath, isMasked, ↓reduceIte] at inserted <;> cases inserted <;>
          exact ⟨isMasked, rfl⟩
    simp [FieldNode.maskAt, kept]
  · rw [found]
    exact here

private theorem insertItem_puts {trees after : ColumnTrees} {item : Text × Text} {name : Text}
    (steps : itemSteps item = [.field name]) (given : item.2 ≠ []) (ran : trees.insertItem item = .ok after) :
    after.root.maskAt [.field name] = some item.2 := by
  have inserted := insertItem_ok.mp ran
  rw [steps] at inserted
  obtain ⟨_, _, blank, new, inserted, children⟩ := insertPath_cons rfl inserted
  rw [FieldNode.maskAt_cons rfl, children]
  simp only [insertPath, given, ne_eq, not_false_eq_true, ↓reduceIte] at inserted
  split_ifs at inserted
  cases inserted
  simp [FieldNode.maskAt]

private theorem insertItems_puts {items : ColumnItems} {trees after : ColumnTrees}
    (ran : items.foldlM ColumnTrees.insertItem trees = .ok after) {item : Text × Text} (member : item ∈ items)
    {name : Text} (steps : itemSteps item = [.field name]) (given : item.2 ≠ []) :
    after.root.maskAt [.field name] = some item.2 := by
  have keeps {items : ColumnItems} {trees after : ColumnTrees} {mask : Text}
      (ran : items.foldlM ColumnTrees.insertItem trees = .ok after)
      (masked : trees.root.maskAt [.field name] = some mask) : after.root.maskAt [.field name] = some mask := by
    induction items generalizing trees with
    | nil =>
      cases ran
      exact masked
    | cons first items ih =>
      simp only [List.foldlM_cons, bind, Except.bind] at ran
      split at ran
      · cases ran
      · rename_i next inserted
        exact ih ran (insertItem_keeps inserted masked)
  induction items generalizing trees with
  | nil => cases member
  | cons first items ih =>
    simp only [List.foldlM_cons, bind, Except.bind] at ran
    split at ran
    · cases ran
    · rename_i next inserted
      rcases List.mem_cons.mp member with rfl | member
      · exact keeps ran (insertItem_puts steps given inserted)
      · exact ih ran member

/-- Every mask of an accepted list of columns is the mask of its column. -/
theorem PlainList.puts {items : ColumnItems} {trees : ColumnTrees} (plain : PlainList items)
    (read : ColumnTrees.fromItems items = .ok trees) {item : Text × Text} (member : item ∈ items) (given : item.2 ≠ []) :
    trees.root.maskAt [.field item.1] = some item.2 := by
  obtain ⟨inserted, folded, sound, rfl⟩ := fromItems_split read
  rw [FieldNode.maskAt_iff]
  simp only [(root_simplify inserted _ sound).1]
  rw [← FieldNode.maskAt_iff]
  exact insertItems_puts folded member (plain.steps member) given

/-- A list of columns never names a column bare before it masks it. -/
def MaskedFirst (items : ColumnItems) : Prop :=
  hasFieldPaths items = false → ∀ item ∈ items, item.2 ≠ [] →
    ∀ first ∈ items.find? fun other => Text.ciEquals item.1 other.1, first.2 ≠ []

section

variable {wider narrower : ColumnItems} {a b : ColumnTrees} (plainA : PlainList wider) (plainB : PlainList narrower)
  (readA : ColumnTrees.fromItems wider = .ok a) (readB : ColumnTrees.fromItems narrower = .ok b)
  (maskedFirst : MaskedFirst narrower)

open GrantPolicy

private theorem mem_intersectPlain {item : Text × Text} : item ∈ intersectPlain wider narrower ↔
    ∃ column ∈ wider, ∃ first, narrower.find? (fun other => Text.ciEquals column.1 other.1) = some first ∧
      item = (column.1, if first.2 = [] then column.2 else first.2) := by
  simp only [intersectPlain, List.mem_filterMap, Option.map_eq_some_iff]
  constructor
  · rintro ⟨column, member, first, found, rfl⟩
    exact ⟨column, member, first, found, rfl⟩
  · rintro ⟨column, member, first, found, rfl⟩
    exact ⟨column, member, first, found, rfl⟩

/-- The narrower item for a column depends on its name only up to case. -/
private theorem find_narrower {m n : Text} (same : Text.ciEquals m n = true) :
    (narrower.find? fun other => Text.ciEquals m other.1) = narrower.find? fun other => Text.ciEquals n other.1 := by
  simp only [Text.ciEquals_congr_left same]

include plainA

private theorem intersectPlain_plain : PlainList (intersectPlain wider narrower) := by
  constructor
  · refine List.any_eq_false.mpr fun item member => ?_
    obtain ⟨column, inside, _, _, rfl⟩ := mem_intersectPlain.mp member
    exact List.any_eq_false.mp plainA.noPaths column inside
  · intro item member
    obtain ⟨column, inside, _, _, rfl⟩ := mem_intersectPlain.mp member
    exact plainA.names column inside

include readA

private theorem intersectPlain_accepted :
    ∃ trees, ColumnTrees.fromItems (intersectPlain wider narrower) = .ok trees := by
  have plain : PlainList (intersectPlain wider narrower) := intersectPlain_plain plainA
  have consistent : Consistent ((intersectPlain wider narrower).map itemRule) := by
    intro path m n isFirst isSecond
    obtain ⟨left, inLeft, leftRule⟩ := List.mem_map.mp isFirst
    obtain ⟨right, inRight, rightRule⟩ := List.mem_map.mp isSecond
    rw [itemRule, plain.steps inLeft] at leftRule
    rw [itemRule, plain.steps inRight] at rightRule
    simp only [ruleOf, Prod.mk.injEq, Option.ite_none_left_eq_some, Option.some.injEq] at leftRule rightRule
    obtain ⟨rfl, givenLeft, rfl⟩ := leftRule
    obtain ⟨sameKeys, givenRight, rfl⟩ := rightRule
    have same : Text.ciEquals right.1 left.1 = true := by
      rw [keys_cons, keys_cons, List.cons.injEq] at sameKeys
      exact Step.key_field_eq.mp sameKeys.1
    obtain ⟨column, inside, first, found, rfl⟩ := mem_intersectPlain.mp inLeft
    obtain ⟨column', inside', first', found', rfl⟩ := mem_intersectPlain.mp inRight
    rw [find_narrower same, found] at found'
    cases found'
    dsimp only at givenLeft givenRight same ⊢
    split_ifs at givenLeft givenRight ⊢
    · have left := plainA.puts readA inside givenLeft
      have right := plainA.puts readA inside' givenRight
      rw [FieldNode.maskAt_congr sameKeys, left] at right
      exact Option.some.inj right
    · rfl
  have blank : ∀ path mask, (ColumnTrees.root {}).maskAt path = some mask →
      (keys path, some mask) ∈ (intersectPlain wider narrower).map itemRule := by
    intro path mask masked
    rcases path with _ | ⟨_ | _, path⟩ <;> cases masked
  obtain ⟨inserted, folded, _⟩ :=
    insertItems_succeeds consistent (fun item member => List.mem_map_of_mem member) blank
  exact ⟨⟨inserted.columns.map simplify⟩, by simp [ColumnTrees.fromItems, folded, bind, Except.bind, pure, Except.pure]⟩

include plainB readB maskedFirst

private theorem intersectPlain_reads {trees : ColumnTrees}
    (read : ColumnTrees.fromItems (intersectPlain wider narrower) = .ok trees) (path : List Step) :
    trees.root.reads path = (a.root.reads path && b.root.reads path) := by
  have plain : PlainList (intersectPlain wider narrower) := intersectPlain_plain plainA
  rw [Bool.eq_iff_iff, Bool.and_eq_true, (plain.walk read path).2, (plainA.walk readA path).2,
    (plainB.walk readB path).2]
  constructor
  · rintro ⟨name, rest, rfl, ⟨item, member, same⟩, bare⟩
    obtain ⟨column, inside, first, found, rfl⟩ := mem_intersectPlain.mp member
    have firstBare : first.2 = [] := by
      have none' := bare _ member same
      split_ifs at none' with firstNone
      · exact firstNone
      · exact none'
    have foundSame : Text.ciEquals first.1 name = true := by
      have named := List.find?_some found
      exact Text.ciEquals_trans (Text.ciEquals_symm named) same
    refine ⟨⟨name, rest, rfl, ⟨column, inside, same⟩, ?_⟩, ⟨name, rest, rfl, ⟨first, ?_, foundSame⟩, ?_⟩⟩
    · intro other isColumn sameName
      have found' := found
      rw [find_narrower (Text.ciEquals_trans same (Text.ciEquals_symm sameName))] at found'
      have inResult := mem_intersectPlain.mpr ⟨other, isColumn, first, found', rfl⟩
      have none' := bare _ inResult sameName
      simpa [firstBare] using none'
    · exact List.mem_of_find?_eq_some found
    · intro other isItem sameName
      by_contra given
      rw [find_narrower (Text.ciEquals_trans same (Text.ciEquals_symm sameName))] at found
      exact maskedFirst plainB.noPaths other isItem given first found firstBare
  · rintro ⟨⟨name, rest, rfl, ⟨column, inside, same⟩, bareA⟩, ⟨name', rest', equal, ⟨item, member, sameItem⟩, bareB⟩⟩
    obtain ⟨rfl, rfl⟩ : name = name' ∧ rest = rest' := by simpa using equal
    have present : (narrower.find? fun other => Text.ciEquals column.1 other.1).isSome := by
      rw [List.find?_isSome]
      exact ⟨item, member, Text.ciEquals_trans same (Text.ciEquals_symm sameItem)⟩
    obtain ⟨first, found⟩ := Option.isSome_iff_exists.mp present
    refine ⟨name, rest, rfl, ⟨_, mem_intersectPlain.mpr ⟨column, inside, first, found, rfl⟩, same⟩, ?_⟩
    intro other isResult sameName
    obtain ⟨column', inside', first', found', rfl⟩ := mem_intersectPlain.mp isResult
    have named := List.find?_some found'
    have bare' : first'.2 = [] := bareB first' (List.mem_of_find?_eq_some found')
      (Text.ciEquals_trans (Text.ciEquals_symm named) sameName)
    simpa [bare'] using bareA column' inside' sameName

/-- Narrowing column by column. -/
theorem intersectPlain_narrows : Narrows wider narrower (intersectPlain wider narrower) := by
  have plain : PlainList (intersectPlain wider narrower) := intersectPlain_plain plainA
  obtain ⟨trees, read⟩ : ∃ trees, ColumnTrees.fromItems (intersectPlain wider narrower) = .ok trees :=
    intersectPlain_accepted plainA readA
  have reads := intersectPlain_reads plainA plainB readA readB maskedFirst read
  refine ⟨⟨trees, read⟩, ?_, plain.names, ?_, ?_, ?_⟩
  · intro item member _
    have steps := plain.steps member
    simp only [itemSteps, List.cons.injEq, Step.field.injEq] at steps
    rw [steps.1]
    exact plain.names item member
  · intro path
    simp only [readable, readA, readB, read]
    exact reads path
  · intro path isReached
    simp only [reached, readA, readB, read] at isReached ⊢
    cases path with
    | nil => exact ⟨rfl, rfl⟩
    | cons step path =>
      -- what a list of columns says of a path it says of the column
      rw [(fromItems_tight read).free_iff (step :: path) (fun empty => absurd empty (List.cons_ne_nil _ _))] at isReached
      obtain ⟨noMask, rest, told⟩ := isReached
      have shown : trees.root.reads (step :: path) = true := by
        rcases told with shown | masked
        · obtain ⟨name, _, equal, named⟩ := ((plain.walk read _).2).mp shown
          obtain ⟨rfl, _⟩ : step = .field name ∧ _ := by simpa using equal
          exact ((plain.walk read _).2).mpr ⟨name, path, rfl, named⟩
        · obtain ⟨name, _, equal, named⟩ := ((plain.walk read _).1).mp masked
          obtain ⟨rfl, _⟩ : step = .field name ∧ _ := by simpa using equal
          have here := ((plain.walk read (.field name :: path)).1).mpr ⟨name, path, rfl, named⟩
          rw [noMask] at here
          cases here
      rw [reads, Bool.and_eq_true] at shown
      exact ⟨FieldNode.free_of_reads shown.1, FieldNode.free_of_reads shown.2⟩
  · intro path mask masked
    simp only [maskPut, maskOf, readA, readB, read] at masked ⊢
    obtain ⟨here, strict⟩ := FieldNode.maskAt_iff.mp masked
    obtain ⟨name, rest, rfl, item, member, same, given⟩ := ((plain.walk read path).1).mp (by rw [here]; rfl)
    obtain rfl : rest = [] := by
      by_contra longer
      have above := strict [.field name] (List.cons_prefix_cons.mpr ⟨rfl, List.nil_prefix⟩) (by simpa using Ne.symm longer)
      have masked' := ((plain.walk read [.field name]).1).mpr ⟨name, [], rfl, item, member, same, given⟩
      rw [above] at masked'
      cases masked'
    have at' {column : Text × Text} {trees : ColumnTrees} (same : Text.ciEquals column.1 name = true)
        (put : trees.root.maskAt [.field column.1] = some column.2) :
        trees.root.maskAt [.field name] = some column.2 := by
      have sameKeys : keys [.field column.1] = keys [.field name] := by
        rw [keys_cons, keys_cons, Step.key_field_eq.mpr same]
      rw [← FieldNode.maskAt_congr sameKeys]
      exact put
    rw [at' same (plain.puts read member given)] at masked
    obtain rfl := Option.some.inj masked
    obtain ⟨column, inside, first, found, rfl⟩ := mem_intersectPlain.mp member
    have named := List.find?_some found
    dsimp only at given same ⊢
    split_ifs at given ⊢ with firstBare
    · refine .inr ⟨?_, at' same (plainA.puts readA inside given)⟩
      rw [← Option.not_isSome_iff_eq_none]
      intro masked
      obtain ⟨name', _, equal, other, isItem, sameName, givenOther⟩ := ((plainB.walk readB _).1).mp masked
      obtain ⟨rfl, _⟩ : name = name' ∧ _ := by simpa using equal
      rw [find_narrower (Text.ciEquals_trans same (Text.ciEquals_symm sameName))] at found
      exact maskedFirst plainB.noPaths other isItem givenOther first found firstBare
    · exact .inl (at' (Text.ciEquals_trans (Text.ciEquals_symm named) same)
        (plainB.puts readB (List.mem_of_find?_eq_some found) firstBare))

end

/-! ## A chain of levels -/

/-- The list a level gives. -/
def GrantLevel.items (level : GrantLevel) : ColumnItems := parseColumnList level.columnCsv

/-- A level `ColumnTrees::From` accepts, that names its columns without outer blanks and masks a
column before it names it bare. -/
structure GrantLevel.WellGiven (level : GrantLevel) : Prop where
  accepted : ∃ trees, ColumnTrees.fromItems level.items = .ok trees
  trimmed : ColumnsTrimmed level.items
  maskedFirst : MaskedFirst level.items

/-- A path read through a policy: everything, unless some level gave a list. -/
def GrantPolicy.reads (policy : GrantPolicy) (path : List Step) : Bool :=
  !policy.restricts || readable policy.columns path

/-- What a folded policy keeps of the lists it has seen. -/
structure Folded (policy : GrantPolicy) (seen : List ColumnItems) : Prop where
  restricts : policy.restricts = true
  accepted : ∃ trees, ColumnTrees.fromItems policy.columns = .ok trees
  trimmed : ColumnsTrimmed policy.columns
  names : ∀ item ∈ policy.columns, Text.trim item.1 = item.1
  reads : ∀ path, readable policy.columns path = true ↔ ∀ items ∈ seen, readable items path = true
  reaches : ∀ path, reached policy.columns path = true → ∀ items ∈ seen, reached items path = true
  masks : ∀ path mask, maskPut policy.columns path = some mask →
    (seen.filterMap (maskOf · path)).getLast? = some mask

private theorem maskOf_of_rereads {items : ColumnItems} {path : List Step} {mask : Text}
    (put : maskPut items path = some mask) : maskOf items path = some mask := by
  rw [maskPut] at put
  rw [maskOf]
  split at put
  · exact (FieldNode.maskAt_iff.mp put).1
  · cases put

/-- The first list of a chain stands as it is given. -/
private theorem folded_first {policy : GrantPolicy} {level : GrantLevel} (given : level.WellGiven)
    (restricts : policy.restricts = true) (columns : policy.columns = level.items) :
    Folded policy [level.items] := by
  refine ⟨restricts, ?_, ?_, ?_, ?_, ?_, ?_⟩ <;> rw [columns]
  · exact given.accepted
  · exact given.trimmed
  · exact parseColumnList_trimmed _
  · simp
  · simp
  · intro path mask put
    simp [maskOf_of_rereads put]

/-- A further list narrows what the chain has folded so far. -/
private theorem folded_next {policy next : GrantPolicy} {seen : List ColumnItems} {level : ColumnItems}
    (folded : Folded policy seen) (restricts : next.restricts = true)
    (narrows : Narrows policy.columns level next.columns) : Folded next (seen ++ [level]) := by
  refine ⟨restricts, narrows.accepted, narrows.trimmed, narrows.names, ?_, ?_, ?_⟩
  · intro path
    rw [narrows.reads, Bool.and_eq_true, folded.reads]
    simp [or_imp, forall_and]
  · intro path isReached
    obtain ⟨before, now⟩ := narrows.reaches path isReached
    intro items member
    rcases List.mem_append.mp member with inside | inside
    · exact folded.reaches path before items inside
    · rw [List.mem_singleton.mp inside]
      exact now
  · intro path mask put
    rw [List.filterMap_append, List.getLast?_append]
    rcases narrows.masks path mask put with now | ⟨none', before⟩
    · simp [maskOf_of_rereads now]
    · simp [none', folded.masks path mask before]

/-- A policy that has folded the lists `seen`, or none yet. -/
def FoldedAll (policy : GrantPolicy) (seen : List ColumnItems) : Prop :=
  (seen = [] ∧ policy.restricts = false ∧ policy.columns = []) ∨ Folded policy seen

private theorem narrowColumns_folded {policy : GrantPolicy} {seen : List ColumnItems} {level : GrantLevel}
    (given : level.WellGiven) (before : FoldedAll policy seen) :
    ∃ next, policy.narrowColumns level.items = .ok next ∧
      FoldedAll next (seen ++ [level.items].filter (· ≠ [])) := by
  rw [GrantPolicy.narrowColumns]
  by_cases silent : level.items = []
  · refine ⟨policy, by simp [silent], ?_⟩
    simpa [silent] using before
  · have kept : [level.items].filter (· ≠ []) = [level.items] := by simp [silent]
    rw [kept, if_neg silent]
    rcases before with ⟨rfl, unrestricted, _⟩ | folded
    · rw [if_pos unrestricted]
      exact ⟨_, rfl, .inr (folded_first given rfl rfl)⟩
    · rw [if_neg (by simp [folded.restricts])]
      split_ifs with paths
      · obtain ⟨result, ran, narrows⟩ :=
          intersectColumnItems_narrows folded.accepted given.accepted folded.trimmed given.trimmed
        simp only [ran, bind, Except.bind, pure, Except.pure]
        exact ⟨_, rfl, .inr (folded_next folded folded.restricts narrows)⟩
      · simp only [Bool.or_eq_true, not_or, Bool.not_eq_true] at paths
        obtain ⟨trees, readA⟩ := folded.accepted
        obtain ⟨trees', readB⟩ := given.accepted
        have narrows := intersectPlain_narrows ⟨paths.1, folded.names⟩ ⟨paths.2, parseColumnList_trimmed _⟩ readA
          readB given.maskedFirst
        exact ⟨_, rfl, .inr (folded_next folded folded.restricts narrows)⟩

/-- One level of a chain. -/
private theorem narrow_folded {policy : GrantPolicy} {seen : List ColumnItems} {level : GrantLevel}
    (given : level.WellGiven) (before : FoldedAll policy seen) :
    ∃ next, policy.narrow level.rls level.columnCsv level.rlsChecked = .ok next ∧
      FoldedAll next (seen ++ [level.items].filter (· ≠ [])) := by
  rw [GrantPolicy.narrow]
  apply narrowColumns_folded given
  split_ifs
  · exact before
  · -- the predicates are not part of what the lists say
    rcases before with ⟨none', unrestricted⟩ | ⟨restricts, accepted, trimmed, names, reads, reaches, masks⟩
    · exact .inl ⟨none', unrestricted⟩
    · exact .inr ⟨restricts, accepted, trimmed, names, reads, reaches, masks⟩

private theorem foldlM_folded {levels : List GrantLevel} {policy : GrantPolicy} {seen : List ColumnItems}
    (given : ∀ level ∈ levels, level.WellGiven) (before : FoldedAll policy seen) :
    ∃ next, levels.foldlM (fun policy level => policy.narrow level.rls level.columnCsv level.rlsChecked) policy =
        .ok next ∧ FoldedAll next (seen ++ (levels.map GrantLevel.items).filter (· ≠ [])) := by
  induction levels generalizing policy seen with
  | nil => exact ⟨policy, rfl, by simpa using before⟩
  | cons level levels ih =>
    obtain ⟨middle, ran, folded⟩ := narrow_folded (given level (List.mem_cons_self ..)) before
    obtain ⟨next, rest, all⟩ := ih (fun other member => given other (List.mem_cons_of_mem _ member)) folded
    refine ⟨next, ?_, ?_⟩
    · simp only [List.foldlM_cons, ran, bind, Except.bind]
      exact rest
    · rw [List.map_cons, List.append_assoc, ← List.filter_append] at *
      exact all

/-- The list of the last level that masks a path. -/
def lastMask (levels : List GrantLevel) (path : List Step) : Option Text :=
  (levels.filterMap fun level => maskOf level.items path).getLast?

private theorem maskOf_nil (path : List Step) : maskOf [] path = none := by
  rcases path with _ | ⟨_ | _, path⟩ <;> rfl

private theorem filterMap_silent (levels : List GrantLevel) (path : List Step) :
    ((levels.map GrantLevel.items).filter (· ≠ [])).filterMap (maskOf · path) =
      levels.filterMap fun level => maskOf level.items path := by
  induction levels with
  | nil => rfl
  | cons level levels ih =>
    rw [List.map_cons, List.filter_cons, List.filterMap_cons]
    by_cases silent : level.items = []
    · simp only [silent, ne_eq, not_true_eq_false, decide_false, Bool.false_eq_true, ↓reduceIte, maskOf_nil]
      exact ih
    · simp only [silent, ne_eq, not_false_eq_true, decide_true, ↓reduceIte, List.filterMap_cons, ih]

private theorem FoldedAll.reads {policy : GrantPolicy} {levels : List GrantLevel}
    (folded : FoldedAll policy ((levels.map GrantLevel.items).filter (· ≠ []))) (path : List Step) :
    policy.reads path = true ↔ ∀ level ∈ levels, level.items ≠ [] → readable level.items path = true := by
  have spread : (∀ items ∈ (levels.map GrantLevel.items).filter (· ≠ []), readable items path = true) ↔
      ∀ level ∈ levels, level.items ≠ [] → readable level.items path = true := by
    simp only [List.mem_filter, List.mem_map, decide_eq_true_eq, and_imp, forall_exists_index,
      forall_apply_eq_imp_iff₂]
  rw [← spread, GrantPolicy.reads]
  rcases folded with ⟨none', unrestricted, _⟩ | folded
  · rw [none', unrestricted]
    simp
  · rw [folded.restricts, Bool.not_true, Bool.false_or]
    exact folded.reads path

private theorem FoldedAll.masks {policy : GrantPolicy} {levels : List GrantLevel}
    (folded : FoldedAll policy ((levels.map GrantLevel.items).filter (· ≠ []))) {path : List Step} {mask : Text}
    (masked : maskOf policy.columns path = some mask) : ∃ above, above <+: path ∧
      (∀ level ∈ levels, ∀ shorter, shorter <+: above → shorter ≠ above → maskOf level.items shorter = none) ∧
      lastMask levels above = some mask := by
  rcases folded with ⟨_, _, bare⟩ | folded
  · rw [bare, maskOf_nil] at masked
    cases masked
  · obtain ⟨trees, read⟩ := folded.accepted
    simp only [maskOf, read] at masked
    obtain ⟨above, shorter, put⟩ := FieldNode.maskOn_eq_some.mp masked
    have last := folded.masks above mask (by simpa only [maskPut, read] using put)
    rw [filterMap_silent] at last
    refine ⟨above, shorter, ?_, last⟩
    intro level member inner isPrefix strict
    by_cases silent : level.items = []
    · rw [silent, maskOf_nil]
    · have free : reached policy.columns inner = true := by
        simp only [reached, read]
        exact FieldNode.free_above put isPrefix strict
      have below := folded.reaches inner free level.items
        (List.mem_filter.mpr ⟨List.mem_map_of_mem member, by simp [silent]⟩)
      rw [reached] at below
      rw [maskOf]
      split at below
      · exact FieldNode.maskOn_of_free below
      · cases below

/-- Levels only narrow: a chain's list shows a path exactly when every level that gave a list shows
it, a masked path carries the mask the last level puts at the shortest prefix any level masks, and
a further level opens nothing. -/
theorem narrowAll_narrows (levels : List GrantLevel) (given : ∀ level ∈ levels, level.WellGiven) :
    ∃ policy, narrowAll levels = .ok policy ∧
      (∀ path, policy.reads path = true ↔ ∀ level ∈ levels, level.items ≠ [] → readable level.items path = true) ∧
      (∀ path mask, maskOf policy.columns path = some mask → ∃ above, above <+: path ∧
        (∀ level ∈ levels, ∀ shorter, shorter <+: above → shorter ≠ above → maskOf level.items shorter = none) ∧
        lastMask levels above = some mask) ∧
      ∀ further : GrantLevel, further.WellGiven → ∃ next, narrowAll (levels ++ [further]) = .ok next ∧
        ∀ path, next.reads path = true → policy.reads path = true := by
  have start : FoldedAll {} [] := .inl ⟨rfl, rfl, rfl⟩
  obtain ⟨policy, ran, folded⟩ := foldlM_folded given start
  rw [List.nil_append] at folded
  refine ⟨policy, ran, folded.reads, fun path mask => folded.masks, fun further wellGiven => ?_⟩
  have all : ∀ level ∈ levels ++ [further], level.WellGiven := by
    intro level member
    rcases List.mem_append.mp member with inside | inside
    · exact given level inside
    · rw [List.mem_singleton.mp inside]
      exact wellGiven
  obtain ⟨next, ranNext, foldedNext⟩ := foldlM_folded all start
  rw [List.nil_append] at foldedNext
  refine ⟨next, ranNext, fun path shown => (folded.reads path).mpr fun level member => ?_⟩
  exact (foldedNext.reads path).mp shown level (List.mem_append_left _ member)

private theorem wellGiven_of_isOk {level : GrantLevel} (read : (ColumnTrees.fromItems level.items).isOk = true)
    (trimmed : ∀ item ∈ level.items, (ColumnTrees.itemPath item.1).steps = [] →
      Text.trim (ColumnTrees.itemPath item.1).head = (ColumnTrees.itemPath item.1).head)
    (maskedFirst : ∀ item ∈ level.items, item.2 ≠ [] →
      ∀ first ∈ level.items.find? fun other => Text.ciEquals item.1 other.1, first.2 ≠ []) : level.WellGiven := by
  refine ⟨?_, trimmed, fun _ => maskedFirst⟩
  cases accepted : ColumnTrees.fromItems level.items with
  | ok trees => exact ⟨trees, rfl⟩
  | error => simp [accepted, Except.isOk, Except.toBool] at read

/-- A mask above covers what a narrower level masks below it: the mask of `x` stays, not the last
level's mask of `x.y`. -/
theorem narrowAll_mask_above :
    narrowAll [{ rls := [], columnCsv := "x = m1".toList }, { rls := [], columnCsv := "x.y = m2".toList }] =
        .ok { restricts := true, columns := [("x".toList, "m1".toList)] } ∧
      maskOf [("x".toList, "m1".toList)] [.field "x".toList, .field "y".toList] = some "m1".toList ∧
      maskOf (parseColumnList "x.y = m2".toList) [.field "x".toList, .field "y".toList] = some "m2".toList := by
  decide +kernel

/-- A catalog level that masks a field, and an object level that lists the column. -/
theorem narrowAll_narrows_two : ∃ policy,
    narrowAll [{ rls := [], columnCsv := "c, c.x = 'm'".toList }, { rls := [], columnCsv := "c".toList }] = .ok policy ∧
      policy.reads [.field "c".toList] = true ∧ policy.reads [.field "c".toList, .field "x".toList] = false := by
  have wellGiven : ∀ level ∈ ([{ rls := [], columnCsv := "c, c.x = 'm'".toList },
      { rls := [], columnCsv := "c".toList }] : List GrantLevel), level.WellGiven := by
    simp only [List.mem_cons, List.not_mem_nil, or_false, forall_eq_or_imp, forall_eq]
    exact ⟨wellGiven_of_isOk (by decide +kernel) (by decide +kernel) (by decide +kernel),
      wellGiven_of_isOk (by decide +kernel) (by decide +kernel) (by decide +kernel)⟩
  obtain ⟨policy, ran, reads, _⟩ := narrowAll_narrows _ wellGiven
  refine ⟨policy, ran, (reads _).mpr ?_, ?_⟩
  · decide +kernel
  · rw [Bool.eq_false_iff, Ne, reads]
    decide +kernel

end DuckAcl
