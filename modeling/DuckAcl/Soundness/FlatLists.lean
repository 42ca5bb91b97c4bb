import DuckAcl.Library.KeyedLists
import DuckAcl.Soundness.LevelNarrowing
import DuckAcl.Soundness.RoleUnion
import Mathlib.Data.List.Forall2
import Mathlib.Data.List.TakeWhile

/-! # Lists of columns and their trees

A list without field paths makes a tree of leaves: each column once, shown as it is or masked. What the
trees show of a column depends on the list's mentions of it only, and so does what the loops over such
lists in `GrantPolicy::Narrow` and `GrantUnion::Add` show. The two are compared column by column.
-/

namespace DuckAcl

open Keyed

theorem names_sameness : Sameness Text.ciEquals :=
  ⟨Text.ciEquals_refl, fun same => Text.ciEquals_symm same, fun one other => Text.ciEquals_trans one other⟩

/-- Two mentions of a column in one list, as its tree takes them: a mask stays, and no two are taken. -/
def putMask (first next : Text) : Option Text :=
  if next = [] then some first else if first = [] then some next else if first = next then some first else none

/-- Two roles' mentions of a column: unmasked beats masked, and no two masks are taken. -/
def joinMask (first next : Text) : Option Text :=
  if next = [] ∨ first = [] then some [] else if first = next then some first else none

/-- A list's mentions of a column, one for each item. -/
abbrev columnMentions (items : ColumnItems) (column : Text) : List Text := mentions Text.ciEquals items column

/-! ## Leaves -/

/-- A column's node without anything below it, and the item it is written as. -/
structure Leaf (node : FieldNode) (item : Text × Text) : Prop where
  name : node.name = item.1
  bare : node.fields = [] ∧ node.element = none
  shows : (item.2 = [] ∧ node.masked = false ∧ node.whole = true) ∨
    (item.2 ≠ [] ∧ node.masked = true ∧ node.mask = item.2)

namespace Leaf

variable {node : FieldNode} {item : Text × Text}

theorem simplify_eq (leaf : Leaf node item) : simplify node = node := by
  obtain ⟨name, whole, masked, mask, fields, element⟩ := node
  obtain ⟨rfl, rfl⟩ := leaf.bare
  cases masked <;> simp [simplify, simplifyUnder, simplifyFields, simplifyElement]

theorem serialize_eq (leaf : Leaf node item) (position : Text) : serializeNode position node = [(position, item.2)] := by
  obtain ⟨name, whole, masked, mask, fields, element⟩ := node
  obtain ⟨rfl, rfl⟩ := leaf.bare
  rcases leaf.shows with ⟨none_given, rfl, rfl⟩ | ⟨_, rfl, same⟩
  · simp [serializeNode, serializeFields, serializeElement, none_given]
  · simp only at same
    simp [serializeNode, same]

theorem of_insert (mask display name : Text) :
    ∃ node, insertPath mask display [] { name } = .ok node ∧ Leaf node (name, mask) := by
  by_cases given : mask = []
  · exact ⟨{ name, whole := true }, by simp [insertPath, given], rfl, ⟨rfl, rfl⟩, .inl ⟨given, rfl, rfl⟩⟩
  · exact ⟨{ name, masked := true, mask }, by simp [insertPath, given], rfl, ⟨rfl, rfl⟩, .inr ⟨given, rfl, rfl⟩⟩

/-- One more mention of a column. -/
theorem insert (leaf : Leaf node item) (mask display : Text) :
    (∀ value, putMask item.2 mask = some value →
        ∃ next, insertPath mask display [] node = .ok next ∧ Leaf next (item.1, value)) ∧
      (putMask item.2 mask = none → ∃ error, insertPath mask display [] node = .error error) := by
  obtain ⟨name, bare, shows⟩ := leaf
  simp only [insertPath, putMask]
  by_cases given : mask = []
  · rw [if_pos given, if_neg (by simpa using given)]
    refine ⟨fun value same => ?_, fun refused => by cases refused⟩
    cases same
    rcases shows with ⟨none_given, plain, whole⟩ | ⟨masks, masked, same⟩
    · rw [if_neg (by simp [plain])]
      exact ⟨_, rfl, name, bare, .inl ⟨none_given, plain, rfl⟩⟩
    · rw [if_pos masked]
      exact ⟨_, rfl, name, bare, .inr ⟨masks, masked, same⟩⟩
  · rw [if_neg given, if_pos given]
    rcases shows with ⟨none_given, plain, whole⟩ | ⟨masks, masked, same⟩
    · rw [if_pos none_given, if_neg (by simp [plain])]
      refine ⟨fun value equal => ?_, fun refused => by cases refused⟩
      cases equal
      exact ⟨_, rfl, name, ⟨rfl, rfl⟩, .inr ⟨given, rfl, rfl⟩⟩
    · rw [if_neg masks]
      by_cases equal : item.2 = mask
      · rw [if_pos equal, if_neg (by simp [masked, same, equal])]
        refine ⟨fun value taken => ?_, fun refused => by cases refused⟩
        cases taken
        exact ⟨_, rfl, name, ⟨rfl, rfl⟩, .inr ⟨masks, rfl, equal.symm⟩⟩
      · rw [if_neg equal, if_pos ⟨masked, by rw [same]; exact equal⟩]
        exact ⟨fun value taken => (by cases taken), fun _ => ⟨_, rfl⟩⟩

end Leaf

/-- The columns of a tree and the items they are written as. -/
abbrev Leaves (columns : List FieldNode) (items : ColumnItems) : Prop := List.Forall₂ Leaf columns items

/-- Editing a column of a tree of leaves is an upsert of its items. -/
theorem Leaves.edit {columns : List FieldNode} {items : ColumnItems} (leaves : Leaves columns items)
    (name mask display : Text) :
    (∀ next, upsert Text.ciEquals putMask (name, mask) items = some next →
        ∃ edited, editField name (insertPath mask display []) columns = .ok edited ∧ Leaves edited next) ∧
      (upsert Text.ciEquals putMask (name, mask) items = none →
        ∃ error, editField name (insertPath mask display []) columns = .error error) := by
  induction leaves with
  | nil =>
    obtain ⟨node, made, leaf⟩ := Leaf.of_insert mask display name
    refine ⟨fun next ran => ?_, fun ran => by cases ran⟩
    cases ran
    refine ⟨[node], ?_, .cons leaf .nil⟩
    simp [editField, made, bind, Except.bind, pure, Except.pure]
  | @cons column item columns items leaf leaves ih =>
    have named : Text.ciEquals column.name name = Text.ciEquals item.1 name := by rw [leaf.name]
    obtain ⟨done, failed⟩ := leaf.insert mask display
    rw [upsert, editField, named]
    by_cases here : Text.ciEquals item.1 name = true
    · simp only [here, ↓reduceIte]
      constructor
      · intro next ran
        obtain ⟨value, put, rfl⟩ := Option.map_eq_some_iff.mp ran
        obtain ⟨edited, inserted, leaf'⟩ := done value put
        refine ⟨edited :: columns, ?_, .cons leaf' leaves⟩
        simp [inserted, bind, Except.bind, pure, Except.pure]
      · intro ran
        obtain ⟨error, refused⟩ := failed (Option.map_eq_none_iff.mp ran)
        exact ⟨error, by simp [refused, bind, Except.bind]⟩
    · simp only [here, Bool.false_eq_true, ↓reduceIte]
      constructor
      · intro next ran
        obtain ⟨later, inner, rfl⟩ := Option.map_eq_some_iff.mp ran
        obtain ⟨edited, inserted, leaves'⟩ := ih.1 later inner
        refine ⟨column :: edited, ?_, .cons leaf leaves'⟩
        simp [inserted, bind, Except.bind, pure, Except.pure]
      · intro ran
        obtain ⟨error, refused⟩ := ih.2 (Option.map_eq_none_iff.mp ran)
        exact ⟨error, by simp [refused, bind, Except.bind]⟩

/-! ## Reading a list -/

namespace PlainList

variable {items : ColumnItems}

theorem itemPath_eq (plain : PlainList items) {item : Text × Text} (member : item ∈ items) :
    ColumnTrees.itemPath item.1 = ⟨item.1, []⟩ := by
  have notPath := List.any_eq_false.mp plain.noPaths item member
  rw [plain.names item member] at notPath
  simp [ColumnTrees.itemPath, plain.names item member, notPath]

theorem tail {item : Text × Text} (plain : PlainList (item :: items)) : PlainList items where
  noPaths := List.any_eq_false.mpr fun other member => List.any_eq_false.mp plain.noPaths other (List.mem_cons_of_mem _ member)
  names other member := plain.names other (List.mem_cons_of_mem _ member)

/-- A list whose names are another's. -/
theorem of_names (plain : PlainList items) {other : ColumnItems}
    (named : ∀ item ∈ other, ∃ original ∈ items, item.1 = original.1) : PlainList other where
  noPaths := List.any_eq_false.mpr fun item member => by
    obtain ⟨original, inside, same⟩ := named item member
    rw [same]
    exact List.any_eq_false.mp plain.noPaths original inside
  names item member := by
    obtain ⟨original, inside, same⟩ := named item member
    rw [same]
    exact plain.names original inside

/-- The inserts of a list's items are upserts. -/
theorem inserts (plain : PlainList items) {trees : ColumnTrees} {before : ColumnItems}
    (leaves : Leaves trees.columns before) :
    (∀ last, upsertAll Text.ciEquals putMask before items = some last →
        ∃ after, items.foldlM ColumnTrees.insertItem trees = .ok after ∧ Leaves after.columns last) ∧
      (upsertAll Text.ciEquals putMask before items = none →
        ∃ error, items.foldlM ColumnTrees.insertItem trees = .error error) := by
  induction items generalizing trees before with
  | nil =>
    refine ⟨fun last ran => ?_, fun ran => by cases ran⟩
    cases ran
    exact ⟨trees, rfl, leaves⟩
  | cons item items ih =>
    obtain ⟨done, failed⟩ := leaves.edit item.1 item.2 item.1
    have step : trees.insertItem item = (editField item.1 (insertPath item.2 item.1 []) trees.columns).map ColumnTrees.mk := by
      rw [ColumnTrees.insertItem, plain.itemPath_eq List.mem_cons_self]
      cases editField item.1 (insertPath item.2 item.1 []) trees.columns <;> rfl
    rw [upsertAll, List.foldlM_cons, step]
    cases put : upsert Text.ciEquals putMask item before with
    | none =>
      obtain ⟨error, refused⟩ := failed put
      exact ⟨fun last ran => (by cases ran), fun _ => ⟨error, by rw [refused]; rfl⟩⟩
    | some next =>
      obtain ⟨edited, inserted, leaves'⟩ := done next put
      rw [inserted]
      have edited_leaves : Leaves (ColumnTrees.mk edited).columns next := leaves'
      exact ih plain.tail edited_leaves

/-- What a list makes: a tree of leaves that are the upserts of its items, or a refusal. -/
theorem reading (plain : PlainList items) :
    (∀ flat, upsertAll Text.ciEquals putMask [] items = some flat →
        ∃ trees, ColumnTrees.fromItems items = .ok trees ∧ Leaves trees.columns flat) ∧
      (upsertAll Text.ciEquals putMask [] items = none → ∃ error, ColumnTrees.fromItems items = .error error) := by
  have blank : Leaves ({} : ColumnTrees).columns [] := .nil
  obtain ⟨done, failed⟩ := plain.inserts blank
  constructor
  · intro flat ran
    obtain ⟨inserted, folded, leaves⟩ := done flat ran
    have simplified : inserted.columns.map simplify = inserted.columns := by
      refine (List.map_congr_left fun column member => ?_).trans (List.map_id _)
      obtain ⟨index, within, rfl⟩ := List.mem_iff_getElem.mp member
      exact (List.forall₂_iff_get.mp leaves).2 index within ((List.Forall₂.length_eq leaves) ▸ within) |>.simplify_eq
    refine ⟨inserted, ?_, leaves⟩
    simp [ColumnTrees.fromItems, folded, bind, Except.bind, pure, Except.pure, simplified]
  · intro ran
    obtain ⟨error, refused⟩ := failed ran
    exact ⟨error, by simp [ColumnTrees.fromItems, refused, bind, Except.bind]⟩

end PlainList

/-- The names of a list after upserts are names of the lists it comes from. -/
theorem upsertAll_names {combine : Text → Text → Option Text} {before items last : ColumnItems}
    (ran : upsertAll Text.ciEquals combine before items = some last) :
    ∀ item ∈ last, ∃ original ∈ before ++ items, item.1 = original.1 := by
  have one {item : Text × Text} {before next : ColumnItems} (ran : upsert Text.ciEquals combine item before = some next) :
      ∀ other ∈ next, ∃ original ∈ before ++ [item], other.1 = original.1 := by
    induction before generalizing next with
    | nil =>
      cases ran
      exact fun other member => ⟨other, member, rfl⟩
    | cons existing rest ih =>
      rw [upsert] at ran
      split at ran
      · obtain ⟨value, _, rfl⟩ := Option.map_eq_some_iff.mp ran
        intro other member
        rcases List.mem_cons.mp member with rfl | member
        · exact ⟨existing, List.mem_cons_self, rfl⟩
        · exact ⟨other, List.mem_append_left _ (List.mem_cons_of_mem _ member), rfl⟩
      · obtain ⟨later, inner, rfl⟩ := Option.map_eq_some_iff.mp ran
        intro other member
        rcases List.mem_cons.mp member with rfl | member
        · exact ⟨other, List.mem_cons_self, rfl⟩
        · obtain ⟨original, inside, same⟩ := ih inner other member
          exact ⟨original, List.mem_cons_of_mem _ inside, same⟩
  induction items generalizing before with
  | nil =>
    cases ran
    exact fun item member => ⟨item, List.mem_append_left _ member, rfl⟩
  | cons item items ih =>
    obtain ⟨next, put, ran⟩ := Option.bind_eq_some_iff.mp ran
    intro other member
    obtain ⟨original, inside, same⟩ := ih ran other member
    rcases List.mem_append.mp inside with inside | inside
    · obtain ⟨first, earlier, equal⟩ := one put original inside
      refine ⟨first, ?_, same.trans equal⟩
      rw [← List.singleton_append, ← List.append_assoc]
      exact List.mem_append_left _ earlier
    · exact ⟨original, List.mem_append_right _ (List.mem_cons_of_mem _ inside), same⟩

/-! ## Mentions -/

/-- A list's mentions of a column mask it two ways. -/
def TwoMasks (masks : List Text) : Prop := ∃ first ∈ masks, ∃ second ∈ masks, first ≠ [] ∧ second ≠ [] ∧ first ≠ second

instance (masks : List Text) : Decidable (TwoMasks masks) :=
  inferInstanceAs (Decidable (∃ first ∈ masks, ∃ second ∈ masks, first ≠ [] ∧ second ≠ [] ∧ first ≠ second))

/-- What mentions that mask a column at most one way show of it: nothing without one, its mask, or all of it. -/
def shownBy (masks : List Text) : Option Text :=
  if masks = [] then none else some ((masks.find? (· ≠ [])).getD [])

@[simp] theorem shownBy_nil : shownBy [] = none := rfl

theorem shownBy_singleton (mask : Text) : shownBy [mask] = some mask := by
  by_cases given : mask = [] <;> simp [shownBy, given]

/-- What the mentions show is a mask of theirs, or all of it when they have none. -/
theorem shownBy_eq_some {masks : List Text} (alike : ¬ TwoMasks masks) {mask : Text} :
    shownBy masks = some mask ↔ masks ≠ [] ∧ if mask = [] then ∀ other ∈ masks, other = [] else mask ∈ masks := by
  unfold shownBy
  by_cases blank : masks = []
  · simp [blank]
  · rw [if_neg blank, Option.some.injEq]
    cases found : masks.find? (· ≠ []) with
    | none =>
      have bare : ∀ other ∈ masks, other = [] := by simpa using List.find?_eq_none.mp found
      rw [Option.getD_none]
      constructor
      · rintro rfl
        exact ⟨blank, by simpa using bare⟩
      · rintro ⟨_, here⟩
        split at here
        · next same => exact same.symm
        · exact (bare mask here).symm
    | some first =>
      have given : first ≠ [] := by simpa using List.find?_some found
      have inside := List.mem_of_find?_eq_some found
      rw [Option.getD_some]
      constructor
      · rintro rfl
        exact ⟨blank, by rw [if_neg given]; exact inside⟩
      · rintro ⟨_, here⟩
        split at here
        · exact absurd (here first inside) given
        · next some_mask =>
          by_contra differ
          exact alike ⟨first, inside, mask, here, given, some_mask, differ⟩

theorem absorb_put (first : Text) (masks : List Text) :
    absorb putMask [first] masks =
      if TwoMasks (first :: masks) then none else (shownBy (first :: masks)).map fun mask => [mask] := by
  induction masks generalizing first with
  | nil =>
    have alike : ¬ TwoMasks [first] := by simp [TwoMasks]
    rw [if_neg alike, shownBy_singleton]
    rfl
  | cons next masks ih =>
    rw [absorb]
    by_cases given : next = []
    · have same : TwoMasks (first :: next :: masks) ↔ TwoMasks (first :: masks) := by
        subst given
        simp [TwoMasks]
      have shown : shownBy (first :: next :: masks) = shownBy (first :: masks) := by
        subst given
        by_cases bare : first = [] <;> simp [shownBy, bare]
      rw [putMask, if_pos given, Option.bind_some, ih]
      simp only [same, shown]
    · rw [putMask, if_neg given]
      by_cases bare : first = []
      · have same : TwoMasks (first :: next :: masks) ↔ TwoMasks (next :: masks) := by
          subst bare
          simp [TwoMasks]
        have shown : shownBy (first :: next :: masks) = shownBy (next :: masks) := by
          subst bare
          simp [shownBy]
        rw [if_pos bare, Option.bind_some, ih]
        simp only [same, shown]
      · rw [if_neg bare]
        by_cases equal : first = next
        · have same : TwoMasks (first :: next :: masks) ↔ TwoMasks (first :: masks) := by
            subst equal
            simp [TwoMasks]
          have shown : shownBy (first :: next :: masks) = shownBy (first :: masks) := by
            subst equal
            simp [shownBy, bare]
          rw [if_pos equal, Option.bind_some, ih]
          simp only [same, shown]
        · have two : TwoMasks (first :: next :: masks) := ⟨first, by simp, next, by simp, bare, given, equal⟩
          rw [if_neg equal, if_pos two]
          rfl

/-- What a list's own mentions of a column come to. -/
theorem absorb_put_nil (masks : List Text) :
    absorb putMask [] masks = if TwoMasks masks then none else some (shownBy masks).toList := by
  cases masks with
  | nil => simp [absorb, TwoMasks]
  | cons first masks =>
    rw [absorb, absorb_put]
    split
    · rfl
    · simp [shownBy]

/-! ## What a tree shows -/

/-- What the trees show of a column: nothing, its mask, or all of it. -/
def ColumnTrees.columnShown (trees : ColumnTrees) (column : Text) : Option Text :=
  (trees.find column).map fun node => if node.masked then node.mask else []

theorem Leaves.find {columns : List FieldNode} {items : ColumnItems} (leaves : Leaves columns items) (column : Text) :
    Option.Rel Leaf (columns.find? fun node => Text.ciEquals node.name column)
      (items.find? fun item => Text.ciEquals item.1 column) := by
  induction leaves with
  | nil => exact .none
  | @cons node item columns items leaf leaves ih =>
    have named : Text.ciEquals node.name column = Text.ciEquals item.1 column := by rw [leaf.name]
    rw [List.find?_cons, List.find?_cons, named]
    split
    · exact .some leaf
    · exact ih

theorem head?_mentions (items : ColumnItems) (column : Text) :
    (columnMentions items column).head? = (items.find? fun item => Text.ciEquals item.1 column).map Prod.snd := by
  rw [columnMentions, mentions, List.head?_map, List.head?_filter]

theorem Leaf.shown {node : FieldNode} {item : Text × Text} (leaf : Leaf node item) :
    (if node.masked then node.mask else []) = item.2 := by
  rcases leaf.shows with ⟨bare, plain, _⟩ | ⟨_, masked, same⟩
  · simp [plain, bare]
  · simp [masked, same]

theorem Leaves.columnShown {trees : ColumnTrees} {items : ColumnItems} (leaves : Leaves trees.columns items)
    (column : Text) : trees.columnShown column = (columnMentions items column).head? := by
  rw [head?_mentions, ColumnTrees.columnShown, ColumnTrees.find]
  have found := leaves.find column
  generalize trees.columns.find? _ = left at found
  generalize items.find? _ = right at found
  cases found with
  | none => rfl
  | some leaf => exact congrArg some leaf.shown

/-- A list of columns as its tree holds it. -/
structure Held (items : ColumnItems) (trees : ColumnTrees) (flat : ColumnItems) : Prop where
  read : ColumnTrees.fromItems items = .ok trees
  leaves : Leaves trees.columns flat
  plain : PlainList flat
  mentioned : ∀ column, columnMentions flat column = (shownBy (columnMentions items column)).toList

theorem Held.shown {items flat : ColumnItems} {trees : ColumnTrees} (held : Held items trees flat) (column : Text) :
    trees.columnShown column = shownBy (columnMentions items column) := by
  rw [held.leaves.columnShown, held.mentioned]
  cases shownBy (columnMentions items column) <;> rfl

/-- A list is refused exactly when it masks some column two ways, and shows of each column what its
mentions say. -/
theorem PlainList.held {items : ColumnItems} (plain : PlainList items) :
    ((∀ column, ¬ TwoMasks (columnMentions items column)) → ∃ trees flat, Held items trees flat) ∧
      ((∃ column, TwoMasks (columnMentions items column)) → ∃ error, ColumnTrees.fromItems items = .error error) := by
  obtain ⟨done, failed⟩ := plain.reading
  obtain ⟨each, some_key⟩ := @upsertAll_mentions _ _ _ putMask names_sameness ([] : ColumnItems) items
  constructor
  · intro alike
    cases ran : upsertAll Text.ciEquals putMask [] items with
    | none =>
      obtain ⟨column, refused⟩ := some_key ran
      rw [mentions_nil, absorb_put_nil, if_neg (alike column)] at refused
      cases refused
    | some flat =>
      obtain ⟨trees, read, leaves⟩ := done flat ran
      refine ⟨trees, flat, read, leaves, plain.of_names (upsertAll_names ran), fun column => ?_⟩
      have mentioned := each flat ran column
      rw [mentions_nil, absorb_put_nil, if_neg (alike column), Option.some.injEq] at mentioned
      exact mentioned.symm
  · rintro ⟨column, two⟩
    refine failed ?_
    cases ran : upsertAll Text.ciEquals putMask [] items with
    | none => rfl
    | some flat =>
      have mentioned := each flat ran column
      rw [mentions_nil, absorb_put_nil, if_pos two] at mentioned
      cases mentioned

/-- A tree of leaves is written as its items. -/
theorem Leaves.items_eq {columns : List FieldNode} {items : ColumnItems} (leaves : Leaves columns items)
    (plain : PlainList items) : ColumnTrees.items ⟨columns⟩ = items := by
  rw [ColumnTrees.items]
  induction leaves with
  | nil => rfl
  | @cons node item columns items leaf leaves ih =>
    have name : ColumnTrees.rootName node = item.1 := by
      have notPath := List.any_eq_false.mp plain.noPaths item List.mem_cons_self
      rw [plain.names item List.mem_cons_self, Bool.not_eq_true] at notPath
      rw [ColumnTrees.rootName, if_pos ⟨by simp [leaf.bare.1], by simp [leaf.bare.2], by rw [leaf.name, notPath]⟩, leaf.name]
    rw [List.flatMap_cons, ih plain.tail, name, leaf.serialize_eq]
    rfl

/-! ## Narrowing -/

open GrantPolicy

theorem Leaf.intersect {node node' : FieldNode} {item item' : Text × Text} (leaf : Leaf node item)
    (leaf' : Leaf node' item') :
    ∃ met, intersectNodes node node' = some met ∧ Leaf met (item.1, if item'.2 = [] then item.2 else item'.2) := by
  obtain ⟨name, whole, masked, mask, fields, element⟩ := node
  obtain ⟨name', whole', masked', mask', fields', element'⟩ := node'
  obtain ⟨named, ⟨rfl, rfl⟩, shows⟩ := leaf
  obtain ⟨_, ⟨rfl, rfl⟩, shows'⟩ := leaf'
  simp only at named shows shows'
  subst named
  rw [intersectNodes]
  rcases shows' with ⟨bare', rfl, rfl⟩ | ⟨given', rfl, same'⟩
  · rcases shows with ⟨bare, rfl, rfl⟩ | ⟨given, rfl, same⟩
    · refine ⟨{ name := item.1, whole := true }, ?_, rfl, ⟨rfl, rfl⟩, .inl ⟨?_, rfl, rfl⟩⟩
      · simp [mergedNames, FieldNode.empty]
      · simp [bare, bare']
    · exact ⟨{ name := item.1, masked := true, mask }, by simp, rfl, ⟨rfl, rfl⟩,
        .inr ⟨by simp [bare', given], rfl, by simp [bare', same]⟩⟩
  · exact ⟨{ name := item.1, masked := true, mask := mask' }, by simp, rfl, ⟨rfl, rfl⟩,
      .inr ⟨by simp [given'], rfl, by simp [given', same']⟩⟩

/-- The trees of two lists meet in the leaves that the loop leaves of their items. -/
theorem Leaves.intersect {columns : List FieldNode} {items : ColumnItems} (leaves : Leaves columns items)
    {narrower : ColumnTrees} {level : ColumnItems} (leaves' : Leaves narrower.columns level) :
    Leaves (columns.filterMap fun column => (narrower.find column.name).bind (intersectNodes column))
      (intersectPlain items level) := by
  rw [intersectPlain]
  induction leaves with
  | nil => exact .nil
  | @cons node item columns items leaf leaves ih =>
    have found := leaves'.find item.1
    have turned : (level.find? fun other => Text.ciEquals other.1 item.1) =
        level.find? fun other => Text.ciEquals item.1 other.1 := by
      congr 1
      funext other
      rw [Bool.eq_iff_iff]
      exact ⟨Text.ciEquals_symm, Text.ciEquals_symm⟩
    rw [turned] at found
    rw [List.filterMap_cons, List.filterMap_cons, ColumnTrees.find, leaf.name]
    generalize (narrower.columns.find? fun column => Text.ciEquals column.name item.1) = left at found
    generalize (level.find? fun other => Text.ciEquals item.1 other.1) = right at found
    cases found with
    | none => exact ih
    | some leaf' =>
      obtain ⟨met, meets, leaf''⟩ := leaf.intersect leaf'
      simp only [Option.bind_some, meets, Option.map_some]
      exact .cons leaf'' ih

/-- What the loop of `Narrow` leaves of the mentions of a column: each mask, or the narrower's first. -/
def narrowMentions (wider narrower : List Text) : List Text :=
  match narrower.head? with
  | none => []
  | some first => wider.map fun mask => if first = [] then mask else first

theorem mentions_intersectPlain (wider narrower : ColumnItems) (column : Text) :
    columnMentions (intersectPlain wider narrower) column =
      narrowMentions (columnMentions wider column) (columnMentions narrower column) := by
  unfold narrowMentions
  induction wider with
  | nil => cases (columnMentions narrower column).head? <;> rfl
  | cons item wider ih =>
    have step : intersectPlain (item :: wider) narrower =
        ((columnMentions narrower item.1).head?.map fun first => (item.1, if first = [] then item.2 else first)).toList ++
          intersectPlain wider narrower := by
      have turned : (narrower.find? fun other => Text.ciEquals item.1 other.1) =
          narrower.find? fun other => Text.ciEquals other.1 item.1 := by
        congr 1
        funext other
        rw [Bool.eq_iff_iff]
        exact ⟨Text.ciEquals_symm, Text.ciEquals_symm⟩
      rw [intersectPlain, List.filterMap_cons, turned, head?_mentions]
      cases narrower.find? fun other => Text.ciEquals other.1 item.1 <;> rfl
    rw [step, columnMentions, mentions_append, ← columnMentions, ← columnMentions, ih]
    by_cases named : Text.ciEquals item.1 column = true
    · have same : columnMentions narrower item.1 = columnMentions narrower column :=
        mentions_congr names_sameness named narrower
      rw [same]
      cases (columnMentions narrower column).head? with
      | none => rfl
      | some first => simp [columnMentions, mentions_cons, named]
    · have none_here : columnMentions
          ((columnMentions narrower item.1).head?.map fun first => (item.1, if first = [] then item.2 else first)).toList
          column = [] := by
        cases (columnMentions narrower item.1).head? <;> simp [columnMentions, mentions_cons, named]
      have elsewhere : columnMentions (item :: wider) column = columnMentions wider column := by
        simp [columnMentions, mentions_cons, named]
      rw [none_here, elsewhere]
      rfl

/-- Two results show the same: both lists are refused when they are read, or neither is and every column
is shown alike. -/
def ShowsAlike (one other : Except BinderException ColumnItems) : Prop :=
  match one.bind ColumnTrees.fromItems, other.bind ColumnTrees.fromItems with
  | .ok trees, .ok trees' => ∀ column, trees.columnShown column = trees'.columnShown column
  | .error _, .error _ => True
  | _, _ => False

/-- When the loop of `Narrow` shows what the trees show: neither list masks a column two ways, and where
the narrower one names a column first bare and then masks it, the wider masks it so; or some column the
narrower names first bare is masked two ways by the wider, and both refuse. -/
def NarrowsAlike (wider narrower : ColumnItems) : Prop :=
  (∀ column, ¬ TwoMasks (columnMentions wider column) ∧ ¬ TwoMasks (columnMentions narrower column) ∧
      (columnMentions wider column ≠ [] → (columnMentions narrower column).head? = some [] →
        ∀ mask ∈ columnMentions narrower column, mask ≠ [] → mask ∈ columnMentions wider column)) ∨
    ∃ column, TwoMasks (columnMentions wider column) ∧ (columnMentions narrower column).head? = some []

theorem not_twoMasks_toList (shown : Option Text) : ¬ TwoMasks shown.toList := by
  cases shown <;> simp [TwoMasks]

/-- Mentions that mask a column one way show it alike through the loop and through the trees exactly when
the later mask of a column the narrower list names bare first is the wider list's. -/
private theorem narrow_column {wider narrower : List Text} (alike : ¬ TwoMasks wider) (alike' : ¬ TwoMasks narrower) :
    shownBy (narrowMentions wider narrower) =
        ((shownBy narrower).bind fun mask' => (shownBy wider).map fun mask => if mask' = [] then mask else mask') ↔
      (wider ≠ [] → narrower.head? = some [] → ∀ mask ∈ narrower, mask ≠ [] → mask ∈ wider) := by
  unfold narrowMentions
  cases narrower with
  | nil => simp
  | cons first rest =>
    by_cases bare : first = []
    · have kept : wider.map (fun mask => if first = [] then mask else first) = wider := by simp [bare]
      rw [List.head?_cons]
      simp only [kept]
      by_cases all_bare : ∀ mask ∈ first :: rest, mask = []
      · have shown : shownBy (first :: rest) = some [] :=
          (shownBy_eq_some alike').mpr ⟨List.cons_ne_nil _ _, by rw [if_pos rfl]; exact all_bare⟩
        rw [shown, Option.bind_some]
        simp only [↓reduceIte, Option.map_id', true_iff]
        exact fun _ _ mask member given => absurd (all_bare mask member) given
      · push Not at all_bare
        obtain ⟨mask, member, given⟩ := all_bare
        have shown : shownBy (first :: rest) = some mask :=
          (shownBy_eq_some alike').mpr ⟨List.cons_ne_nil _ _, by rw [if_neg given]; exact member⟩
        have only : ∀ other ∈ first :: rest, other ≠ [] → other = mask := fun other inside told => by
          by_contra differ
          exact alike' ⟨other, inside, mask, member, told, given, differ⟩
        rw [shown, Option.bind_some]
        simp only [given, ↓reduceIte]
        by_cases blank : wider = []
        · simp [blank]
        · have mapped : (shownBy wider).map (fun _ => mask) = some mask := by simp [shownBy, blank]
          rw [mapped, shownBy_eq_some alike, if_neg given]
          constructor
          · intro inside _ _ other among told
            rw [only other among told]
            exact inside.2
          · intro inside
            exact ⟨blank, inside blank (by rw [bare]) mask member given⟩
    · have shown : shownBy (first :: rest) = some first :=
        (shownBy_eq_some alike').mpr ⟨List.cons_ne_nil _ _, by rw [if_neg bare]; exact List.mem_cons_self⟩
      rw [shown, Option.bind_some, List.head?_cons]
      simp only [bare, ↓reduceIte, Option.some.injEq, false_imp_iff, imp_true_iff, iff_true]
      cases wider with
      | nil => rfl
      | cons mask wider => simp [shownBy, bare]

private theorem twoMasks_narrowed (wider narrower : List Text) :
    TwoMasks (narrowMentions wider narrower) ↔ TwoMasks wider ∧ narrower.head? = some [] := by
  unfold narrowMentions
  cases narrower with
  | nil => simp [TwoMasks]
  | cons first rest =>
    rw [List.head?_cons]
    by_cases bare : first = []
    · simp [bare]
    · simp only [bare, ↓reduceIte, Option.some.injEq, and_false, iff_false]
      rintro ⟨one, inside, other, inside', _, _, differ⟩
      obtain ⟨_, _, rfl⟩ := List.mem_map.mp inside
      obtain ⟨_, _, rfl⟩ := List.mem_map.mp inside'
      exact differ rfl

theorem intersectPlain_names {wider : ColumnItems} (plain : PlainList wider) (narrower : ColumnItems) :
    PlainList (intersectPlain wider narrower) := by
  refine plain.of_names fun item member => ?_
  obtain ⟨original, inside, made⟩ := List.mem_filterMap.mp member
  obtain ⟨_, _, rfl⟩ := Option.map_eq_some_iff.mp made
  exact ⟨original, inside, rfl⟩

/-- The loop of `Narrow` and the trees show the same exactly when `NarrowsAlike` holds. -/
theorem narrow_showsAlike {wider narrower : ColumnItems} (plain : PlainList wider) (plain' : PlainList narrower) :
    ShowsAlike (.ok (intersectPlain wider narrower)) (intersectColumnItems wider narrower) ↔
      NarrowsAlike wider narrower := by
  have plainFast := intersectPlain_names plain narrower
  have refusedFast : (∃ column, TwoMasks (columnMentions (intersectPlain wider narrower) column)) ↔
      ∃ column, TwoMasks (columnMentions wider column) ∧ (columnMentions narrower column).head? = some [] := by
    refine exists_congr fun column => ?_
    rw [mentions_intersectPlain, twoMasks_narrowed]
  have fast : Except.bind (.ok (intersectPlain wider narrower)) ColumnTrees.fromItems =
      ColumnTrees.fromItems (intersectPlain wider narrower) := rfl
  unfold ShowsAlike NarrowsAlike
  rw [fast]
  by_cases refused : (∃ column, TwoMasks (columnMentions wider column)) ∨ ∃ column, TwoMasks (columnMentions narrower column)
  · have slow : ∃ error, (intersectColumnItems wider narrower).bind ColumnTrees.fromItems = .error error := by
      by_cases first : ∃ column, TwoMasks (columnMentions wider column)
      · obtain ⟨error, told⟩ := plain.held.2 first
        exact ⟨error, by simp [intersectColumnItems, told, bind, Except.bind]⟩
      · obtain ⟨error, told⟩ := plain'.held.2 (refused.resolve_left first)
        push Not at first
        obtain ⟨trees, flat, held⟩ := plain.held.1 first
        exact ⟨error, by simp [intersectColumnItems, held.read, told, bind, Except.bind]⟩
    obtain ⟨error, told⟩ := slow
    rw [told]
    have notAll : ¬ ∀ column, ¬ TwoMasks (columnMentions wider column) ∧ ¬ TwoMasks (columnMentions narrower column) ∧
        (columnMentions wider column ≠ [] → (columnMentions narrower column).head? = some [] →
          ∀ mask ∈ columnMentions narrower column, mask ≠ [] → mask ∈ columnMentions wider column) := by
      intro all
      rcases refused with ⟨column, two⟩ | ⟨column, two⟩
      · exact (all column).1 two
      · exact (all column).2.1 two
    rw [or_iff_right notAll, ← refusedFast]
    by_cases two : ∃ column, TwoMasks (columnMentions (intersectPlain wider narrower) column)
    · obtain ⟨error', told'⟩ := plainFast.held.2 two
      rw [told']
      exact iff_of_true trivial two
    · have single := two
      push Not at single
      obtain ⟨trees, flat, held⟩ := plainFast.held.1 single
      rw [held.read]
      exact iff_of_false id two
  · push Not at refused
    obtain ⟨alike, alike'⟩ := refused
    obtain ⟨trees, flat, held⟩ := plain.held.1 alike
    obtain ⟨trees', flat', held'⟩ := plain'.held.1 alike'
    have slow : intersectColumnItems wider narrower = .ok (intersectPlain flat flat') := by
      simp only [intersectColumnItems, held.read, held'.read, bind, Except.bind, pure, Except.pure]
      rw [(held.leaves.intersect held'.leaves).items_eq (intersectPlain_names held.plain flat')]
    have single : ∀ column, ¬ TwoMasks (columnMentions (intersectPlain wider narrower) column) := by
      intro column
      rw [mentions_intersectPlain, twoMasks_narrowed]
      exact fun two => alike column two.1
    have single' : ∀ column, ¬ TwoMasks (columnMentions (intersectPlain flat flat') column) := by
      intro column
      rw [mentions_intersectPlain, twoMasks_narrowed, held.mentioned]
      exact fun two => not_twoMasks_toList _ two.1
    obtain ⟨read, list, heldFast⟩ := plainFast.held.1 single
    obtain ⟨read', list', heldSlow⟩ := (intersectPlain_names held.plain flat').held.1 single'
    have slowRead : Except.bind (.ok (intersectPlain flat flat')) ColumnTrees.fromItems = .ok read' := heldSlow.read
    rw [slow, slowRead, heldFast.read]
    dsimp only
    have never : ¬ ∃ column, TwoMasks (columnMentions wider column) ∧ (columnMentions narrower column).head? = some [] := by
      rintro ⟨column, two, _⟩
      exact alike column two
    rw [or_iff_left never]
    refine forall_congr' fun column => ?_
    rw [heldFast.shown, heldSlow.shown, mentions_intersectPlain, mentions_intersectPlain, held.mentioned, held'.mentioned]
    have trees_show : shownBy (narrowMentions (shownBy (columnMentions wider column)).toList
        (shownBy (columnMentions narrower column)).toList) = (shownBy (columnMentions narrower column)).bind fun mask' =>
          (shownBy (columnMentions wider column)).map fun mask => if mask' = [] then mask else mask' := by
      cases shownBy (columnMentions narrower column) with
      | none => rfl
      | some mask' =>
        cases shownBy (columnMentions wider column) with
        | none => rfl
        | some mask => exact shownBy_singleton _
    rw [trees_show, narrow_column (alike column) (alike' column)]
    exact ⟨fun condition => ⟨alike column, alike' column, condition⟩, fun all => all.2.2⟩

/-! ## Uniting -/

/-- The merge of one column is an upsert. -/
private theorem mergeColumn_upsert (column : Text × Text) (items : ColumnItems) :
    (∀ next, upsert Text.ciEquals joinMask column items = some next → GrantUnion.mergeColumn column items = .ok next) ∧
      (upsert Text.ciEquals joinMask column items = none → ∃ error, GrantUnion.mergeColumn column items = .error error) := by
  induction items with
  | nil =>
    refine ⟨fun next ran => ?_, fun ran => by cases ran⟩
    cases ran
    rfl
  | cons existing rest ih =>
    rw [upsert, GrantUnion.mergeColumn]
    by_cases here : Text.ciEquals existing.1 column.1 = true
    · rw [if_pos here, if_pos here, joinMask]
      by_cases bare : column.2 = [] ∨ existing.2 = []
      · rw [if_pos bare, if_pos bare]
        refine ⟨fun next ran => ?_, fun ran => by cases ran⟩
        cases ran
        rfl
      · rw [if_neg bare, if_neg bare]
        by_cases same : existing.2 = column.2
        · rw [if_pos same, if_neg (by simpa using same)]
          refine ⟨fun next ran => ?_, fun ran => by cases ran⟩
          cases ran
          rfl
        · rw [if_neg same, if_pos same]
          exact ⟨fun next ran => (by cases ran), fun _ => ⟨_, rfl⟩⟩
    · rw [if_neg here, if_neg here]
      constructor
      · intro next ran
        obtain ⟨later, inner, rfl⟩ := Option.map_eq_some_iff.mp ran
        simp [ih.1 later inner, bind, Except.bind, pure, Except.pure]
      · intro ran
        obtain ⟨error, refused⟩ := ih.2 (Option.map_eq_none_iff.mp ran)
        exact ⟨error, by simp [refused, bind, Except.bind]⟩

/-- The loop of `Add` over a role's list. -/
def mergeColumns (columns list : ColumnItems) : Except BinderException ColumnItems :=
  list.foldlM (fun columns column => GrantUnion.mergeColumn column columns) columns

private theorem mergeColumns_upsertAll (columns list : ColumnItems) :
    (∀ last, upsertAll Text.ciEquals joinMask columns list = some last → mergeColumns columns list = .ok last) ∧
      (upsertAll Text.ciEquals joinMask columns list = none → ∃ error, mergeColumns columns list = .error error) := by
  unfold mergeColumns
  induction list generalizing columns with
  | nil =>
    refine ⟨fun last ran => ?_, fun ran => by cases ran⟩
    cases ran
    rfl
  | cons item list ih =>
    obtain ⟨done, failed⟩ := mergeColumn_upsert item columns
    rw [upsertAll, List.foldlM_cons]
    cases put : upsert Text.ciEquals joinMask item columns with
    | none =>
      obtain ⟨error, refused⟩ := failed put
      exact ⟨fun last ran => (by cases ran), fun _ => ⟨error, by rw [refused]; rfl⟩⟩
    | some next =>
      rw [done next put]
      exact ih next

theorem absorb_join (first : Text) (rest masks : List Text) :
    absorb joinMask (first :: rest) masks =
      if TwoMasks ((first :: masks).takeWhile (· ≠ [])) then none
      else some ((if [] ∈ first :: masks then [] else first) :: rest) := by
  induction masks generalizing first with
  | nil =>
    have alike : ¬ TwoMasks ([first].takeWhile (· ≠ [])) := by
      by_cases bare : first = [] <;> simp [TwoMasks, bare]
    rw [if_neg alike, absorb]
    by_cases bare : first = [] <;> simp [bare, eq_comm]
  | cons next masks ih =>
    rw [absorb, joinMask]
    by_cases bare : next = [] ∨ first = []
    · have alike : ¬ TwoMasks ((first :: next :: masks).takeWhile (· ≠ [])) := by
        by_cases blank : first = []
        · simp [TwoMasks, blank]
        · simp [TwoMasks, blank, bare.resolve_right blank]
      have alike' : ¬ TwoMasks (([] :: masks).takeWhile (· ≠ [])) := by simp [TwoMasks]
      have inside : [] ∈ first :: next :: masks := by
        rcases bare with rfl | rfl <;> simp
      rw [if_pos bare, Option.bind_some, ih, if_neg alike, if_neg alike', if_pos inside, if_pos List.mem_cons_self]
    · rw [not_or] at bare
      rw [if_neg (by simp [bare])]
      by_cases same : first = next
      · subst same
        have alike : TwoMasks ((first :: first :: masks).takeWhile (· ≠ [])) ↔
            TwoMasks ((first :: masks).takeWhile (· ≠ [])) := by simp [TwoMasks, bare.1]
        rw [if_pos rfl, Option.bind_some, ih]
        simp only [alike, List.mem_cons, or_self_left]
      · have two : TwoMasks ((first :: next :: masks).takeWhile (· ≠ [])) :=
          ⟨first, by simp [bare], next, by simp [bare], bare.2, bare.1, same⟩
        rw [if_neg same, if_pos two]
        rfl

theorem Leaf.unite {node node' : FieldNode} {item item' : Text × Text} (leaf : Leaf node item)
    (leaf' : Leaf node' item') (display : Text) :
    (∀ mask, joinMask item.2 item'.2 = some mask → ∃ united name, uniteNodes display (some node) (some node') = .ok (some united) ∧
        (name = item.1 ∨ name = item'.1) ∧ Leaf united (name, mask)) ∧
      (joinMask item.2 item'.2 = none → ∃ error, uniteNodes display (some node) (some node') = .error error) := by
  obtain ⟨name, whole, masked, mask, fields, element⟩ := node
  obtain ⟨name', whole', masked', mask', fields', element'⟩ := node'
  obtain ⟨named, ⟨rfl, rfl⟩, shows⟩ := leaf
  obtain ⟨named', ⟨rfl, rfl⟩, shows'⟩ := leaf'
  simp only at named named' shows shows'
  subst named named'
  rw [uniteNodes, joinMask]
  rcases shows with ⟨bare, rfl, rfl⟩ | ⟨given, rfl, same⟩
  · rw [if_pos (.inr bare)]
    refine ⟨fun mask'' joined => ?_, fun refused => by cases refused⟩
    cases joined
    rcases shows' with ⟨bare', rfl, rfl⟩ | ⟨given', rfl, same'⟩
    · refine ⟨{ name := item.1, whole := true }, item.1, ?_, .inl rfl, rfl, ⟨rfl, rfl⟩, .inl ⟨rfl, rfl, rfl⟩⟩
      simp only [mergedNames, bind, Except.bind, pure, Except.pure, Bool.and_self, Bool.false_eq_true, ↓reduceIte,
        Option.isSome_none, or_self, ↓reduceDIte]
      rfl
    · exact ⟨{ name := item.1, whole := true, mask }, item.1, by simp, .inl rfl, rfl, ⟨rfl, rfl⟩, .inl ⟨rfl, rfl, rfl⟩⟩
  · rcases shows' with ⟨bare', rfl, rfl⟩ | ⟨given', rfl, same'⟩
    · rw [if_pos (.inl bare')]
      refine ⟨fun mask'' joined => ?_, fun refused => by cases refused⟩
      cases joined
      exact ⟨{ name := item'.1, whole := true, mask := mask' }, item'.1, by simp, .inr rfl, rfl, ⟨rfl, rfl⟩,
        .inl ⟨rfl, rfl, rfl⟩⟩
    · rw [if_neg (by simp [given, given'])]
      by_cases equal : item.2 = item'.2
      · rw [if_pos equal]
        refine ⟨fun mask'' joined => ?_, fun refused => by cases refused⟩
        cases joined
        exact ⟨{ name := item.1, whole, masked := true, mask }, item.1, by simp [same, same', equal], .inl rfl, rfl,
          ⟨rfl, rfl⟩, .inr ⟨given, rfl, same⟩⟩
      · rw [if_neg equal]
        exact ⟨fun mask'' joined => (by cases joined), fun _ => ⟨maskDiffers display mask mask', by simp [same, same', equal]⟩⟩

theorem mentions_of_named {items : ColumnItems} {column : Text} (once : (columnMentions items column).length ≤ 1)
    {item : Text × Text} (found : (items.find? fun other => Text.ciEquals other.1 column) = some item) :
    columnMentions items column = [item.2] := by
  have head := head?_mentions items column
  rw [found] at head
  cases mentioned : columnMentions items column with
  | nil =>
    rw [mentioned] at head
    cases head
  | cons first rest =>
    rw [mentioned] at head once
    obtain rfl : rest = [] := List.eq_nil_of_length_eq_zero (Nat.le_zero.mp (Nat.le_of_succ_le_succ once))
    cases head
    rfl

theorem mentions_of_absent {items : ColumnItems} {column : Text}
    (absent : (items.find? fun other => Text.ciEquals other.1 column) = none) : columnMentions items column = [] := by
  have head := head?_mentions items column
  rw [absent] at head
  exact List.head?_eq_none_iff.mp head

/-- One column united with the other list's. -/
structure United (level : ColumnItems) (item out : Text × Text) : Prop where
  named : Text.ciEquals out.1 item.1 = true
  told : absorb joinMask [item.2] (columnMentions level item.1) = some [out.2]
  source : out.1 = item.1 ∨ ∃ other ∈ level, out.1 = other.1

/-- The shared columns of two trees of leaves unite one by one. -/
theorem Leaves.unite {columns : List FieldNode} {items : ColumnItems} (leaves : Leaves columns items)
    {second : ColumnTrees} {level : ColumnItems} (leaves' : Leaves second.columns level)
    (once : ∀ column, (columnMentions level column).length ≤ 1) :
    ((∀ item ∈ items, absorb joinMask [item.2] (columnMentions level item.1) ≠ none) →
        ∃ shared list, (columns.mapM fun column => uniteNodes column.name (some column) (second.find column.name)) = .ok shared ∧
          Leaves (shared.filterMap id) list ∧ List.Forall₂ (United level) items list) ∧
      ((∃ item ∈ items, absorb joinMask [item.2] (columnMentions level item.1) = none) →
        ∃ error, (columns.mapM fun column => uniteNodes column.name (some column) (second.find column.name)) = .error error) := by
  induction leaves with
  | nil => exact ⟨fun _ => ⟨[], [], rfl, .nil, .nil⟩, fun refused => by simp at refused⟩
  | @cons node item columns items leaf leaves ih =>
    have found := leaves'.find item.1
    have head : (∀ mask, absorb joinMask [item.2] (columnMentions level item.1) = some [mask] →
          ∃ united out, uniteNodes node.name (some node) (second.find node.name) = .ok (some united) ∧
            Leaf united out ∧ United level item out) ∧
        (absorb joinMask [item.2] (columnMentions level item.1) = none →
          ∃ error, uniteNodes node.name (some node) (second.find node.name) = .error error) ∧
        (absorb joinMask [item.2] (columnMentions level item.1) ≠ none →
          ∃ mask, absorb joinMask [item.2] (columnMentions level item.1) = some [mask]) := by
      rw [ColumnTrees.find, leaf.name]
      generalize one : (second.columns.find? fun column => Text.ciEquals column.name item.1) = left at found
      generalize other : (level.find? fun other => Text.ciEquals other.1 item.1) = right at found
      cases found with
      | none =>
        have absent := mentions_of_absent other
        rw [absent]
        refine ⟨fun mask told => ?_, fun refused => (by cases refused), fun _ => ⟨item.2, rfl⟩⟩
        have told' := told
        cases told
        refine ⟨node, item, by rw [uniteNodes], leaf, Text.ciEquals_refl _, ?_, .inl rfl⟩
        rw [absent]
        exact told'
      | @some node' item' leaf' =>
        have mentioned := mentions_of_named (once item.1) other
        have inside := List.mem_of_find?_eq_some other
        have same : Text.ciEquals item'.1 item.1 = true := by simpa using List.find?_some other
        obtain ⟨done, failed⟩ := leaf.unite leaf' item.1
        rw [mentioned, absorb_single]
        refine ⟨fun mask told => ?_, fun refused => failed (Option.map_eq_none_iff.mp refused), fun given => ?_⟩
        · obtain ⟨value, joined, single⟩ := Option.map_eq_some_iff.mp told
          obtain rfl : value = mask := by simpa using single
          obtain ⟨united, name, ran, named, leaf''⟩ := done value joined
          refine ⟨united, (name, value), ran, leaf'', ?_, ?_, ?_⟩
          · rcases named with rfl | rfl
            · exact Text.ciEquals_refl _
            · exact same
          · rw [mentioned, absorb_single, joined]
            rfl
          · rcases named with rfl | rfl
            · exact .inl rfl
            · exact .inr ⟨item', inside, rfl⟩
        · obtain ⟨values, told⟩ := Option.ne_none_iff_exists'.mp given
          obtain ⟨value, joined, _⟩ := Option.map_eq_some_iff.mp told
          exact ⟨value, by rw [joined]; rfl⟩
    obtain ⟨done, failed, single⟩ := head
    rw [List.mapM_cons]
    constructor
    · intro all
      obtain ⟨mask, told⟩ := single (all item List.mem_cons_self)
      obtain ⟨united, out, ran, leaf', here⟩ := done mask told
      obtain ⟨shared, list, rans, leaves'', rest⟩ := ih.1 fun other member => all other (List.mem_cons_of_mem _ member)
      refine ⟨some united :: shared, out :: list, ?_, .cons leaf' leaves'', .cons here rest⟩
      simp [ran, rans, bind, Except.bind, pure, Except.pure]
    · rintro ⟨other, member, refused⟩
      by_cases here : absorb joinMask [item.2] (columnMentions level item.1) = none
      · obtain ⟨error, told⟩ := failed here
        exact ⟨error, by simp [told, bind, Except.bind]⟩
      · obtain ⟨mask, told⟩ := single here
        obtain ⟨united, out, ran, _⟩ := done mask told
        have later : ∃ other ∈ items, absorb joinMask [other.2] (columnMentions level other.1) = none := by
          rcases List.mem_cons.mp member with rfl | member
          · exact absurd refused here
          · exact ⟨other, member, refused⟩
        obtain ⟨error, refusal⟩ := ih.2 later
        exact ⟨error, by simp [ran, refusal, bind, Except.bind]⟩

private theorem mentions_united {level items list : ColumnItems} (united : List.Forall₂ (United level) items list)
    (column : Text) : List.Forall₂ (fun mask mask' => absorb joinMask [mask] (columnMentions level column) = some [mask'])
      (columnMentions items column) (columnMentions list column) := by
  induction united with
  | nil => exact .nil
  | @cons item out items list here _ ih =>
    have named : Text.ciEquals out.1 column = Text.ciEquals item.1 column := names_sameness.congr here.named column
    unfold columnMentions
    rw [mentions_cons, mentions_cons, named]
    split
    · next same =>
      have told := here.told
      rw [columnMentions, mentions_congr names_sameness same] at told
      exact .cons told ih
    · exact ih

private theorem united_source {level items list : ColumnItems} (united : List.Forall₂ (United level) items list)
    {out : Text × Text} (member : out ∈ list) :
    ∃ item ∈ items, out.1 = item.1 ∨ ∃ other ∈ level, out.1 = other.1 := by
  induction united with
  | nil => cases member
  | @cons item out' items list here _ ih =>
    rcases List.mem_cons.mp member with rfl | member
    · exact ⟨item, List.mem_cons_self, here.source⟩
    · obtain ⟨other, inside, source⟩ := ih member
      exact ⟨other, List.mem_cons_of_mem _ inside, source⟩

theorem Leaves.filter {columns : List FieldNode} {items : ColumnItems} (leaves : Leaves columns items)
    (keep : Text → Bool) :
    Leaves (columns.filter fun column => keep column.name) (items.filter fun item => keep item.1) := by
  induction leaves with
  | nil => exact .nil
  | cons leaf _ ih =>
    rw [List.filter_cons, List.filter_cons, leaf.name]
    split
    · exact .cons leaf ih
    · exact ih

/-- What the trees of two lists unite to, column by column. -/
theorem unite_flat {first second flat flat' : ColumnItems} {trees trees' : ColumnTrees} (held : Held first trees flat)
    (held' : Held second trees' flat') :
    ((∀ column, absorb joinMask (columnMentions flat column) (columnMentions flat' column) ≠ none) →
        ∃ items, uniteColumnItems first second = .ok items ∧ PlainList items ∧ ∀ column,
          absorb joinMask (columnMentions flat column) (columnMentions flat' column) = some (columnMentions items column)) ∧
      ((∃ column, absorb joinMask (columnMentions flat column) (columnMentions flat' column) = none) →
        ∃ error, uniteColumnItems first second = .error error) := by
  have once : ∀ column, (columnMentions flat column).length ≤ 1 := fun column => by
    rw [held.mentioned]
    cases shownBy (columnMentions first column) <;> simp
  have once' : ∀ column, (columnMentions flat' column).length ≤ 1 := fun column => by
    rw [held'.mentioned]
    cases shownBy (columnMentions second column) <;> simp
  have absent_of : ∀ {column}, (flat.find? fun item => Text.ciEquals item.1 column) = none →
      absorb joinMask (columnMentions flat column) (columnMentions flat' column) = some (columnMentions flat' column) := by
    intro column absent
    have few := once' column
    rw [mentions_of_absent absent]
    generalize columnMentions flat' column = masks at few
    cases masks with
    | nil => rfl
    | cons mask rest =>
      obtain rfl := List.eq_nil_of_length_eq_zero (Nat.le_zero.mp (Nat.le_of_succ_le_succ few))
      rfl
  obtain ⟨done, failed⟩ := held.leaves.unite held'.leaves once'
  constructor
  · intro all
    obtain ⟨shared, list, ran, leaves, united⟩ := done fun item member => by
      obtain ⟨other, found⟩ : ∃ other, (flat.find? fun other => Text.ciEquals other.1 item.1) = some other :=
        Option.isSome_iff_exists.mp (List.find?_isSome.mpr ⟨item, member, Text.ciEquals_refl _⟩)
      have mentioned := mentions_of_named (once item.1) found
      have inside : item.2 ∈ columnMentions flat item.1 := mem_mentions.mpr ⟨item, member, Text.ciEquals_refl _, rfl⟩
      rw [mentioned, List.mem_singleton] at inside
      have := all item.1
      rw [mentioned, ← inside] at this
      exact this
    have added := held'.leaves.filter fun name => (trees.find name).isNone
    have absent_iff : ∀ name, (trees.find name).isNone = (flat.find? fun item => Text.ciEquals item.1 name).isNone := by
      intro name
      have found := held.leaves.find name
      rw [ColumnTrees.find]
      generalize trees.columns.find? _ = left at found
      generalize flat.find? _ = right at found
      cases found <;> rfl
    have leavesAll := List.rel_append leaves added
    have plainBoth : PlainList (flat ++ flat') :=
      ⟨by rw [hasFieldPaths, List.any_append, ← hasFieldPaths, ← hasFieldPaths, held.plain.noPaths, held'.plain.noPaths]; rfl,
        fun item member => (List.mem_append.mp member).elim (held.plain.names item) (held'.plain.names item)⟩
    have plainAll : PlainList (list ++ flat'.filter fun item => (trees.find item.1).isNone) := by
      refine plainBoth.of_names fun item member => ?_
      rcases List.mem_append.mp member with inside | inside
      · obtain ⟨original, among, source⟩ := united_source united inside
        rcases source with same | ⟨other, among', same⟩
        · exact ⟨original, List.mem_append_left _ among, same⟩
        · exact ⟨other, List.mem_append_right _ among', same⟩
      · exact ⟨item, List.mem_append_right _ (List.mem_of_mem_filter inside), rfl⟩
    refine ⟨_, ?_, plainAll, fun column => ?_⟩
    · simp only [uniteColumnItems, held.read, held'.read, ran, bind, Except.bind, pure, Except.pure]
      rw [Leaves.items_eq leavesAll plainAll]
    · have shape := mentions_united united column
      have whole : columnMentions (list ++ flat'.filter fun item => (trees.find item.1).isNone) column =
          columnMentions list column ++ columnMentions (flat'.filter fun item => (trees.find item.1).isNone) column :=
        mentions_append _ _ _
      have judged : ∀ item : Text × Text, Text.ciEquals item.1 column = true →
          (trees.find item.1).isNone = (flat.find? fun item => Text.ciEquals item.1 column).isNone := by
        intro item same
        rw [absent_iff]
        simp only [Text.ciEquals_congr_right same]
      rw [whole]
      cases found : flat.find? fun item => Text.ciEquals item.1 column with
      | none =>
        have kept : columnMentions (flat'.filter fun item => (trees.find item.1).isNone) column =
            columnMentions flat' column := by
          unfold columnMentions mentions
          rw [List.filter_filter]
          congr 1
          refine List.filter_congr fun item _ => ?_
          by_cases same : Text.ciEquals item.1 column = true
          · rw [judged item same, found, same]
            rfl
          · simp [same]
        rw [mentions_of_absent found] at shape
        generalize columnMentions list column = shown at shape
        cases shape
        rw [absent_of found, kept, List.nil_append]
      | some item =>
        have dropped : columnMentions (flat'.filter fun item => (trees.find item.1).isNone) column = [] := by
          unfold columnMentions mentions
          rw [List.filter_filter, List.map_eq_nil_iff, List.filter_eq_nil_iff]
          intro other _
          by_cases same : Text.ciEquals other.1 column = true
          · rw [judged other same, found, same]
            simp
          · simp [same]
        rw [mentions_of_named (once column) found] at shape ⊢
        generalize columnMentions list column = shown at shape
        cases shape with
        | cons told rest =>
          cases rest
          rw [told, dropped, List.append_nil]
  · rintro ⟨column, refused⟩
    cases found : flat.find? fun item => Text.ciEquals item.1 column with
    | none =>
      rw [absent_of found] at refused
      cases refused
    | some item =>
      have same : Text.ciEquals item.1 column = true := by simpa using List.find?_some found
      rw [mentions_of_named (once column) found, columnMentions, ← mentions_congr names_sameness same] at refused
      obtain ⟨error, told⟩ := failed ⟨item, List.mem_of_find?_eq_some found, refused⟩
      exact ⟨error, by simp [uniteColumnItems, held.read, held'.read, told, bind, Except.bind]⟩

/-- A role's list is refused by the loop of `Add`, at one column: before the first bare mention the masks
differ; or the union's later mentions mask it two ways; or none is bare and the mentions do. -/
def AddRefuses (own more : List Text) : Prop :=
  TwoMasks ((own.take 1 ++ more).takeWhile (· ≠ [])) ∨ TwoMasks own.tail ∨
    ([] ∉ own.take 1 ++ more ∧ TwoMasks (own ++ more))

/-- When the loop of `Add` shows what the trees show: no column is masked two ways by the two lists
together; a column that the role's list names bare only is masked by no later mention of the union's; and
one that it both names bare and masks is one that the union names first bare, or masks later. Or some
column makes the loop refuse, and both do. -/
def UnitesAlike (columns list : ColumnItems) : Prop :=
  (∀ column, ¬ TwoMasks (columnMentions columns column ++ columnMentions list column) ∧
      (columnMentions list column ≠ [] → (∀ mask ∈ columnMentions list column, mask = []) →
        ∀ mask ∈ (columnMentions columns column).tail, mask = []) ∧
      ([] ∈ columnMentions list column → (∃ mask ∈ columnMentions list column, mask ≠ []) →
        (columnMentions columns column).head? = some [] ∨ ∃ mask ∈ (columnMentions columns column).tail, mask ≠ [])) ∨
    ∃ column, AddRefuses (columnMentions columns column) (columnMentions list column)

theorem TwoMasks.mono {masks more : List Text} (inside : masks ⊆ more) (two : TwoMasks masks) : TwoMasks more := by
  obtain ⟨first, member, second, member', given, given', differ⟩ := two
  exact ⟨first, inside member, second, inside member', given, given', differ⟩

/-- What the loop of `Add` leaves of a column is refused, by it or by the tree it makes. -/
private theorem addRefuses_iff (own more : List Text) :
    (absorb joinMask own more = none ∨ ∃ masks, absorb joinMask own more = some masks ∧ TwoMasks masks) ↔
      AddRefuses own more := by
  have single : ∀ mask, ¬ TwoMasks [mask] := by simp [TwoMasks]
  cases own with
  | nil =>
    cases more with
    | nil => simp [absorb, AddRefuses, TwoMasks]
    | cons first rest =>
      rw [absorb, absorb_join, AddRefuses]
      simp only [List.take_nil, List.nil_append, List.tail_nil]
      by_cases two : TwoMasks ((first :: rest).takeWhile (· ≠ []))
      · rw [if_pos two]
        exact iff_of_true (.inl rfl) (.inl two)
      · rw [if_neg two]
        refine iff_of_false ?_ ?_
        · rintro (refused | ⟨masks, kept, two'⟩)
          · cases refused
          · cases kept
            exact single _ two'
        · rintro (two' | two' | ⟨masked, two'⟩)
          · exact two two'
          · simp [TwoMasks] at two'
          · rw [List.takeWhile_eq_self_iff.mpr] at two
            · exact two two'
            · intro mask member
              simp only [ne_eq, decide_not, Bool.not_eq_eq_eq_not, Bool.not_true, decide_eq_false_iff_not]
              rintro rfl
              exact masked member
  | cons first rest =>
    rw [absorb_join, AddRefuses]
    simp only [List.take_succ_cons, List.take_zero, List.singleton_append, List.tail_cons]
    by_cases two : TwoMasks ((first :: more).takeWhile (· ≠ []))
    · rw [if_pos two]
      exact iff_of_true (.inl rfl) (.inl two)
    · rw [if_neg two]
      simp only [reduceCtorEq, Option.some.injEq, exists_eq_left', false_or, two]
      by_cases bare : [] ∈ first :: more
      · have kept : TwoMasks ([] :: rest) ↔ TwoMasks rest := by simp [TwoMasks]
        simp only [bare, ↓reduceIte, not_true_eq_false, false_and, or_false, kept]
      · simp only [bare, ↓reduceIte, not_false_eq_true, true_and]
        have whole : (first :: more).takeWhile (· ≠ []) = first :: more := List.takeWhile_eq_self_iff.mpr fun mask member => by
          simp only [ne_eq, decide_not, Bool.not_eq_eq_eq_not, Bool.not_true, decide_eq_false_iff_not]
          rintro rfl
          exact bare member
        rw [whole] at two
        have given : ∀ mask ∈ first :: more, mask ≠ [] := fun mask member same => bare (same ▸ member)
        have alike : ∀ mask ∈ more, mask = first := fun mask member => by
          by_contra differ
          exact two ⟨mask, List.mem_cons_of_mem _ member, first, List.mem_cons_self, given mask (List.mem_cons_of_mem _ member),
            given first List.mem_cons_self, differ⟩
        constructor
        · intro two'
          exact .inr (two'.mono fun mask member => by
            rcases List.mem_cons.mp member with rfl | member
            · exact List.mem_cons_self
            · exact List.mem_cons_of_mem _ (List.mem_append_left _ member))
        · rintro (two' | two')
          · exact two'.mono (List.subset_cons_self _ _)
          · refine two'.mono fun mask member => ?_
            rcases List.mem_cons.mp member with rfl | member
            · exact List.mem_cons_self
            · rcases List.mem_append.mp member with member | member
              · exact List.mem_cons_of_mem _ member
              · rw [alike mask member]
                exact List.mem_cons_self

theorem shownBy_nil_iff {masks : List Text} (alike : ¬ TwoMasks masks) :
    shownBy masks = some [] ↔ masks ≠ [] ∧ ∀ mask ∈ masks, mask = [] := by
  rw [shownBy_eq_some alike, if_pos rfl]

/-- The trees of two lists refuse a column exactly when the lists together mask it two ways. -/
private theorem unite_refuses_iff {own more : List Text} (alike : ¬ TwoMasks own) (alike' : ¬ TwoMasks more) :
    absorb joinMask (shownBy own).toList (shownBy more).toList = none ↔ TwoMasks (own ++ more) := by
  have reads {masks : List Text} (alike : ¬ TwoMasks masks) {mask : Text} (member : mask ∈ masks) (given : mask ≠ []) :
      shownBy masks = some mask :=
    (shownBy_eq_some alike).mpr ⟨List.ne_nil_of_mem member, by rw [if_neg given]; exact member⟩
  constructor
  · intro refused
    cases shown : shownBy own with
    | none =>
      rw [shown] at refused
      cases shown' : shownBy more <;> rw [shown'] at refused <;> cases refused
    | some mask =>
      cases shown' : shownBy more with
      | none =>
        rw [shown, shown'] at refused
        cases refused
      | some mask' =>
        rw [shown, shown', Option.toList_some, Option.toList_some, absorb_single, Option.map_eq_none_iff, joinMask] at refused
        split_ifs at refused with bare same
        rw [not_or] at bare
        have inside := ((shownBy_eq_some alike).mp shown).2
        have inside' := ((shownBy_eq_some alike').mp shown').2
        rw [if_neg bare.2] at inside
        rw [if_neg bare.1] at inside'
        exact ⟨mask, List.mem_append_left _ inside, mask', List.mem_append_right _ inside', bare.2, bare.1, same⟩
  · rintro ⟨first, member, second, member', given, given', differ⟩
    have crossed {one other : Text} (inside : one ∈ own) (inside' : other ∈ more) (told : one ≠ []) (told' : other ≠ [])
        (apart : one ≠ other) : absorb joinMask (shownBy own).toList (shownBy more).toList = none := by
      rw [reads alike inside told, reads alike' inside' told', Option.toList_some, Option.toList_some, absorb_single, joinMask,
        if_neg (by simp [told, told']), if_neg apart]
      rfl
    rcases List.mem_append.mp member with inside | inside <;> rcases List.mem_append.mp member' with inside' | inside'
    · exact absurd ⟨first, inside, second, inside', given, given', differ⟩ alike
    · exact crossed inside inside' given given' differ
    · exact crossed inside' inside given' given (Ne.symm differ)
    · exact absurd ⟨first, inside, second, inside', given, given', differ⟩ alike'

/-- Mentions of one mask at most: what they show is all of the column, or that mask. -/
private theorem shownBy_one {masks : List Text} {mask : Text} (given : mask ≠ [])
    (only : ∀ other ∈ masks, other = [] ∨ other = mask) :
    ¬ TwoMasks masks ∧ (masks = [] ∧ shownBy masks = none ∨ masks ≠ [] ∧ (∀ other ∈ masks, other = []) ∧ shownBy masks = some [] ∨
      mask ∈ masks ∧ shownBy masks = some mask) := by
  have alike : ¬ TwoMasks masks := by
    rintro ⟨first, member, second, member', told, told', differ⟩
    exact differ (((only first member).resolve_left told).trans ((only second member').resolve_left told').symm)
  refine ⟨alike, ?_⟩
  by_cases blank : masks = []
  · exact .inl ⟨blank, by rw [blank]; rfl⟩
  · refine .inr ?_
    by_cases inside : mask ∈ masks
    · exact .inr ⟨inside, (shownBy_eq_some alike).mpr ⟨blank, by rw [if_neg given]; exact inside⟩⟩
    · have bare : ∀ other ∈ masks, other = [] := fun other member =>
        (only other member).resolve_right fun same => inside (same ▸ member)
      exact .inl ⟨blank, bare, (shownBy_nil_iff alike).mpr ⟨blank, bare⟩⟩

private theorem shownBy_given {masks : List Text} {mask : Text} (given : mask ≠ [])
    (only : ∀ other ∈ masks, other = [] ∨ other = mask) (named : masks ≠ []) :
    shownBy masks = some (if ∀ other ∈ masks, other = [] then [] else mask) := by
  rcases (shownBy_one given only).2 with ⟨blank, _⟩ | ⟨_, bare, shown⟩ | ⟨inside, shown⟩
  · exact absurd blank named
  · rw [shown, if_pos bare]
  · rw [shown, if_neg fun bare => given (bare mask inside)]

private theorem mask_iff {mask : Text} (given : mask ≠ []) {first second : Prop} [Decidable first] [Decidable second] :
    ((if first then [] else mask) = if second then [] else mask) ↔ (first ↔ second) := by
  by_cases one : first <;> by_cases other : second <;> simp [one, other, given, Ne.symm given]

private theorem joined_bare {mask : Text} (given : mask ≠ []) {first second : Prop} [Decidable first] [Decidable second] :
    (absorb joinMask (some (if first then [] else mask)).toList (some (if second then [] else mask)).toList).map List.head? =
      some (some (if first ∨ second then [] else mask)) := by
  by_cases one : first <;> by_cases other : second <;> simp [absorb, joinMask, one, other, given]

private theorem bare_cases {blank bareRest bareMore someMore : Prop} (inside : bareMore → someMore) :
    ((blank ∨ someMore) ∧ bareRest ↔ blank ∧ bareRest ∨ bareMore) ↔
      (bareMore → bareRest) ∧ (someMore → ¬ bareMore → blank ∨ ¬ bareRest) := by
  tauto

/-- A column that the lists together mask one way is shown alike by the loop and by the trees exactly
under the condition. -/
private theorem unite_column {own more masks : List Text} (alike : ¬ TwoMasks (own ++ more))
    (kept : absorb joinMask own more = some masks) :
    some (shownBy masks) = (absorb joinMask (shownBy own).toList (shownBy more).toList).map List.head? ↔
      (more ≠ [] → (∀ mask ∈ more, mask = []) → ∀ mask ∈ own.tail, mask = []) ∧
        ([] ∈ more → (∃ mask ∈ more, mask ≠ []) → own.head? = some [] ∨ ∃ mask ∈ own.tail, mask ≠ []) := by
  obtain ⟨mask, given, only⟩ : ∃ mask : Text, mask ≠ [] ∧ ∀ other ∈ own ++ more, other = [] ∨ other = mask := by
    by_cases masked : ∃ mask ∈ own ++ more, mask ≠ []
    · obtain ⟨mask, member, given⟩ := masked
      refine ⟨mask, given, fun other inside => ?_⟩
      by_contra differ
      rw [not_or] at differ
      exact alike ⟨other, inside, mask, member, differ.1, given, differ.2⟩
    · push Not at masked
      exact ⟨['x'], by simp, fun other inside => .inl (masked other inside)⟩
  have onlyOwn : ∀ other ∈ own, other = [] ∨ other = mask := fun other member => only other (List.mem_append_left _ member)
  have onlyMore : ∀ other ∈ more, other = [] ∨ other = mask := fun other member => only other (List.mem_append_right _ member)
  have ne : ([] : Text) ≠ mask := Ne.symm given
  obtain ⟨_, showsMore⟩ := shownBy_one given onlyMore
  cases own with
  | nil =>
    cases more with
    | nil =>
      cases kept
      simp [absorb]
    | cons first rest =>
      rw [absorb, absorb_join] at kept
      split_ifs at kept with two bare
      · -- some mention is bare: the loop shows all of the column
        obtain rfl : [[]] = masks := Option.some.inj kept
        rw [shownBy_singleton]
        rcases showsMore with ⟨blank, _⟩ | ⟨_, all_bare, shown⟩ | ⟨inside, shown⟩
        · cases blank
        · rw [shown]
          simp only [shownBy_nil, Option.toList_none, Option.toList_some, absorb, Option.map_some, List.head?_cons,
            List.tail_nil, List.not_mem_nil, List.head?_nil]
          refine iff_of_true trivial ⟨fun _ _ _ absurd => absurd.elim, fun _ masked => ?_⟩
          obtain ⟨other, member, told⟩ := masked
          exact absurd (all_bare other member) told
        · rw [shown]
          simp only [shownBy_nil, Option.toList_none, Option.toList_some, absorb, Option.map_some, List.head?_cons,
            List.tail_nil, List.not_mem_nil, List.head?_nil]
          refine iff_of_false (by simpa using ne) fun both => ?_
          have := both.2 bare ⟨mask, inside, given⟩
          simp at this
      · obtain rfl : [first] = masks := Option.some.inj kept
        have same : first = mask := (onlyMore first List.mem_cons_self).resolve_left fun blank =>
          bare (by rw [blank]; exact List.mem_cons_self)
        rw [shownBy_singleton]
        rcases showsMore with ⟨blank, _⟩ | ⟨_, all_bare, _⟩ | ⟨inside, shown⟩
        · cases blank
        · exact absurd (same ▸ all_bare first List.mem_cons_self) given
        · rw [shown, same]
          simp only [shownBy_nil, Option.toList_none, Option.toList_some, absorb, Option.map_some, List.head?_cons,
            List.tail_nil, List.not_mem_nil, List.head?_nil, true_iff]
          exact ⟨fun _ _ _ absurd => absurd.elim, fun blank => absurd (same ▸ blank) bare⟩
  | cons first rest =>
    rw [absorb_join] at kept
    by_cases two : TwoMasks ((first :: more).takeWhile (· ≠ []))
    · rw [if_pos two] at kept
      cases kept
    rw [if_neg two] at kept
    obtain rfl := Option.some.inj kept
    have onlyMasks : ∀ other ∈ (if [] ∈ first :: more then [] else first) :: rest, other = [] ∨ other = mask := by
      intro other member
      rcases List.mem_cons.mp member with rfl | member
      · split_ifs
        · exact .inl rfl
        · exact onlyOwn first List.mem_cons_self
      · exact onlyOwn other (List.mem_cons_of_mem _ member)
    -- what the loop shows of the column is all of it in one case, and what the trees show in another
    have loop : (∀ other ∈ (if [] ∈ first :: more then [] else first) :: rest, other = []) ↔
        (first = [] ∨ [] ∈ more) ∧ ∀ other ∈ rest, other = [] := by
      rw [List.forall_mem_cons]
      refine and_congr_left fun _ => ?_
      by_cases bare : [] ∈ first :: more
      · rw [if_pos bare]
        exact iff_of_true rfl ((List.mem_cons.mp bare).imp_left Eq.symm)
      · rw [if_neg bare]
        exact ⟨Or.inl, fun told => absurd (List.mem_cons.mpr (told.imp_left Eq.symm)) bare⟩
    rw [shownBy_given given onlyMasks (List.cons_ne_nil _ _), shownBy_given given onlyOwn (List.cons_ne_nil _ _)]
    simp only [List.head?_cons, List.tail_cons, Option.some.injEq]
    cases more with
    | nil =>
      rw [shownBy_nil, Option.toList_some, Option.toList_none, absorb, Option.map_some, List.head?_cons, Option.some.injEq,
        Option.some.injEq, mask_iff given, loop, List.forall_mem_cons]
      simp
    | cons next others =>
      rw [shownBy_given given onlyMore (List.cons_ne_nil _ _), joined_bare given, Option.some.injEq, Option.some.injEq,
        mask_iff given, loop, List.forall_mem_cons]
      have bare_more : (∀ other ∈ next :: others, other = []) → [] ∈ next :: others := fun bare => by
        rw [← bare next List.mem_cons_self]
        exact List.mem_cons_self
      have masked_iff : (∃ other ∈ next :: others, other ≠ []) ↔ ¬ ∀ other ∈ next :: others, other = [] := by
        simp only [ne_eq, not_forall, exists_prop]
      have masked_rest : (∃ other ∈ rest, other ≠ []) ↔ ¬ ∀ other ∈ rest, other = [] := by
        simp only [ne_eq, not_forall, exists_prop]
      rw [masked_iff, masked_rest, bare_cases bare_more, forall_prop_of_true (List.cons_ne_nil _ _)]

/-- What the loop of `Add` makes of two lists, as a tree reads it. -/
private theorem added_reads {columns list : ColumnItems} (plain : PlainList columns) (plain' : PlainList list) :
    ((∃ column, AddRefuses (columnMentions columns column) (columnMentions list column)) →
        ∃ error, (mergeColumns columns list).bind ColumnTrees.fromItems = .error error) ∧
      ((¬ ∃ column, AddRefuses (columnMentions columns column) (columnMentions list column)) →
        ∃ last trees flat, mergeColumns columns list = .ok last ∧ Held last trees flat ∧ ∀ column,
          absorb joinMask (columnMentions columns column) (columnMentions list column) = some (columnMentions last column)) := by
  obtain ⟨done, failed⟩ := mergeColumns_upsertAll columns list
  obtain ⟨each, some_key⟩ := @upsertAll_mentions _ _ _ joinMask names_sameness columns list
  cases ran : upsertAll Text.ciEquals joinMask columns list with
  | none =>
    obtain ⟨error, refused⟩ := failed ran
    obtain ⟨column, told⟩ := some_key ran
    exact ⟨fun _ => ⟨error, by rw [refused]; rfl⟩,
      fun never => absurd ⟨column, (addRefuses_iff _ _).mp (.inl told)⟩ never⟩
  | some last =>
    have plainLast : PlainList last := by
      have plainBoth : PlainList (columns ++ list) :=
        { noPaths := by rw [hasFieldPaths, List.any_append, Bool.or_eq_false_iff]; exact ⟨plain.noPaths, plain'.noPaths⟩
          names := fun item member => (List.mem_append.mp member).elim (plain.names item) (plain'.names item) }
      exact plainBoth.of_names (upsertAll_names ran)
    constructor
    · rintro ⟨column, refuses⟩
      rcases (addRefuses_iff _ _).mpr refuses with told | ⟨masks, kept, two⟩
      · rw [each last ran column] at told
        cases told
      · rw [each last ran column] at kept
        cases kept
        obtain ⟨error, told⟩ := plainLast.held.2 ⟨column, two⟩
        exact ⟨error, by rw [done last ran]; exact told⟩
    · intro never
      have alike : ∀ column, ¬ TwoMasks (columnMentions last column) := fun column two =>
        never ⟨column, (addRefuses_iff _ _).mp (.inr ⟨_, each last ran column, two⟩)⟩
      obtain ⟨trees, flat, held⟩ := plainLast.held.1 alike
      exact ⟨last, trees, flat, done last ran, held, each last ran⟩

theorem AddRefuses.two {own more : List Text} (refuses : AddRefuses own more) : TwoMasks (own ++ more) := by
  have front : own.take 1 ++ more ⊆ own ++ more :=
    List.append_subset.mpr ⟨List.Subset.trans (List.take_subset 1 own) (List.subset_append_left _ _), List.subset_append_right _ _⟩
  rcases refuses with two | two | ⟨_, two⟩
  · exact two.mono (List.Subset.trans (List.takeWhile_subset _) front)
  · exact two.mono (List.Subset.trans (List.tail_subset own) (List.subset_append_left _ _))
  · exact two

/-- One mention and one mention make one at most. -/
private theorem absorb_once {own more : Option Text} {masks : List Text}
    (kept : absorb joinMask own.toList more.toList = some masks) : ¬ TwoMasks masks ∧ shownBy masks = masks.head? := by
  have few : masks.length ≤ 1 := by
    cases own with
    | none =>
      cases more <;> cases kept <;> simp
    | some mask =>
      cases more with
      | none =>
        cases kept
        simp
      | some mask' =>
        rw [Option.toList_some, Option.toList_some, absorb_single] at kept
        obtain ⟨joined, _, rfl⟩ := Option.map_eq_some_iff.mp kept
        simp
  cases masks with
  | nil => exact ⟨by simp [TwoMasks], rfl⟩
  | cons mask rest =>
    obtain rfl := List.eq_nil_of_length_eq_zero (Nat.le_zero.mp (Nat.le_of_succ_le_succ few))
    exact ⟨by simp [TwoMasks], shownBy_singleton mask⟩

/-- The loop of `Add` shows what the uniting trees show exactly under `UnitesAlike`. -/
theorem unite_showsAlike {columns list : ColumnItems} (plain : PlainList columns) (plain' : PlainList list) :
    ShowsAlike (mergeColumns columns list) (uniteColumnItems columns list) ↔ UnitesAlike columns list := by
  obtain ⟨fastRefused, fastRead⟩ := added_reads plain plain'
  unfold ShowsAlike UnitesAlike
  by_cases refused : ∃ column, TwoMasks (columnMentions columns column ++ columnMentions list column)
  · have slow : ∃ error, uniteColumnItems columns list = .error error := by
      by_cases first : ∃ column, TwoMasks (columnMentions columns column)
      · obtain ⟨error, told⟩ := plain.held.2 first
        exact ⟨error, by simp [uniteColumnItems, told, bind, Except.bind]⟩
      · push Not at first
        obtain ⟨trees, flat, held⟩ := plain.held.1 first
        by_cases second : ∃ column, TwoMasks (columnMentions list column)
        · obtain ⟨error, told⟩ := plain'.held.2 second
          exact ⟨error, by simp [uniteColumnItems, held.read, told, bind, Except.bind]⟩
        · push Not at second
          obtain ⟨trees', flat', held'⟩ := plain'.held.1 second
          obtain ⟨column, two⟩ := refused
          refine (unite_flat held held').2 ⟨column, ?_⟩
          rw [held.mentioned, held'.mentioned]
          exact (unite_refuses_iff (first column) (second column)).mpr two
    obtain ⟨error, told⟩ := slow
    have slowRead : (uniteColumnItems columns list).bind ColumnTrees.fromItems = .error error := by rw [told]; rfl
    have notAll : ¬ ∀ column, ¬ TwoMasks (columnMentions columns column ++ columnMentions list column) ∧
        (columnMentions list column ≠ [] → (∀ mask ∈ columnMentions list column, mask = []) →
          ∀ mask ∈ (columnMentions columns column).tail, mask = []) ∧
        ([] ∈ columnMentions list column → (∃ mask ∈ columnMentions list column, mask ≠ []) →
          (columnMentions columns column).head? = some [] ∨ ∃ mask ∈ (columnMentions columns column).tail, mask ≠ []) :=
      fun all => refused.elim fun column two => (all column).1 two
    rw [slowRead, or_iff_right notAll]
    by_cases refuses : ∃ column, AddRefuses (columnMentions columns column) (columnMentions list column)
    · obtain ⟨error', told'⟩ := fastRefused refuses
      rw [told']
      exact iff_of_true trivial refuses
    · obtain ⟨last, trees, flat, merged, held, _⟩ := fastRead refuses
      have read : (mergeColumns columns list).bind ColumnTrees.fromItems = .ok trees := by rw [merged]; exact held.read
      rw [read]
      exact iff_of_false id refuses
  · have never : ¬ ∃ column, AddRefuses (columnMentions columns column) (columnMentions list column) := by
      rintro ⟨column, refuses⟩
      exact refused ⟨column, refuses.two⟩
    rw [or_iff_left never]
    push Not at refused
    have alike : ∀ column, ¬ TwoMasks (columnMentions columns column) := fun column two =>
      refused column (two.mono (List.subset_append_left _ _))
    have alike' : ∀ column, ¬ TwoMasks (columnMentions list column) := fun column two =>
      refused column (two.mono (List.subset_append_right _ _))
    obtain ⟨trees, flat, held⟩ := plain.held.1 alike
    obtain ⟨trees', flat', held'⟩ := plain'.held.1 alike'
    obtain ⟨items, united, plainItems, mentioned⟩ := (unite_flat held held').1 fun column => by
      rw [held.mentioned, held'.mentioned]
      exact fun none_left => refused column ((unite_refuses_iff (alike column) (alike' column)).mp none_left)
    have once : ∀ column, ¬ TwoMasks (columnMentions items column) ∧
        shownBy (columnMentions items column) = (columnMentions items column).head? := fun column => by
      have kept := mentioned column
      rw [held.mentioned, held'.mentioned] at kept
      exact absorb_once kept
    obtain ⟨read, list', heldSlow⟩ := plainItems.held.1 fun column => (once column).1
    obtain ⟨last, treesFast, flatFast, merged, heldFast, kept⟩ := fastRead never
    have slowRead : (uniteColumnItems columns list).bind ColumnTrees.fromItems = .ok read := by
      rw [united]
      exact heldSlow.read
    have fastBound : (mergeColumns columns list).bind ColumnTrees.fromItems = .ok treesFast := by
      rw [merged]
      exact heldFast.read
    rw [slowRead, fastBound]
    refine forall_congr' fun column => ?_
    have shown := unite_column (refused column) (kept column)
    rw [← held.mentioned, ← held'.mentioned, mentioned column, Option.map_some, Option.some.injEq] at shown
    rw [heldFast.shown, heldSlow.shown, (once column).2, shown]
    exact ⟨fun condition => ⟨refused column, condition⟩, And.right⟩

/-- The flat loops of `Narrow` and `Add` show, of every column, what the trees of the two lists show, and
refuse when those refuse, exactly under `NarrowsAlike` and `UnitesAlike`. -/
theorem flat_loops_show_alike (policy role : GrantPolicy) (union : GrantUnion) (rls level : Text) (checked : Bool)
    (limited : policy.restricts = true) (given : parseColumnList level ≠ []) (plain : PlainList policy.columns)
    (plainLevel : hasFieldPaths (parseColumnList level) = false) (roleLimited : role.restricts = true)
    (plainUnion : PlainList union.columns) (plainRole : PlainList role.columns) :
    (ShowsAlike ((policy.narrow rls level checked).map GrantPolicy.columns)
        (intersectColumnItems policy.columns (parseColumnList level)) ↔
      NarrowsAlike policy.columns (parseColumnList level)) ∧
    (ShowsAlike ((union.add role).map GrantUnion.columns) (uniteColumnItems union.columns role.columns) ↔
      UnitesAlike union.columns role.columns) := by
  have narrowed : (policy.narrow rls level checked).map GrantPolicy.columns =
      .ok (GrantPolicy.intersectPlain policy.columns (parseColumnList level)) := by
    by_cases blank : rls = [] <;>
      simp [GrantPolicy.narrow, GrantPolicy.narrowColumns, given, limited, plain.noPaths, plainLevel, blank, Except.map]
  have added : (union.add role).map GrantUnion.columns = mergeColumns union.columns role.columns := by
    unfold GrantUnion.add mergeColumns
    by_cases blank : role.predicate = []
    · simp only [blank, roleLimited, plainUnion.noPaths, plainRole.noPaths, ↓reduceIte, Bool.or_self, Bool.false_eq_true,
        Bool.true_eq_false]
      cases role.columns.foldlM (fun columns column => GrantUnion.mergeColumn column columns) union.columns <;> rfl
    · simp only [blank, roleLimited, plainUnion.noPaths, plainRole.noPaths, ↓reduceIte, Bool.or_self, Bool.false_eq_true,
        Bool.true_eq_false]
      cases role.columns.foldlM (fun columns column => GrantUnion.mergeColumn column columns) union.columns <;> rfl
  rw [narrowed, added]
  exact ⟨narrow_showsAlike plain ⟨plainLevel, parseColumnList_trimmed level⟩, unite_showsAlike plainUnion plainRole⟩

private theorem parsed_bare : parseColumnList "a".toList = [("a".toList, [])] := by decide +kernel

private theorem parsed_masked : parseColumnList "a, a = 2".toList = [("a".toList, []), ("a".toList, "2".toList)] := by
  decide +kernel

private theorem plain_bare : PlainList [("a".toList, [])] := ⟨by decide, by decide⟩

private theorem plain_masked : PlainList [("a".toList, []), ("a".toList, "2".toList)] := ⟨by decide, by decide⟩

theorem flat_loops_show_alike_example :
    ShowsAlike ((({ restricts := true, columns := [("a".toList, [])] } : GrantPolicy).narrow [] "a".toList true).map
        GrantPolicy.columns) (intersectColumnItems [("a".toList, [])] (parseColumnList "a".toList)) ↔
      NarrowsAlike [("a".toList, [])] (parseColumnList "a".toList) :=
  (flat_loops_show_alike { restricts := true, columns := [("a".toList, [])] }
    { restricts := true, columns := [("a".toList, [])] } {} [] "a".toList true rfl (by rw [parsed_bare]; decide) plain_bare
    (by rw [parsed_bare]; decide) rfl ⟨by decide, by decide⟩ plain_bare).1

/-- A level that names a column bare and then masked un-masks it in the loops: `Narrow` takes its first
item for the column, and `Add` takes a bare item for an unmasked column. The trees keep the mask. -/
theorem flat_loops_unmask :
    ¬ ShowsAlike (.ok (GrantPolicy.intersectPlain (parseColumnList "a".toList) (parseColumnList "a, a = 2".toList)))
        (intersectColumnItems (parseColumnList "a".toList) (parseColumnList "a, a = 2".toList)) ∧
      ¬ ShowsAlike (mergeColumns [] (parseColumnList "a, a = 2".toList))
        (uniteColumnItems [] (parseColumnList "a, a = 2".toList)) := by
  rw [parsed_bare, parsed_masked]
  constructor
  · rw [narrow_showsAlike plain_bare plain_masked]
    rintro (all | ⟨column, two, _⟩)
    · exact absurd ((all "a".toList).2.2 (by decide) (by decide) "2".toList (by decide) (by decide)) (by decide)
    · rw [columnMentions, mentions_cons] at two
      split_ifs at two <;> simp [TwoMasks] at two
  · rw [unite_showsAlike ⟨by decide, by decide⟩ plain_masked]
    rintro (all | ⟨column, refuses⟩)
    · have shown := (all "a".toList).2.2 (by decide) ⟨"2".toList, by decide, by decide⟩
      revert shown
      decide
    · have two := refuses.two
      rw [columnMentions, columnMentions, mentions_nil, List.nil_append, mentions_cons, mentions_cons] at two
      split_ifs at two <;> simp [TwoMasks] at two

end DuckAcl
