import DuckAcl.Soundness.FieldTrees

/-! # Item lists, read and written back

`ColumnTrees::From` over a list reads the list's own rules. `ColumnTrees::Items` writes the trees
back as a list, and reading that list again keeps every rule of the trees, provided each column
that is written bare keeps its name when it is trimmed.
-/

namespace DuckAcl

open AccessRules

namespace FieldNode

theorem maskAt_cons {node : FieldNode} (unmasked : node.masked = false) (step : Step) (path : List Step) :
    node.maskAt (step :: path) = (node.child step).bind (·.maskAt path) := by
  simp only [maskAt, unmasked, Bool.false_eq_true, ↓reduceIte]
  cases node.child step <;> rfl

theorem maskAt_congr {p q : List Step} (same : keys p = keys q) (node : FieldNode) :
    node.maskAt p = node.maskAt q := by
  induction p generalizing q node with
  | nil => cases q with
    | nil => rfl
    | cons => cases same
  | cons s p ih =>
    cases q with
    | nil => cases same
    | cons t q =>
      simp only [keys_cons, List.cons.injEq] at same
      simp only [maskAt, child_congr node same.1]
      cases node.child t with
      | none => rfl
      | some child => simp only [ih same.2 child]

/-- The mask on a path is the one put at its shortest masked prefix. -/
theorem maskOn_eq_some {node : FieldNode} {path : List Step} {mask : Text} :
    node.maskOn path = some mask ↔ ∃ above, above <+: path ∧ node.maskAt above = some mask := by
  induction path generalizing node with
  | nil => simp [maskOn, maskAt]
  | cons step path ih =>
    cases masked : node.masked with
    | true =>
      constructor
      · intro found
        exact ⟨[], List.nil_prefix, by simpa [maskOn, maskAt, masked] using found⟩
      · rintro ⟨above, shorter, found⟩
        cases above with
        | nil => simpa [maskOn, maskAt, masked] using found
        | cons other above => simp [maskAt, masked] at found
    | false =>
      rw [maskOn_cons masked, Option.bind_eq_some_iff]
      constructor
      · rintro ⟨child, found, below⟩
        obtain ⟨above, shorter, at'⟩ := ih.mp below
        refine ⟨step :: above, List.cons_prefix_cons.mpr ⟨rfl, shorter⟩, ?_⟩
        rw [maskAt_cons masked, found]
        exact at'
      · rintro ⟨above, shorter, found⟩
        cases above with
        | nil => simp [maskAt, masked] at found
        | cons other above =>
          obtain ⟨same, inner⟩ := List.cons_prefix_cons.mp shorter
          subst same
          rw [maskAt_cons masked, Option.bind_eq_some_iff] at found
          obtain ⟨child, found, below⟩ := found
          exact ⟨child, found, ih.mpr ⟨above, inner, below⟩⟩

/-- Under a whole position every child is whole or masked, and no child is empty: what `Simplify`
establishes. -/
inductive Tight : FieldNode → Prop
  | mk {node : FieldNode}
    (covered : node.whole = true → ∀ step child, node.child step = some child →
      child.whole = true ∨ child.masked = true)
    (telling : ∀ step child, node.child step = some child → child.empty = false)
    (below : ∀ step child, node.child step = some child → Tight child) : Tight node

/-- In a tight tree a position is read exactly when something on its path is whole and nothing is
masked. -/
theorem Tight.reads_iff {node : FieldNode} (tight : node.Tight) (path : List Step) :
    node.reads path = true ↔ node.maskOn path = none ∧ node.opens path = true := by
  induction path generalizing node with
  | nil => cases masked : node.masked <;> simp [reads, maskOn, opens, masked]
  | cons step path ih =>
    obtain ⟨covered, _, below⟩ := tight
    cases masked : node.masked with
    | true => simp [reads, maskOn, masked]
    | false =>
      rw [reads_cons masked, maskOn_cons masked, opens_cons]
      cases found : node.child step with
      | none => simp
      | some child =>
        simp only [Option.bind_some, Option.any_some, Bool.or_eq_true]
        rw [ih (below step child found)]
        refine and_congr_right fun free => ⟨.inr, ?_⟩
        rintro (whole | shown)
        · rcases covered whole step child found with whole' | masked'
          · cases path <;> simp [opens, whole']
          · rw [maskOn_of_masked masked'] at free
            cases free
        · exact shown

/-- The names of the fields below a position are not empty: they come from parsed paths. -/
inductive Named : FieldNode → Prop
  | mk {node : FieldNode} (titled : ∀ child ∈ node.fields, child.name ≠ [])
    (fields : ∀ child ∈ node.fields, Named child)
    (element : ∀ child ∈ node.element, Named child) : Named node

end FieldNode

/-! ## Simplified trees are well-formed and tight -/

private theorem simplifyFields_sublist (whole : Bool) (fields : List FieldNode) :
    (simplifyFields whole fields).Sublist (fields.map (simplifyUnder whole)) := by
  induction fields with
  | nil => exact List.Sublist.slnil
  | cons child rest ih =>
    simp only [simplifyFields, List.map_cons]
    split_ifs
    · exact ih.cons _
    · exact ih.cons_cons _

private theorem simplifyElement_some {whole : Bool} {old kept : FieldNode}
    (present : kept ∈ simplifyElement whole (some old)) : kept = simplifyUnder whole old := by
  simp only [simplifyElement] at present
  split_ifs at present
  · cases present
  · exact (Option.some.inj present).symm

theorem simplifyUnder_wf {node : FieldNode} (wf : node.Wf) (under : Bool) : (simplifyUnder under node).Wf := by
  induction wf generalizing under with
  | @mk node distinct childless given fields element ihFields ihElement =>
    obtain ⟨name, whole, masked, mask, children, child?⟩ := node
    dsimp only at distinct childless given fields element ihFields ihElement
    simp only [simplifyUnder]
    split_ifs with isMasked
    · exact .mk .nil (fun _ => ⟨rfl, rfl⟩) given (by simp) (by simp)
    · refine .mk ?_ (fun on => absurd on isMasked) (fun on => absurd on isMasked) ?_ ?_
      · refine (List.Pairwise.map (simplifyUnder (whole || under)) ?_ distinct).sublist
          (simplifyFields_sublist _ _)
        intro a b apart
        rw [simplifyUnder_name, simplifyUnder_name]
        exact apart
      · intro kept member
        obtain ⟨old, inside, rfl⟩ := List.mem_map.mp ((simplifyFields_sublist _ _).subset member)
        exact ihFields old inside _
      · intro kept present
        cases child? with
        | none => cases present
        | some old =>
          obtain rfl := simplifyElement_some present
          exact ihElement old rfl _

theorem simplifyUnder_tight {node : FieldNode} (wf : node.Wf) (under : Bool) :
    (simplifyUnder under node).Tight := by
  have step_child {node : FieldNode} (wf : node.Wf) {under : Bool} {step : Step} {child : FieldNode}
      (found : (simplifyUnder under node).child step = some child) :
      node.masked = false ∧ child.empty = false ∧
        ∃ old, node.child step = some old ∧ child = simplifyUnder (node.whole || under) old := by
    cases masked : node.masked with
    | true =>
      obtain ⟨_, _, _, _, _, _⟩ := node
      dsimp only at masked
      subst masked
      cases step <;> simp [simplifyUnder, FieldNode.child, FieldNode.find] at found
    | false =>
      rw [simplifyUnder_child wf masked, Option.filter_eq_some_iff, Option.map_eq_some_iff] at found
      obtain ⟨⟨old, inside, rfl⟩, kept⟩ := found
      simp only [saysNothing, Bool.not_eq_true', Bool.or_eq_false_iff] at kept
      exact ⟨rfl, kept.2, old, inside, rfl⟩
  have covered {node : FieldNode} (wf : node.Wf) (under : Bool) : (simplifyUnder under node).whole = true →
      ∀ step child, (simplifyUnder under node).child step = some child →
        child.whole = true ∨ child.masked = true := by
    intro whole step child found
    obtain ⟨unmasked, _, old, _, rfl⟩ := step_child wf found
    rw [simplifyUnder_whole unmasked] at whole
    cases masked : old.masked with
    | true => exact .inr ((simplifyUnder_masked _ _).trans masked)
    | false => exact .inl (by rw [simplifyUnder_whole masked, whole, Bool.or_true])
  induction wf generalizing under with
  | @mk node distinct childless given fields element ihFields ihElement =>
    have wf : node.Wf := .mk distinct childless given fields element
    refine .mk (covered wf under) (fun step child found => (step_child wf found).2.1) fun step child found => ?_
    obtain ⟨_, _, old, inside, rfl⟩ := step_child wf found
    cases step with
    | element => exact ihElement old inside _
    | field name => exact ihFields old (List.mem_of_find?_eq_some inside) _

theorem simplifyUnder_named {node : FieldNode} (named : node.Named) (under : Bool) :
    (simplifyUnder under node).Named := by
  induction named generalizing under with
  | @mk node titled fields element ihFields ihElement =>
    obtain ⟨name, whole, masked, mask, children, child?⟩ := node
    dsimp only at titled fields element ihFields ihElement
    simp only [simplifyUnder]
    split_ifs with isMasked
    · exact .mk (by simp) (by simp) (by simp)
    · refine .mk ?_ ?_ ?_
      · intro kept member
        obtain ⟨old, inside, rfl⟩ := List.mem_map.mp ((simplifyFields_sublist _ _).subset member)
        rw [simplifyUnder_name]
        exact titled old inside
      · intro kept member
        obtain ⟨old, inside, rfl⟩ := List.mem_map.mp ((simplifyFields_sublist _ _).subset member)
        exact ihFields old inside _
      · intro kept present
        cases child? with
        | none => cases present
        | some old =>
          obtain rfl := simplifyElement_some present
          exact ihElement old rfl _

theorem insertPath_named {mask display : Text} {steps : List Step} {before after : FieldNode}
    (named : before.Named) (steps_named : ∀ name, .field name ∈ steps → name ≠ [])
    (ran : insertPath mask display steps before = .ok after) : after.Named := by
  induction steps generalizing before after with
  | nil =>
    simp only [insertPath] at ran
    obtain ⟨titled, fields, element⟩ := named
    split_ifs at ran
    · cases ran
      exact .mk (by simp) (by simp) (by simp)
    · cases ran
      exact .mk titled fields element
    · cases ran
      exact .mk titled fields element
  | cons step steps ih =>
    have rest := fun name member => steps_named name (List.mem_cons_of_mem step member)
    have blank {name : Text} : FieldNode.Named { name } := .mk (by simp) (by simp) (by simp)
    obtain ⟨titled, fields, element⟩ := named
    cases step <;> simp only [insertPath, bind, Except.bind, pure, Except.pure] at ran <;>
      split_ifs at ran with masked
    · cases ran
      exact .mk titled fields element
    · rename_i name
      split at ran
      · cases ran
      · rename_i edited done
        cases ran
        refine .mk (editField_forall done titled fun old new shape _ inserted => ?_)
          (editField_forall done fields fun old new shape _ inserted => ?_) element
        · rw [insertPath_name inserted]
          rcases shape with old_ne | rfl
          · exact old_ne
          · exact steps_named name (List.mem_cons_self ..)
        · rcases shape with old_named | rfl
          · exact ih old_named rest inserted
          · exact ih blank rest inserted
    · cases ran
      exact .mk titled fields element
    · split at ran
      · cases ran
      · rename_i new done
        cases ran
        refine .mk titled fields ?_
        rintro child ⟨⟩
        cases present : before.element with
        | none => exact ih blank rest (by simpa [present] using done)
        | some old => exact ih (element old present) rest (by simpa [present] using done)

/-! ## Reading a list -/

/-- The path an item of a list names, its column first. -/
def itemSteps (item : Text × Text) : List Step :=
  .field (ColumnTrees.itemPath item.1).head :: (ColumnTrees.itemPath item.1).steps

/-- The rule an item of a list stands for. -/
def itemRule (item : Text × Text) : Rule Step Text := ruleOf (itemSteps item) item.2

theorem insertItem_ok {trees after : ColumnTrees} {item : Text × Text} :
    trees.insertItem item = .ok after ↔ insertPath item.2 item.1 (itemSteps item) trees.root = .ok after.root := by
  simp only [ColumnTrees.insertItem, itemSteps, insertPath, ColumnTrees.root, Bool.false_eq_true, ↓reduceIte,
    bind, Except.bind, pure, Except.pure]
  cases editField _ _ trees.columns with
  | error => simp
  | ok columns =>
    cases after
    simp

/-- Folding a list of items adds exactly their rules. -/
theorem insertItems_rules {items : ColumnItems} {trees after : ColumnTrees}
    (ran : items.foldlM ColumnTrees.insertItem trees = .ok after) (path : List Step) :
    ((after.root.maskOn path).isSome ↔
        (trees.root.maskOn path).isSome ∨ Masks (items.map itemRule) (keys path)) ∧
      (after.root.maskOn path = none →
        (after.root.opens path ↔ trees.root.opens path ∨ Opens (items.map itemRule) (keys path))) := by
  induction items generalizing trees with
  | nil =>
    cases ran
    simp
  | cons item items ih =>
    simp only [List.foldlM_cons, bind, Except.bind] at ran
    split at ran
    · cases ran
    · rename_i next inserted
      obtain ⟨masks, opens⟩ := ih ran
      obtain ⟨masksFirst, opensFirst⟩ := insertPath_rule (insertItem_ok.mp inserted) path
      rw [List.map_cons, masks_cons, opens_cons]
      constructor
      · rw [masks, masksFirst, or_assoc]
        rfl
      · intro free
        have next_free : next.root.maskOn path = none := by
          rw [← Option.not_isSome_iff_eq_none] at free ⊢
          exact fun masked => free (masks.mpr (.inl masked))
        rw [opens free, opensFirst next_free, or_assoc]
        rfl

/-- What `ColumnTrees::From` builds: well-formed trees whose field names are given, a column
without a name being a bare one. -/
structure ColumnTrees.Sound (trees : ColumnTrees) : Prop where
  wf : trees.root.Wf
  named : ∀ column ∈ trees.columns, column.Named
  nameless : ∀ column ∈ trees.columns, column.name = [] → column.fields = [] ∧ column.element = none

theorem itemPath_named (name : Text) :
    ((ColumnTrees.itemPath name).head = [] → (ColumnTrees.itemPath name).steps = []) ∧
      ∀ field, .field field ∈ (ColumnTrees.itemPath name).steps → field ≠ [] := by
  rw [ColumnTrees.itemPath]
  split_ifs
  · split
    · rename_i path parsed
      simp only [parseFieldPath, bind, Except.bind] at parsed
      split at parsed
      · cases parsed
      · rename_i steps read
        have named := readPath_named read
        split at parsed
        · rename_i head rest
          cases parsed
          constructor
          · intro nameless
            exact absurd nameless (named head (List.mem_cons_self ..))
          · intro field member
            exact named field (List.mem_cons_of_mem _ member)
        · cases parsed
    · simp
  · simp

private theorem insertItem_sound {trees after : ColumnTrees} {item : Text × Text} (sound : trees.Sound)
    (ran : trees.insertItem item = .ok after) : after.Sound := by
  obtain ⟨headless, named⟩ := itemPath_named item.1
  have wf := insertPath_wf sound.wf (insertItem_ok.mp ran)
  have blank {name : Text} : FieldNode.Named { name } := .mk (by simp) (by simp) (by simp)
  simp only [ColumnTrees.insertItem, bind, Except.bind, pure, Except.pure] at ran
  split at ran
  · cases ran
  · rename_i columns edited
    cases ran
    refine ⟨wf, editField_forall edited sound.named ?_, editField_forall edited sound.nameless ?_⟩
    · intro old new shape _ inserted
      refine insertPath_named ?_ named inserted
      rcases shape with old_named | rfl
      · exact old_named
      · exact blank
    · intro old new shape same inserted nameless
      rw [insertPath_name inserted] at nameless
      rw [nameless, Text.ciEquals_iff] at same
      have bare : old.fields = [] ∧ old.element = none := by
        rcases shape with childless | rfl
        · exact childless nameless
        · exact ⟨rfl, rfl⟩
      rw [headless (Text.fold_eq_nil.mp same.symm)] at inserted
      simp only [insertPath] at inserted
      split_ifs at inserted <;> cases inserted
      · exact ⟨rfl, rfl⟩
      · exact bare
      · exact bare

theorem sound_blank : ColumnTrees.Sound {} where
  wf := .mk .nil (by simp [ColumnTrees.root]) (by simp [ColumnTrees.root]) (by simp [ColumnTrees.root])
    (by simp [ColumnTrees.root])
  named := by simp
  nameless := by simp

theorem insertItems_sound {items : ColumnItems} {trees after : ColumnTrees} (sound : trees.Sound)
    (ran : items.foldlM ColumnTrees.insertItem trees = .ok after) : after.Sound := by
  induction items generalizing trees with
  | nil =>
    cases ran
    exact sound
  | cons item items ih =>
    simp only [List.foldlM_cons, bind, Except.bind] at ran
    split at ran
    · cases ran
    · rename_i next inserted
      exact ih (insertItem_sound sound inserted) ran

/-- Every column has something to say: its items left a mask or a whole position. -/
theorem insertItems_telling {items : ColumnItems} {trees after : ColumnTrees}
    (before : ∀ column ∈ trees.columns, ∃ path, (column.maskOn path).isSome ∨ column.opens path = true)
    (ran : items.foldlM ColumnTrees.insertItem trees = .ok after) :
    ∀ column ∈ after.columns, ∃ path, (column.maskOn path).isSome ∨ column.opens path = true := by
  induction items generalizing trees with
  | nil =>
    cases ran
    exact before
  | cons item items ih =>
    simp only [List.foldlM_cons, bind, Except.bind] at ran
    split at ran
    · cases ran
    · rename_i next inserted
      refine ih ?_ ran
      simp only [ColumnTrees.insertItem, bind, Except.bind, pure, Except.pure] at inserted
      split at inserted
      · cases inserted
      · rename_i columns edited
        cases inserted
        refine editField_forall edited before fun old new _ _ done => ?_
        refine ⟨(ColumnTrees.itemPath item.1).steps, ?_⟩
        obtain ⟨masks, opens⟩ := insertPath_rule done (ColumnTrees.itemPath item.1).steps
        cases masked : new.maskOn (ColumnTrees.itemPath item.1).steps with
        | some mask => exact .inl rfl
        | none =>
          refine .inr ((opens masked).mpr (.inr (opens_singleton.mpr ⟨?_, List.prefix_rfl⟩)))
          simp only [masked, Option.isSome_none, Bool.false_eq_true, false_iff, not_or, masks_singleton,
            not_and] at masks
          by_contra given
          exact masks.2 (Option.isSome_iff_ne_none.mpr given) List.prefix_rfl

/-- A column that is whole or masked has no blanks at either end of its name. -/
def ColumnTrees.Trimmed (trees : ColumnTrees) : Prop :=
  ∀ column ∈ trees.columns, column.whole = true ∨ column.masked = true → Text.trim column.name = column.name

/-- An item that names a column itself names it without blanks at either end. -/
def ColumnsTrimmed (items : ColumnItems) : Prop :=
  ∀ item ∈ items, (ColumnTrees.itemPath item.1).steps = [] →
    Text.trim (ColumnTrees.itemPath item.1).head = (ColumnTrees.itemPath item.1).head

private theorem insertItem_trimmed {trees after : ColumnTrees} {item : Text × Text} (trimmed : trees.Trimmed)
    (kept : (ColumnTrees.itemPath item.1).steps = [] →
      Text.trim (ColumnTrees.itemPath item.1).head = (ColumnTrees.itemPath item.1).head)
    (ran : trees.insertItem item = .ok after) : after.Trimmed := by
  simp only [ColumnTrees.insertItem, bind, Except.bind, pure, Except.pure] at ran
  split at ran
  · cases ran
  · rename_i columns edited
    cases ran
    refine editField_forall edited trimmed fun old new shape same done marked => ?_
    rw [insertPath_name done]
    cases steps : (ColumnTrees.itemPath item.1).steps with
    | nil => exact Text.trim_eq_self_of_ciEquals (Text.ciEquals_symm same) (kept steps)
    | cons step rest =>
      have flags : new.whole = old.whole ∧ new.masked = old.masked := by
        rw [steps] at done
        cases masked : old.masked with
        | true => cases step <;> simp only [insertPath, masked, ↓reduceIte] at done <;> cases done <;> simp [masked]
        | false =>
          obtain ⟨stays, keeps, _⟩ := insertPath_cons masked done
          exact ⟨keeps, stays⟩
      rw [flags.1, flags.2] at marked
      rcases shape with holds | rfl
      · exact holds marked
      · simp at marked

theorem insertItems_trimmed {items : ColumnItems} {trees after : ColumnTrees} (trimmed : trees.Trimmed)
    (kept : ColumnsTrimmed items) (ran : items.foldlM ColumnTrees.insertItem trees = .ok after) :
    after.Trimmed := by
  induction items generalizing trees with
  | nil =>
    cases ran
    exact trimmed
  | cons item items ih =>
    simp only [List.foldlM_cons, bind, Except.bind] at ran
    split at ran
    · cases ran
    · rename_i next inserted
      exact ih (insertItem_trimmed trimmed (kept item (List.mem_cons_self ..)) inserted)
        (fun other member => kept other (List.mem_cons_of_mem _ member)) ran

/-- Simplifying the columns is simplifying the position above them. -/
theorem root_simplify (trees : ColumnTrees) (path : List Step) (sound : trees.Sound) :
    (ColumnTrees.root ⟨trees.columns.map simplify⟩).maskOn path = trees.root.maskOn path ∧
      ((ColumnTrees.root ⟨trees.columns.map simplify⟩).reads path =
        ((trees.root.maskOn path).isNone && trees.root.opens path)) := by
  cases path with
  | nil => exact ⟨rfl, rfl⟩
  | cons step path =>
    rw [FieldNode.maskOn_cons rfl, FieldNode.maskOn_cons rfl, FieldNode.reads_cons rfl, FieldNode.opens_cons]
    cases step with
    | element => exact ⟨rfl, rfl⟩
    | field name =>
      have found : (ColumnTrees.root ⟨trees.columns.map simplify⟩).child (.field name) =
          (trees.root.child (.field name)).map simplify := by
        simp only [FieldNode.child, FieldNode.find, ColumnTrees.root, List.find?_map, Function.comp_def,
          simplify, simplifyUnder_name]
      rw [found]
      cases present : trees.root.child (.field name) with
      | none => exact ⟨rfl, rfl⟩
      | some column =>
        have walk := simplifyUnder_walk (sound.wf.child present) false path
        simp only [Option.map_some, Option.bind_some, Option.any_some, simplify, walk, true_and]
        rfl

/-- A list's trees read what its rules show, and mask what they mask. -/
theorem fromItems_rules {items : ColumnItems} {trees : ColumnTrees}
    (ran : ColumnTrees.fromItems items = .ok trees) (path : List Step) :
    ((trees.root.maskOn path).isSome ↔ Masks (items.map itemRule) (keys path)) ∧
      (trees.root.reads path = true ↔ Shows (items.map itemRule) (keys path)) := by
  simp only [ColumnTrees.fromItems, bind, Except.bind, pure, Except.pure] at ran
  split at ran
  · cases ran
  · rename_i inserted folded
    cases ran
    obtain ⟨masks, reads⟩ := root_simplify inserted path (insertItems_sound sound_blank folded)
    obtain ⟨masked, opened⟩ := insertItems_rules folded path
    have empty : (ColumnTrees.root {}).maskOn path = none ∧ (ColumnTrees.root {}).opens path = false := by
      rcases path with _ | ⟨_ | _, path⟩ <;> exact ⟨rfl, rfl⟩
    simp only [empty, Option.isSome_none, Bool.false_eq_true, false_or] at masked opened
    rw [masks, reads, masked]
    refine ⟨Iff.rfl, ?_⟩
    rw [Bool.and_eq_true, Option.isNone_iff_eq_none, Shows, and_comm, ← masked, Option.not_isSome_iff_eq_none]
    exact and_congr_left opened

theorem fromItems_split {items : ColumnItems} {trees : ColumnTrees}
    (ran : ColumnTrees.fromItems items = .ok trees) : ∃ inserted : ColumnTrees,
      items.foldlM ColumnTrees.insertItem {} = .ok inserted ∧ inserted.Sound ∧
      trees = ⟨inserted.columns.map simplify⟩ := by
  simp only [ColumnTrees.fromItems, bind, Except.bind, pure, Except.pure] at ran
  split at ran
  · cases ran
  · rename_i inserted folded
    cases ran
    exact ⟨inserted, folded, insertItems_sound sound_blank folded, rfl⟩

private theorem simplify_childless {node : FieldNode} (bare : node.fields = [] ∧ node.element = none) :
    (simplify node).fields = [] ∧ (simplify node).element = none := by
  obtain ⟨_, _, masked, _, fields, element⟩ := node
  obtain ⟨rfl, rfl⟩ := bare
  cases masked <;> exact ⟨rfl, rfl⟩

theorem fromItems_sound {items : ColumnItems} {trees : ColumnTrees}
    (ran : ColumnTrees.fromItems items = .ok trees) : trees.Sound := by
  obtain ⟨inserted, _, ⟨⟨distinct, _, _, fields, _⟩, named, nameless⟩, rfl⟩ := fromItems_split ran
  refine ⟨.mk ?_ nofun nofun ?_ (by simp [ColumnTrees.root]), ?_, ?_⟩
  · refine List.Pairwise.map simplify ?_ distinct
    intro a b apart
    rw [simplify, simplify, simplifyUnder_name, simplifyUnder_name]
    exact apart
  · intro column member
    obtain ⟨old, inside, rfl⟩ := List.mem_map.mp member
    exact simplifyUnder_wf (fields old inside) false
  · intro column member
    obtain ⟨old, inside, rfl⟩ := List.mem_map.mp member
    exact simplifyUnder_named (named old inside) false
  · intro column member nameless'
    obtain ⟨old, inside, rfl⟩ := List.mem_map.mp member
    rw [simplify, simplifyUnder_name] at nameless'
    exact simplify_childless (nameless old inside nameless')

theorem fromItems_tight {items : ColumnItems} {trees : ColumnTrees}
    (ran : ColumnTrees.fromItems items = .ok trees) : trees.root.Tight := by
  obtain ⟨inserted, folded, ⟨wf, _, _⟩, rfl⟩ := fromItems_split ran
  obtain ⟨_, _, _, fields, _⟩ := wf
  have columns {step : Step} {child : FieldNode}
      (found : (ColumnTrees.root ⟨inserted.columns.map simplify⟩).child step = some child) :
      ∃ old ∈ inserted.columns, child = simplify old := by
    cases step with
    | element => cases found
    | field name =>
      obtain ⟨old, inside, rfl⟩ := List.mem_map.mp (List.mem_of_find?_eq_some found)
      exact ⟨old, inside, rfl⟩
  refine .mk nofun ?_ ?_
  · intro step child found
    obtain ⟨old, inside, rfl⟩ := columns found
    rw [Bool.eq_false_iff]
    intro empty
    obtain ⟨path, told⟩ := insertItems_telling (by simp) folded old inside
    obtain ⟨hidden, noMask⟩ := FieldNode.empty_walk empty path
    obtain ⟨masks, reads⟩ := simplifyUnder_walk (fields old inside) false path
    rw [simplify, masks] at noMask
    rw [simplify, reads] at hidden
    simp only [noMask, Option.isNone_none, Bool.true_and, Bool.false_or] at hidden
    simp [noMask, hidden] at told
  · intro step child found
    obtain ⟨old, inside, rfl⟩ := columns found
    exact simplifyUnder_tight (fields old inside) false

theorem fromItems_trimmed {items : ColumnItems} {trees : ColumnTrees}
    (ran : ColumnTrees.fromItems items = .ok trees) (kept : ColumnsTrimmed items) : trees.Trimmed := by
  obtain ⟨inserted, folded, _, rfl⟩ := fromItems_split ran
  intro column member
  obtain ⟨old, inside, rfl⟩ := List.mem_map.mp member
  have blank : ColumnTrees.Trimmed {} := by simp [ColumnTrees.Trimmed]
  have trimmed := insertItems_trimmed blank kept folded old inside
  rw [simplify, simplifyUnder_name, simplifyUnder_masked]
  intro marked
  apply trimmed
  cases masked : old.masked with
  | true => exact .inr rfl
  | false => simpa [simplifyUnder_whole masked, masked] using marked

end DuckAcl
