import DuckAcl.Soundness.FieldLists

/-! # Trees written back as items

`ColumnTrees::Items` writes every whole and every masked position as an item, and the next reader
parses that list again. The items stand for the same positions, so nothing a tree masks is lost on
the way; what is whole covers everything below it again, except the masks. Only a column that is
written bare keeps no quotes, so it has to be its own trim.
-/

namespace DuckAcl

open AccessRules

/-! ## Masks of an insertion -/

/-- An insertion puts its own mask at its own path and nowhere else. -/
theorem insertPath_maskAt {mask display : Text} {steps : List Step} {before after : FieldNode}
    (ran : insertPath mask display steps before = .ok after) {path : List Step} {found : Text}
    (masked : after.maskAt path = some found) :
    before.maskAt path = some found ∨ (keys path = keys steps ∧ found = mask ∧ mask ≠ []) := by
  induction steps generalizing before after path with
  | nil =>
    simp only [insertPath] at ran
    split_ifs at ran with given
    · cases ran
      cases path with
      | nil =>
        simp only [FieldNode.maskAt, ↓reduceIte, Option.some.injEq] at masked
        exact .inr ⟨rfl, masked.symm, given⟩
      | cons => simp [FieldNode.maskAt] at masked
    · cases ran
      exact .inl masked
    · cases ran
      left
      rcases path with _ | ⟨_ | _, path⟩ <;> exact masked
  | cons step steps ih =>
    by_cases covered : before.masked = true
    · have unchanged : after = before := by
        cases step <;> simp only [insertPath, covered, ↓reduceIte] at ran <;> exact (Except.ok.inj ran).symm
      exact .inl (unchanged ▸ masked)
    · have unmasked := Bool.eq_false_iff.mpr covered
      obtain ⟨stays, _, name, new, inserted, children⟩ := insertPath_cons unmasked ran
      cases path with
      | nil => simp [FieldNode.maskAt, stays] at masked
      | cons other path =>
        rw [FieldNode.maskAt_cons stays, children other] at masked
        rw [FieldNode.maskAt_cons unmasked]
        split_ifs at masked with same
        · rcases ih inserted masked with old | ⟨equal, rest⟩
          · rw [(FieldNode.getD_blank_walk _ name path).2.1, FieldNode.child_congr before same] at old
            exact .inl old
          · exact .inr ⟨by rw [keys_cons, keys_cons, same, equal], rest⟩
        · exact .inl masked

private theorem editField_succeeds {name : Text} {edit : FieldNode → Except BinderException FieldNode}
    {fields : List FieldNode} {new : FieldNode}
    (done : edit ((fields.find? fun child => Text.ciEquals child.name name).getD { name }) = .ok new) :
    ∃ edited, editField name edit fields = .ok edited := by
  induction fields with
  | nil => exact ⟨[new], by simp_all [editField, bind, Except.bind, pure, Except.pure]⟩
  | cons child rest ih =>
    rw [List.find?_cons] at done
    simp only [editField, bind, Except.bind, pure, Except.pure]
    cases same : Text.ciEquals child.name name with
    | true =>
      rw [same] at done
      simp only [Option.getD_some] at done
      exact ⟨new :: rest, by simp [done]⟩
    | false =>
      rw [same] at done
      obtain ⟨edited, ran⟩ := ih done
      exact ⟨child :: edited, by simp [ran]⟩

/-- Only a different mask at the very same position is refused. -/
theorem insertPath_succeeds {mask display : Text} {steps : List Step} {before : FieldNode}
    (agrees : mask ≠ [] → ∀ found, before.maskAt steps = some found → found = mask) :
    ∃ after, insertPath mask display steps before = .ok after := by
  induction steps generalizing before with
  | nil =>
    simp only [insertPath]
    split_ifs with given clash
    · have := agrees given before.mask (by simp [FieldNode.maskAt, clash.1])
      exact absurd this clash.2
    all_goals exact ⟨_, rfl⟩
  | cons step steps ih =>
    by_cases covered : before.masked = true
    · exact ⟨before, by cases step <;> simp [insertPath, covered]⟩
    · have unmasked := Bool.eq_false_iff.mpr covered
      rw [FieldNode.maskAt_cons unmasked] at agrees
      have inner (name : Text) :
          ∃ after, insertPath mask display steps ((before.child step).getD { name }) = .ok after := by
        apply ih
        rw [(FieldNode.getD_blank_walk _ name steps).2.1]
        exact agrees
      cases step with
      | element =>
        obtain ⟨new, done⟩ := inner []
        refine ⟨{ before with element := some new }, ?_⟩
        simp only [FieldNode.child] at done
        simp [insertPath, unmasked, done, bind, Except.bind, pure, Except.pure]
      | field name =>
        obtain ⟨new, done⟩ := inner name
        obtain ⟨edited, ran⟩ := editField_succeeds done
        exact ⟨{ before with fields := edited }, by
          simp [insertPath, unmasked, ran, bind, Except.bind, pure, Except.pure]⟩

/-- A consistent list of items is accepted, and every mask of its trees is one of its items'. -/
theorem insertItems_succeeds {rules : List (Rule Step Text)} (consistent : Consistent rules)
    {items : ColumnItems} (within : ∀ item ∈ items, itemRule item ∈ rules) {trees : ColumnTrees}
    (known : ∀ path mask, trees.root.maskAt path = some mask → (keys path, some mask) ∈ rules) :
    ∃ after, items.foldlM ColumnTrees.insertItem trees = .ok after ∧
      ∀ path mask, after.root.maskAt path = some mask → (keys path, some mask) ∈ rules := by
  induction items generalizing trees with
  | nil => exact ⟨trees, rfl, known⟩
  | cons item items ih =>
    have first := within item (List.mem_cons_self ..)
    have masks (given : item.2 ≠ []) : (keys (itemSteps item), some item.2) ∈ rules := by
      simpa [itemRule, ruleOf, given] using first
    obtain ⟨node, inserted⟩ : ∃ after, insertPath item.2 item.1 (itemSteps item) trees.root = .ok after := by
      refine insertPath_succeeds fun given found masked => ?_
      exact consistent _ _ _ (known _ _ masked) (masks given)
    obtain ⟨next, isRoot, ran⟩ : ∃ next : ColumnTrees, next.root = node ∧ trees.insertItem item = .ok next := by
      simp only [itemSteps, insertPath, ColumnTrees.root, Bool.false_eq_true, ↓reduceIte, bind, Except.bind,
        pure, Except.pure] at inserted
      simp only [ColumnTrees.insertItem, bind, Except.bind, pure, Except.pure]
      split at inserted
      · cases inserted
      · rename_i columns edited
        cases inserted
        exact ⟨⟨columns⟩, rfl, by simp⟩
    have still : ∀ path mask, next.root.maskAt path = some mask → (keys path, some mask) ∈ rules := by
      intro path mask masked
      rcases insertPath_maskAt (insertItem_ok.mp ran) masked with old | ⟨same, rfl, given⟩
      · exact known path mask old
      · rw [same]
        exact masks given
    obtain ⟨after, folded, found⟩ := ih (fun other member => within other (List.mem_cons_of_mem _ member)) still
    refine ⟨after, ?_, found⟩
    simp only [List.foldlM_cons, ran, bind, Except.bind]
    exact folded

/-! ## The positions a tree is written as -/

mutual

/-- The positions `SerializeNode` writes, as paths from the node, each with its mask. -/
def nodePaths : FieldNode → List (List Step × Text)
  | ⟨_, whole, masked, mask, fields, element⟩ =>
    if masked then [([], mask)]
    else (if whole then [([], [])] else []) ++ fieldPaths fields ++ elementPaths element

def fieldPaths : List FieldNode → List (List Step × Text)
  | [] => []
  | child :: rest => (nodePaths child).map (fun entry => (.field child.name :: entry.1, entry.2)) ++ fieldPaths rest

def elementPaths : Option FieldNode → List (List Step × Text)
  | none => []
  | some child => (nodePaths child).map fun entry => (.element :: entry.1, entry.2)

end

mutual

theorem serializeNode_eq (position : Text) (node : FieldNode) : serializeNode position node =
    (nodePaths node).map fun entry => (position ++ entry.1.flatMap stepText, entry.2) := by
  obtain ⟨name, whole, masked, mask, fields, element⟩ := node
  rw [serializeNode, nodePaths]
  split_ifs with isMasked isWhole
  · simp
  · rw [serializeFields_eq, serializeElement_eq]
    simp
  · rw [serializeFields_eq, serializeElement_eq]
    simp

theorem serializeFields_eq (position : Text) (fields : List FieldNode) : serializeFields position fields =
    (fieldPaths fields).map fun entry => (position ++ entry.1.flatMap stepText, entry.2) := by
  match fields with
  | [] => rfl
  | child :: rest =>
    rw [serializeFields, fieldPaths, serializeNode_eq _ child, serializeFields_eq position rest]
    simp [Function.comp_def]

theorem serializeElement_eq (position : Text) (element : Option FieldNode) :
    serializeElement position element =
      (elementPaths element).map fun entry => (position ++ entry.1.flatMap stepText, entry.2) := by
  match element with
  | none => rfl
  | some child =>
    rw [serializeElement, elementPaths, serializeNode_eq _ child]
    simp [Function.comp_def]

end

private theorem mem_fieldPaths {fields : List FieldNode} {path : List Step} {mask : Text} :
    (path, mask) ∈ fieldPaths fields ↔
      ∃ child ∈ fields, ∃ rest, path = .field child.name :: rest ∧ (rest, mask) ∈ nodePaths child := by
  induction fields with
  | nil => simp [fieldPaths]
  | cons child fields ih =>
    simp only [fieldPaths, List.mem_append, ih, List.mem_map, Prod.mk.injEq, Prod.exists, List.mem_cons,
      exists_eq_or_imp]
    refine or_congr_left ?_
    constructor
    · rintro ⟨rest, _, member, rfl, rfl⟩
      exact ⟨rest, rfl, member⟩
    · rintro ⟨rest, rfl, member⟩
      exact ⟨rest, mask, member, rfl, rfl⟩

/-- The positions a well-formed node is written as, one step at a time. -/
private theorem mem_nodePaths_cons {node : FieldNode} (wf : node.Wf) {path : List Step} {step : Step} {mask : Text} :
    (∃ start, start.key = step.key ∧ (start :: path, mask) ∈ nodePaths node) ↔
      node.masked = false ∧ ∃ child, node.child step = some child ∧ (path, mask) ∈ nodePaths child := by
  obtain ⟨distinct, _, _, _, _⟩ := wf
  obtain ⟨name, whole, masked, text, fields, element⟩ := node
  dsimp only at distinct
  rw [nodePaths]
  cases masked with
  | true => simp
  | false =>
    have skip (start : Step) : (start :: path, mask) ∉ (if whole = true then [([], [])] else [] :
        List (List Step × Text)) := by
      split_ifs <;> simp
    simp only [Bool.false_eq_true, ↓reduceIte, List.mem_append, skip, false_or, true_and]
    cases step with
    | element =>
      cases element with
      | none =>
        simp only [elementPaths, List.not_mem_nil, or_false, mem_fieldPaths, FieldNode.child, reduceCtorEq,
          false_and, exists_false, iff_false, not_exists, not_and]
        rintro start same child _ rest equal
        obtain ⟨rfl, _⟩ := List.cons.inj equal
        cases same
      | some child =>
        simp only [elementPaths, List.mem_map, Prod.mk.injEq, Prod.exists, mem_fieldPaths, FieldNode.child,
          Option.some.injEq, exists_eq_left']
        constructor
        · rintro ⟨start, same, ⟨other, _, rest, equal, _⟩ | ⟨rest, _, member, equal, rfl⟩⟩
          · obtain ⟨rfl, _⟩ := List.cons.inj equal
            cases same
          · obtain ⟨_, rfl⟩ := List.cons.inj equal
            exact member
        · intro member
          exact ⟨.element, rfl, .inr ⟨path, mask, member, rfl, rfl⟩⟩
    | field wanted =>
      have notElement (start : Step) (same : start.key = (Step.field wanted).key) :
          (start :: path, mask) ∉ elementPaths element := by
        cases element with
        | none => simp [elementPaths]
        | some child =>
          simp only [elementPaths, List.mem_map, Prod.mk.injEq, List.cons.injEq, not_exists, not_and]
          rintro entry _ ⟨rfl, _⟩
          cases same
      constructor
      · rintro ⟨start, same, member | member⟩
        · obtain ⟨child, inside, rest, equal, below⟩ := mem_fieldPaths.mp member
          obtain ⟨rfl, rfl⟩ := List.cons.inj equal
          exact ⟨child, (find?_of_distinct distinct).mpr ⟨inside, Step.key_field_eq.mp same⟩, below⟩
        · exact absurd member (notElement start same)
      · rintro ⟨child, found, below⟩
        obtain ⟨inside, same⟩ := (find?_of_distinct distinct).mp found
        exact ⟨.field child.name, Step.key_field_eq.mpr same, .inl (mem_fieldPaths.mpr ⟨child, inside, path, rfl, below⟩)⟩

private theorem mem_nodePaths_nil {node : FieldNode} {mask : Text} : ([], mask) ∈ nodePaths node ↔
    (node.masked = true ∧ mask = node.mask) ∨ (node.masked = false ∧ node.whole = true ∧ mask = []) := by
  obtain ⟨name, whole, masked, text, fields, element⟩ := node
  have skipFields : ([], mask) ∉ fieldPaths fields := by
    simp [mem_fieldPaths]
  have skipElement : ([], mask) ∉ elementPaths element := by
    cases element <;> simp [elementPaths]
  rw [nodePaths]
  cases masked <;> cases whole <;> simp [skipFields, skipElement]

private theorem nodePaths_here {node : FieldNode} {mask : Text} (member : ([], mask) ∈ nodePaths node) :
    node.whole = true ∨ node.masked = true := by
  rcases mem_nodePaths_nil.mp member with ⟨masked, _⟩ | ⟨_, whole, _⟩
  · exact .inr masked
  · exact .inl whole

theorem nodePaths_childless {node : FieldNode} (wf : node.Wf) (noFields : node.fields.isEmpty = true)
    (noElement : node.element.isNone = true) {path : List Step} {mask : Text}
    (member : (path, mask) ∈ nodePaths node) : path = [] := by
  cases path with
  | nil => rfl
  | cons step path =>
    obtain ⟨_, child, found, _⟩ := (mem_nodePaths_cons wf).mp ⟨step, rfl, member⟩
    rw [List.isEmpty_iff] at noFields
    rw [Option.isNone_iff_eq_none] at noElement
    cases step <;> simp [FieldNode.child, FieldNode.find, noFields, noElement] at found

theorem nodePaths_maskAt {node : FieldNode} (wf : node.Wf) {path : List Step} {mask : Text}
    (member : (path, mask) ∈ nodePaths node) (given : mask ≠ []) : node.maskAt path = some mask := by
  induction path generalizing node with
  | nil =>
    rcases mem_nodePaths_nil.mp member with ⟨masked, rfl⟩ | ⟨_, _, rfl⟩
    · simp [FieldNode.maskAt, masked]
    · exact absurd rfl given
  | cons step path ih =>
    obtain ⟨unmasked, child, found, below⟩ := (mem_nodePaths_cons wf).mp ⟨step, rfl, member⟩
    rw [FieldNode.maskAt_cons unmasked, found]
    exact ih (wf.child found) below

theorem maskAt_nodePaths {node : FieldNode} (wf : node.Wf) {path : List Step} {mask : Text}
    (masked : node.maskAt path = some mask) :
    ∃ written, keys written = keys path ∧ (written, mask) ∈ nodePaths node ∧ mask ≠ [] := by
  induction path generalizing node with
  | nil =>
    obtain ⟨_, _, given, _, _⟩ := wf
    simp only [FieldNode.maskAt, Option.ite_none_right_eq_some, Option.some.injEq] at masked
    obtain ⟨isMasked, rfl⟩ := masked
    exact ⟨[], rfl, mem_nodePaths_nil.mpr (.inl ⟨isMasked, rfl⟩), given isMasked⟩
  | cons step path ih =>
    have unmasked : node.masked = false := by
      rw [Bool.eq_false_iff]
      intro isMasked
      simp [FieldNode.maskAt, isMasked] at masked
    rw [FieldNode.maskAt_cons unmasked, Option.bind_eq_some_iff] at masked
    obtain ⟨child, found, below⟩ := masked
    obtain ⟨written, same, member, given⟩ := ih (wf.child found) below
    obtain ⟨start, sameStep, whole⟩ := (mem_nodePaths_cons wf).mpr ⟨unmasked, child, found, member⟩
    exact ⟨start :: written, by rw [keys_cons, keys_cons, same, sameStep], whole, given⟩

private theorem unmasked_of_free {node : FieldNode} {path : List Step} (free : node.maskOn path = none) :
    node.masked = false := by
  rw [Bool.eq_false_iff]
  intro masked
  rw [FieldNode.maskOn_of_masked masked] at free
  cases free

theorem opens_nodePaths {node : FieldNode} (wf : node.Wf) {path : List Step} (free : node.maskOn path = none) :
    node.opens path = true ↔ ∃ above, (above, []) ∈ nodePaths node ∧ keys above <+: keys path := by
  have here {node : FieldNode} (unmasked : node.masked = false) (whole : node.whole = true) (path : List Step) :
      ∃ above, (above, []) ∈ nodePaths node ∧ keys above <+: keys path :=
    ⟨[], mem_nodePaths_nil.mpr (.inr ⟨unmasked, whole, rfl⟩), List.nil_prefix⟩
  have unmasked := unmasked_of_free free
  induction path generalizing node with
  | nil =>
    constructor
    · intro whole
      exact here unmasked whole []
    · rintro ⟨above, member, shorter⟩
      obtain rfl : above = [] := by simpa [keys] using shorter
      rcases mem_nodePaths_nil.mp member with ⟨masked, _⟩ | ⟨_, whole, _⟩
      · rw [unmasked] at masked
        cases masked
      · exact whole
  | cons step path ih =>
    rw [FieldNode.maskOn_cons unmasked] at free
    rw [FieldNode.opens_cons, Bool.or_eq_true]
    constructor
    · rintro (whole | shown)
      · exact here unmasked whole _
      · cases found : node.child step with
        | none => simp [found] at shown
        | some child =>
          simp only [found, Option.bind_some, Option.any_some] at free shown
          obtain ⟨above, member, shorter⟩ :=
            (ih (wf.child found) free (unmasked_of_free free)).mp shown
          obtain ⟨start, same, written⟩ := (mem_nodePaths_cons wf).mpr ⟨unmasked, child, found, member⟩
          refine ⟨start :: above, written, ?_⟩
          rw [keys_cons, keys_cons, same]
          exact List.cons_prefix_cons.mpr ⟨rfl, shorter⟩
    · rintro ⟨above, member, shorter⟩
      cases above with
      | nil =>
        rcases mem_nodePaths_nil.mp member with ⟨masked, _⟩ | ⟨_, whole, _⟩
        · rw [unmasked] at masked
          cases masked
        · exact .inl whole
      | cons start above =>
        obtain ⟨same, inner⟩ := List.cons_prefix_cons.mp shorter
        obtain ⟨_, child, found, below⟩ := (mem_nodePaths_cons wf).mp ⟨start, same, member⟩
        simp only [found, Option.bind_some, Option.any_some] at free ⊢
        exact .inr ((ih (wf.child found) free (unmasked_of_free free)).mpr ⟨above, below, inner⟩)

/-- The rules a tree is written as. -/
def nodeRules (node : FieldNode) : List (Rule Step Text) := (nodePaths node).map fun entry => ruleOf entry.1 entry.2

theorem nodeRules_mask {node : FieldNode} (wf : node.Wf) {path : List Step} {mask : Text} :
    (keys path, some mask) ∈ nodeRules node ↔ node.maskAt path = some mask := by
  constructor
  · intro member
    obtain ⟨⟨written, text⟩, inside, equal⟩ := List.mem_map.mp member
    simp only [ruleOf, Prod.mk.injEq, Option.ite_none_left_eq_some, Option.some.injEq] at equal
    obtain ⟨same, given, rfl⟩ := equal
    rw [← FieldNode.maskAt_congr same]
    exact nodePaths_maskAt wf inside given
  · intro masked
    obtain ⟨written, same, inside, given⟩ := maskAt_nodePaths wf masked
    refine List.mem_map.mpr ⟨(written, mask), inside, ?_⟩
    simp [ruleOf, same, given]

theorem nodeRules_consistent {node : FieldNode} (wf : node.Wf) : Consistent (nodeRules node) := by
  intro path first second isFirst isSecond
  obtain ⟨entry, _, equal⟩ := List.mem_map.mp isFirst
  obtain rfl : keys entry.1 = path := congrArg Prod.fst equal
  rw [nodeRules_mask wf] at isFirst isSecond
  exact Option.some.inj (isFirst.symm.trans isSecond)

theorem nodeRules_masks {node : FieldNode} (wf : node.Wf) (path : List Step) :
    Masks (nodeRules node) (keys path) ↔ (node.maskOn path).isSome := by
  rw [Option.isSome_iff_exists]
  constructor
  · rintro ⟨⟨masked, mask?⟩, member, given, shorter⟩
    obtain ⟨mask, rfl⟩ := Option.isSome_iff_exists.mp given
    obtain ⟨above, inner, rfl⟩ := List.prefix_map_iff.mp shorter
    exact ⟨mask, FieldNode.maskOn_eq_some.mpr ⟨above, inner, (nodeRules_mask wf).mp member⟩⟩
  · rintro ⟨mask, masked⟩
    obtain ⟨above, shorter, found⟩ := FieldNode.maskOn_eq_some.mp masked
    exact ⟨_, (nodeRules_mask wf).mpr found, rfl, shorter.map Step.key⟩

theorem nodeRules_opens {node : FieldNode} (wf : node.Wf) {path : List Step} (free : node.maskOn path = none) :
    Opens (nodeRules node) (keys path) ↔ node.opens path = true := by
  rw [opens_nodePaths wf free]
  constructor
  · rintro ⟨rule, member, shown, shorter⟩
    obtain ⟨⟨written, text⟩, inside, rfl⟩ := List.mem_map.mp member
    simp only [ruleOf, ite_eq_left_iff, reduceCtorEq, imp_false, Decidable.not_not] at shown shorter
    exact ⟨written, shown ▸ inside, shorter⟩
  · rintro ⟨above, member, shorter⟩
    exact ⟨_, List.mem_map_of_mem member, rfl, shorter⟩

/-! ## Reading the items again -/

theorem itemPath_fieldName {name : Text} {steps : List Step} (name_ne : name ≠ [])
    (named : ∀ field, .field field ∈ steps → field ≠ []) :
    ColumnTrees.itemPath (fieldName name ++ steps.flatMap stepText) = ⟨name, steps⟩ := by
  rw [ColumnTrees.itemPath, trim_path]
  split_ifs with isPath
  · rw [parseFieldPath_text name_ne named]
  · -- without quotes, `.` and `[` the text is a bare name
    simp only [ColumnTrees.looksLikePath, Bool.or_eq_true, List.contains_iff_mem, not_or] at isPath
    obtain ⟨⟨noDot, noBracket⟩, noQuote⟩ := isPath
    obtain rfl : steps = [] := by
      cases steps with
      | nil => rfl
      | cons step steps => cases step <;> simp [stepText] at noDot noBracket
    rw [fieldName] at noQuote ⊢
    split_ifs at noQuote ⊢
    · simp
    · simp at noQuote

theorem nodePaths_named {node : FieldNode} (wf : node.Wf) (named : node.Named) {path : List Step}
    {mask : Text} (member : (path, mask) ∈ nodePaths node) : ∀ field, .field field ∈ path → field ≠ [] := by
  induction path generalizing node with
  | nil => simp
  | cons step path ih =>
    obtain ⟨_, child, found, below⟩ := (mem_nodePaths_cons wf).mp ⟨step, rfl, member⟩
    obtain ⟨titled, fields, element⟩ := named
    have inner : child.Named := by
      cases step with
      | element => exact element child found
      | field name => exact fields child (List.mem_of_find?_eq_some found)
    rintro field (_ | ⟨_, member⟩)
    · have same := FieldNode.find_name found
      rintro rfl
      exact titled child (List.mem_of_find?_eq_some found) (Text.fold_eq_nil.mp (Text.ciEquals_iff.mp same))
    · exact ih (wf.child found) inner below field member

/-- A column is written as it is named. -/
def FieldNode.Bare (column : FieldNode) : Prop :=
  column.fields.isEmpty ∧ column.element.isNone ∧ ColumnTrees.looksLikePath column.name = false

/-- A position is read back as itself, if a bare name has no blanks at its ends. -/
theorem itemPath_root {column : FieldNode} (wf : column.Wf) (named : column.Named)
    (nameless : column.name = [] → column.fields = [] ∧ column.element = none)
    (trimmed : column.Bare → Text.trim column.name = column.name)
    {path : List Step} {mask : Text} (member : (path, mask) ∈ nodePaths column) :
    ColumnTrees.itemPath (ColumnTrees.rootName column ++ path.flatMap stepText) = ⟨column.name, path⟩ := by
  have steps := nodePaths_named wf named member
  rw [ColumnTrees.rootName]
  split_ifs with bare
  · obtain ⟨noFields, noElement, notPath⟩ := bare
    obtain rfl := nodePaths_childless wf noFields noElement member
    simp [ColumnTrees.itemPath, trimmed ⟨noFields, noElement, notPath⟩, notPath]
  · refine itemPath_fieldName ?_ steps
    intro empty
    obtain ⟨noFields, noElement⟩ := nameless empty
    apply bare
    simp [noFields, noElement, empty, ColumnTrees.looksLikePath]

private theorem itemPath_written {column : FieldNode} (wf : column.Wf) (named : column.Named)
    (nameless : column.name = [] → column.fields = [] ∧ column.element = none)
    (trimmed : column.whole = true ∨ column.masked = true → Text.trim column.name = column.name)
    {path : List Step} {mask : Text} (member : (path, mask) ∈ nodePaths column) :
    ColumnTrees.itemPath (ColumnTrees.rootName column ++ path.flatMap stepText) = ⟨column.name, path⟩ := by
  refine itemPath_root wf named nameless (fun bare => ?_) member
  obtain rfl := nodePaths_childless wf bare.1 bare.2.1 member
  exact trimmed (nodePaths_here member)

private theorem items_rules {trees : ColumnTrees} (sound : trees.Sound) (trimmed : trees.Trimmed) :
    trees.items.map itemRule = nodeRules trees.root := by
  have columnRules : ∀ column ∈ trees.columns, (serializeNode (ColumnTrees.rootName column) column).map itemRule =
      ((nodePaths column).map fun entry => (Step.field column.name :: entry.1, entry.2)).map
        fun entry => ruleOf entry.1 entry.2 := by
    intro column member
    obtain ⟨⟨_, _, _, fields, _⟩, named, nameless⟩ := sound
    rw [serializeNode_eq, List.map_map, List.map_map]
    refine List.map_congr_left fun entry inside => ?_
    have read := itemPath_written (fields column member) (named column member) (nameless column member)
      (trimmed column member) inside
    simp only [Function.comp_apply, itemRule, itemSteps, read]
  have flat : ∀ columns : List FieldNode, fieldPaths columns = columns.flatMap fun column =>
      (nodePaths column).map fun entry => (Step.field column.name :: entry.1, entry.2) := by
    intro columns
    induction columns with
    | nil => rfl
    | cons column rest ih => rw [fieldPaths, ih, List.flatMap_cons]
  have root : nodePaths trees.root = fieldPaths trees.columns := by
    simp [ColumnTrees.root, nodePaths, elementPaths]
  rw [nodeRules, root, flat, ColumnTrees.items, List.map_flatMap, List.map_flatMap]
  exact List.flatMap_congr columnRules

private theorem items_trimmed {trees : ColumnTrees} (sound : trees.Sound) (trimmed : trees.Trimmed) :
    ColumnsTrimmed trees.items := by
  intro item member bare
  obtain ⟨⟨_, _, _, fields, _⟩, named, nameless⟩ := sound
  obtain ⟨column, inside, written⟩ := List.mem_flatMap.mp member
  rw [serializeNode_eq] at written
  obtain ⟨⟨path, mask⟩, isPath, rfl⟩ := List.mem_map.mp written
  have read := itemPath_written (fields column inside) (named column inside) (nameless column inside)
    (trimmed column inside) isPath
  simp only [read] at bare ⊢
  subst bare
  exact trimmed column inside (nodePaths_here isPath)

/-- Trees written back and read again: the list is accepted, keeps every mask, and shows everything
below a whole position that is not masked. -/
theorem fromItems_items {trees : ColumnTrees} (sound : trees.Sound) (trimmed : trees.Trimmed) :
    ∃ reread, ColumnTrees.fromItems trees.items = .ok reread ∧ ColumnsTrimmed trees.items ∧
      ∀ path, reread.root.maskOn path = trees.root.maskOn path ∧
        (reread.root.reads path = true ↔ trees.root.maskOn path = none ∧ trees.root.opens path = true) := by
  have rules := items_rules sound trimmed
  have within : ∀ item ∈ trees.items, itemRule item ∈ nodeRules trees.root := by
    intro item member
    rw [← rules]
    exact List.mem_map_of_mem member
  have blank : ∀ path mask, (ColumnTrees.root {}).maskAt path = some mask →
      (keys path, some mask) ∈ nodeRules trees.root := by
    intro path mask masked
    rcases path with _ | ⟨_ | _, path⟩ <;> cases masked
  obtain ⟨inserted, folded, known⟩ := insertItems_succeeds (nodeRules_consistent sound.wf) within blank
  have ran : ColumnTrees.fromItems trees.items = .ok ⟨inserted.columns.map simplify⟩ := by
    simp [ColumnTrees.fromItems, folded, bind, Except.bind, pure, Except.pure]
  refine ⟨_, ran, items_trimmed sound trimmed, fun path => ?_⟩
  obtain ⟨masks, reads⟩ := fromItems_rules ran path
  rw [rules] at masks reads
  have same : (ColumnTrees.root ⟨inserted.columns.map simplify⟩).maskOn path = trees.root.maskOn path := by
    rw [(root_simplify inserted path (insertItems_sound sound_blank folded)).1] at masks ⊢
    cases masked : inserted.root.maskOn path with
    | none =>
      rw [nodeRules_masks sound.wf, masked] at masks
      exact (Option.not_isSome_iff_eq_none.mp fun found => by simpa using masks.mpr found).symm
    | some mask =>
      obtain ⟨above, shorter, found⟩ := FieldNode.maskOn_eq_some.mp masked
      have original := (nodeRules_mask sound.wf).mp (known above mask found)
      exact (FieldNode.maskOn_eq_some.mpr ⟨above, shorter, original⟩).symm
  refine ⟨same, ?_⟩
  rw [reads, Shows, nodeRules_masks sound.wf, Option.not_isSome_iff_eq_none, and_comm]
  exact and_congr_right fun free => nodeRules_opens sound.wf free

/-- The names trees are written under are trimmed. -/
theorem items_names_trimmed {trees : ColumnTrees} (sound : trees.Sound) (trimmed : trees.Trimmed) :
    ∀ item ∈ trees.items, Text.trim item.1 = item.1 := by
  intro item member
  obtain ⟨⟨_, _, _, fields, _⟩, _, _⟩ := sound
  obtain ⟨column, inside, written⟩ := List.mem_flatMap.mp member
  rw [serializeNode_eq] at written
  obtain ⟨⟨path, mask⟩, isPath, rfl⟩ := List.mem_map.mp written
  dsimp only
  rw [ColumnTrees.rootName]
  split_ifs with bare
  · obtain rfl := nodePaths_childless (fields column inside) bare.1 bare.2.1 isPath
    rw [List.flatMap_nil, List.append_nil]
    exact trimmed column inside (nodePaths_here isPath)
  · exact trim_path column.name path

/-- A node that is written as itself only is written once. -/
private theorem nodePaths_bare {node : FieldNode} (bare : ∀ entry ∈ nodePaths node, entry.1 = []) :
    (nodePaths node).length ≤ 1 := by
  obtain ⟨name, whole, masked, mask, fields, element⟩ := node
  rw [nodePaths] at bare ⊢
  cases masked with
  | true => simp
  | false =>
    simp only [Bool.false_eq_true, ↓reduceIte, List.mem_append] at bare ⊢
    have noFields : fieldPaths fields = [] := by
      rw [List.eq_nil_iff_forall_not_mem]
      rintro ⟨path, mask⟩ member
      obtain ⟨child, _, rest, rfl, _⟩ := mem_fieldPaths.mp member
      cases bare _ (.inl (.inr member))
    have noElement : elementPaths element = [] := by
      rw [List.eq_nil_iff_forall_not_mem]
      intro entry member
      have empty := bare _ (.inr member)
      cases element with
      | none => cases member
      | some child =>
        obtain ⟨_, _, rfl⟩ := List.mem_map.mp member
        cases empty
    rw [noFields, noElement]
    cases whole <;> simp

/-- A written list without field paths names each column once. -/
theorem items_distinct {trees : ColumnTrees} (sound : trees.Sound) (trimmed : trees.Trimmed)
    (flat : hasFieldPaths trees.items = false) :
    trees.items.Pairwise fun first second => Text.ciEquals first.1 second.1 = false := by
  have names := items_names_trimmed sound trimmed
  have noPath : ∀ item ∈ trees.items, ColumnTrees.itemPath item.1 = ⟨item.1, []⟩ := by
    intro item member
    rw [hasFieldPaths, List.any_eq_false] at flat
    have plain := flat item member
    rw [names item member] at plain
    simp [ColumnTrees.itemPath, names item member, plain]
  obtain ⟨⟨distinct, _, _, fields, _⟩, named, nameless⟩ := sound
  have written : ∀ column ∈ trees.columns, ∀ entry ∈ nodePaths column,
      entry.1 = [] ∧ ColumnTrees.rootName column ++ entry.1.flatMap stepText = column.name := by
    intro column member entry inside
    have read := itemPath_written (fields column member) (named column member) (nameless column member)
      (trimmed column member) inside
    have listed : (ColumnTrees.rootName column ++ entry.1.flatMap stepText, entry.2) ∈ trees.items := by
      rw [ColumnTrees.items, List.mem_flatMap]
      refine ⟨column, member, ?_⟩
      rw [serializeNode_eq]
      exact List.mem_map.mpr ⟨entry, inside, rfl⟩
    have same := read.symm.trans (noPath _ listed)
    injection same with head steps
    exact ⟨steps, head.symm⟩
  rw [ColumnTrees.items, List.pairwise_flatMap]
  constructor
  · intro column member
    have one := nodePaths_bare fun entry inside => (written column member entry inside).1
    rw [serializeNode_eq, List.pairwise_map]
    cases paths : nodePaths column with
    | nil => exact List.Pairwise.nil
    | cons entry rest =>
      rw [paths, List.length_cons] at one
      obtain rfl := List.eq_nil_of_length_eq_zero (Nat.le_zero.mp (Nat.le_of_succ_le_succ one))
      exact List.pairwise_singleton _ _
  · refine List.Pairwise.imp_of_mem ?_ distinct
    intro first second isFirst isSecond apart item member item' member'
    rw [serializeNode_eq] at member member'
    obtain ⟨entry, inside, rfl⟩ := List.mem_map.mp member
    obtain ⟨entry', inside', rfl⟩ := List.mem_map.mp member'
    dsimp only
    rw [(written first isFirst entry inside).2, (written second isSecond entry' inside').2]
    exact apart

end DuckAcl
