import DuckAcl.Soundness.FieldRereading

/-! # Trees built again from their items

The items of a column's tree, put one by one into an empty tree, build the tree again: field by field in
its order, up to what no one reads. Nobody asks whether a masked position is whole, nor what a list's
element is called. `Simplify` then changes the tree no more than it would have changed the first.
-/

namespace DuckAcl

namespace FieldNode

mutual

/-- A tree without what no one reads. -/
def clean : FieldNode → FieldNode
  | ⟨name, whole, masked, mask, fields, element⟩ =>
    if masked then ⟨name, false, true, mask, [], none⟩
    else ⟨name, whole, false, [], cleanFields fields, cleanElement element⟩

def cleanFields : List FieldNode → List FieldNode
  | [] => []
  | child :: rest => child.clean :: cleanFields rest

def cleanElement : Option FieldNode → Option FieldNode
  | none => none
  | some child => some { child.clean with name := [] }

end

theorem clean_name (node : FieldNode) : node.clean.name = node.name := by
  obtain ⟨name, whole, masked, mask, fields, element⟩ := node
  cases masked <;> rfl

/-- Every position says something. -/
inductive Telling : FieldNode → Prop
  | mk {node : FieldNode} (here : node.empty = false) (fields : ∀ child ∈ node.fields, Telling child)
    (element : ∀ child ∈ node.element, Telling child) : Telling node

end FieldNode

/-! ## Insertions -/

/-- What is inserted does not depend on what an error would show. -/
theorem insertPath_display {mask display display' : Text} {steps : List Step} {before after : FieldNode}
    (ran : insertPath mask display steps before = .ok after) : insertPath mask display' steps before = .ok after := by
  induction steps generalizing before after with
  | nil =>
    simp only [insertPath] at ran ⊢
    split_ifs at ran ⊢ <;> exact ran
  | cons step steps ih =>
    have edits : ∀ {name : Text} {fields edited : List FieldNode},
        editField name (insertPath mask display steps) fields = .ok edited →
          editField name (insertPath mask display' steps) fields = .ok edited := by
      intro name fields
      induction fields with
      | nil =>
        intro edited done
        simp only [editField, bind, Except.bind, pure, Except.pure] at done ⊢
        split at done
        · cases done
        · rename_i child inserted
          rw [ih inserted]
          exact done
      | cons child rest inner =>
        intro edited done
        simp only [editField, bind, Except.bind, pure, Except.pure] at done ⊢
        split_ifs at done ⊢ with same
        · split at done
          · cases done
          · rename_i new inserted
            rw [ih inserted]
            exact done
        · split at done
          · cases done
          · rename_i tail ran
            rw [inner ran]
            exact done
    cases step <;> simp only [insertPath, bind, Except.bind, pure, Except.pure] at ran ⊢ <;> split_ifs at ran ⊢
    · exact ran
    · split at ran
      · cases ran
      · rename_i edited done
        rw [edits done]
        exact ran
    · exact ran
    · split at ran
      · cases ran
      · rename_i child inserted
        rw [ih inserted]
        exact ran

/-- Put positions with their masks into a tree, one by one. -/
def fill (entries : List (List Step × Text)) (node : FieldNode) : Except BinderException FieldNode :=
  entries.foldlM (fun node entry => insertPath entry.2 [] entry.1 node) node

theorem fill_append {entries more : List (List Step × Text)} {node middle : FieldNode}
    (first : fill entries node = .ok middle) : fill (entries ++ more) node = fill more middle := by
  rw [fill, List.foldlM_append]
  change (fill entries node).bind _ = _
  rw [first]
  rfl

theorem fill_cons {entry : List Step × Text} {entries : List (List Step × Text)} {node middle : FieldNode}
    (first : insertPath entry.2 [] entry.1 node = .ok middle) : fill (entry :: entries) node = fill entries middle := by
  rw [fill, List.foldlM_cons, first]
  rfl

theorem fill_nil (node : FieldNode) : fill [] node = .ok node := by
  simp [fill, pure, Except.pure]

theorem fill_singleton {steps : List Step} {mask : Text} {node new : FieldNode}
    (inserted : insertPath mask [] steps node = .ok new) : fill [(steps, mask)] node = .ok new := by
  rw [fill_cons inserted, fill_nil]

/-- The steps of a position below a child. -/
def below (step : Step) (entries : List (List Step × Text)) : List (List Step × Text) :=
  entries.map fun entry => (step :: entry.1, entry.2)

/-- Editing the last field edits what is in it. -/
private theorem editField_last {name : Text} {edit : FieldNode → Except BinderException FieldNode}
    {before : List FieldNode} (apart : ∀ other ∈ before, Text.ciEquals other.name name = false) {child new : FieldNode}
    (same : child.name = name) (edited : edit child = .ok new) :
    editField name edit (before ++ [child]) = .ok (before ++ [new]) := by
  induction before with
  | nil => simp [editField, same, edited, bind, Except.bind, pure, Except.pure]
  | cons other rest ih =>
    have differs := apart other List.mem_cons_self
    rw [List.cons_append, editField, if_neg (by simp [differs]), ih fun next member => apart next (List.mem_cons_of_mem _ member)]
    rfl

private theorem editField_new {name : Text} {edit : FieldNode → Except BinderException FieldNode}
    {before : List FieldNode} (apart : ∀ other ∈ before, Text.ciEquals other.name name = false) {new : FieldNode}
    (edited : edit { name } = .ok new) : editField name edit before = .ok (before ++ [new]) := by
  induction before with
  | nil => simp [editField, edited, bind, Except.bind, pure, Except.pure]
  | cons other rest ih =>
    have differs := apart other List.mem_cons_self
    rw [editField, if_neg (by simp [differs]), ih fun next member => apart next (List.mem_cons_of_mem _ member)]
    rfl

private theorem fill_last {name : Text} {entries : List (List Step × Text)} {node child new : FieldNode}
    {before : List FieldNode} (unmasked : node.masked = false) (fields : node.fields = before ++ [child])
    (apart : ∀ other ∈ before, Text.ciEquals other.name name = false) (same : child.name = name)
    (filled : fill entries child = .ok new) :
    fill (below (.field name) entries) node = .ok { node with fields := before ++ [new] } := by
  induction entries generalizing node child with
  | nil =>
    rw [fill_nil] at filled
    cases filled
    rw [← fields, below, List.map_nil, fill_nil]
    cases node
    rfl
  | cons entry rest ih =>
    rw [fill, List.foldlM_cons] at filled
    cases inserted : insertPath entry.2 [] entry.1 child with
    | error => simp [inserted, bind, Except.bind] at filled
    | ok middle =>
      simp only [inserted, bind, Except.bind] at filled
      have first : insertPath entry.2 [] (.field name :: entry.1) node =
          .ok { node with fields := before ++ [middle] } := by
        simp only [insertPath, unmasked, Bool.false_eq_true, ↓reduceIte, fields, editField_last apart same inserted]
        rfl
      rw [below, List.map_cons, fill_cons first]
      exact ih unmasked rfl ((insertPath_name inserted).trans same) filled

/-- Filling in a field that is not there yet adds it at the end. -/
theorem fill_field {name : Text} {entries : List (List Step × Text)} {node new : FieldNode} (some : entries ≠ [])
    (unmasked : node.masked = false) (apart : ∀ other ∈ node.fields, Text.ciEquals other.name name = false)
    (filled : fill entries { name } = .ok new) :
    fill (below (.field name) entries) node = .ok { node with fields := node.fields ++ [new] } := by
  obtain ⟨entry, rest, rfl⟩ := List.exists_cons_of_ne_nil some
  rw [fill, List.foldlM_cons] at filled
  cases inserted : insertPath entry.2 [] entry.1 { name } with
  | error => simp [inserted, bind, Except.bind] at filled
  | ok middle =>
    simp only [inserted, bind, Except.bind] at filled
    have first : insertPath entry.2 [] (.field name :: entry.1) node =
        .ok { node with fields := node.fields ++ [middle] } := by
      simp only [insertPath, unmasked, Bool.false_eq_true, ↓reduceIte, editField_new apart inserted]
      rfl
    rw [below, List.map_cons, fill_cons first]
    exact fill_last unmasked rfl apart (insertPath_name inserted) filled

/-- Filling in an element that is not there yet. -/
theorem fill_element {entries : List (List Step × Text)} {node new : FieldNode} (some : entries ≠ [])
    (unmasked : node.masked = false) (filled : fill entries (node.element.getD {}) = .ok new) :
    fill (below .element entries) node = .ok { node with element := .some new } := by
  induction entries generalizing node with
  | nil => exact absurd rfl some
  | cons entry rest ih =>
    rw [fill, List.foldlM_cons] at filled
    cases inserted : insertPath entry.2 [] entry.1 (node.element.getD {}) with
    | error => simp [inserted, bind, Except.bind] at filled
    | ok middle =>
      simp only [inserted, bind, Except.bind] at filled
      have first : insertPath entry.2 [] (.element :: entry.1) node = .ok { node with element := .some middle } := by
        simp only [insertPath, unmasked, Bool.false_eq_true, ↓reduceIte, inserted, bind, Except.bind, pure, Except.pure]
      rw [below, List.map_cons, fill_cons first]
      cases rest with
      | nil =>
        cases filled
        exact fill_nil _
      | cons next rest => exact ih (by simp) unmasked filled

/-! ## Rebuilding -/

theorem FieldNode.Telling.nodePaths_ne_nil {node : FieldNode} (telling : node.Telling) : nodePaths node ≠ [] := by
  induction telling with
  | @mk node here _ _ fields element =>
    obtain ⟨name, whole, masked, mask, children, inner⟩ := node
    rw [nodePaths]
    cases masked with
    | true => simp
    | false =>
      cases whole with
      | true => simp
      | false =>
        cases children with
        | cons child rest =>
          have given := fields child List.mem_cons_self
          simp [fieldPaths, given]
        | nil =>
          cases inner with
          | none => cases here
          | some child =>
            have given := element child rfl
            simp [fieldPaths, elementPaths, given]

mutual

/-- The positions of a tree rebuild it. -/
theorem fill_nodePaths (name : Text) : ∀ node : FieldNode, node.Wf → node.Telling →
    fill (nodePaths node) { name } = .ok { node.clean with name }
  | ⟨_, whole, true, mask, fields, element⟩, wf, _ => by
    obtain ⟨_, _, given, _, _⟩ := wf
    have masks : mask ≠ [] := given rfl
    rw [nodePaths, if_pos rfl]
    exact fill_singleton (by simp [insertPath, masks, FieldNode.clean])
  | ⟨own, whole, false, mask, fields, element⟩, wf, telling => by
    obtain ⟨distinct, _, _, wfFields, wfElement⟩ := wf
    obtain ⟨_, tellingFields, tellingElement⟩ := telling
    have opened : fill (if whole then [([], [])] else []) { name } = .ok { name, whole } := by
      cases whole with
      | false => exact fill_nil _
      | true => exact fill_singleton (by simp [insertPath])
    have built := fill_fieldPaths { name, whole } fields rfl (by simp) distinct wfFields tellingFields
    have done := fill_elementPaths { name, whole, fields := FieldNode.cleanFields fields } element rfl rfl wfElement
      tellingElement
    rw [nodePaths, if_neg (by simp), List.append_assoc, fill_append opened, fill_append built]
    simpa [FieldNode.clean] using done

theorem fill_fieldPaths (node : FieldNode) : ∀ fields : List FieldNode, node.masked = false →
    (∀ other ∈ node.fields, ∀ child ∈ fields, Text.ciEquals other.name child.name = false) →
    fields.Pairwise (fun a b => Text.ciEquals a.name b.name = false) → (∀ child ∈ fields, child.Wf) →
    (∀ child ∈ fields, child.Telling) →
    fill (fieldPaths fields) node = .ok { node with fields := node.fields ++ FieldNode.cleanFields fields }
  | [], _, _, _, _, _ => by
    cases node
    simp [fieldPaths, fill_nil, FieldNode.cleanFields]
  | child :: rest, unmasked, apart, distinct, wf, telling => by
    obtain ⟨differs, distinct⟩ := List.pairwise_cons.mp distinct
    have isTelling := telling child List.mem_cons_self
    have built := fill_nodePaths child.name child (wf child List.mem_cons_self) isTelling
    have same : { child.clean with name := child.name } = child.clean := by
      rw [← FieldNode.clean_name child]
      rcases child.clean
      rfl
    rw [same] at built
    have first := fill_field isTelling.nodePaths_ne_nil unmasked
      (fun other member => apart other member child List.mem_cons_self) built
    have later := fill_fieldPaths { node with fields := node.fields ++ [child.clean] } rest unmasked
      (by
        intro other member next inside
        rcases List.mem_append.mp member with old | new
        · exact apart other old next (List.mem_cons_of_mem _ inside)
        · rw [List.mem_singleton.mp new, FieldNode.clean_name]
          exact differs next inside)
      distinct (fun next inside => wf next (List.mem_cons_of_mem _ inside))
      (fun next inside => telling next (List.mem_cons_of_mem _ inside))
    rw [fieldPaths]
    refine (fill_append first).trans (later.trans ?_)
    simp [FieldNode.cleanFields]

theorem fill_elementPaths (node : FieldNode) : ∀ element : Option FieldNode, node.masked = false → node.element = none →
    (∀ child ∈ element, child.Wf) → (∀ child ∈ element, child.Telling) →
    fill (elementPaths element) node = .ok { node with element := FieldNode.cleanElement element }
  | none, _, missing, _, _ => by
    cases node
    simp_all [elementPaths, fill_nil, FieldNode.cleanElement]
  | some child, unmasked, missing, wf, telling => by
    have isTelling := telling child rfl
    have built := fill_nodePaths [] child (wf child rfl) isTelling
    refine fill_element isTelling.nodePaths_ne_nil unmasked ?_
    rw [missing]
    exact built

end

end DuckAcl
