import DuckAcl.Library.AccessRules
import DuckAcl.Model.FieldAccess

/-! # A list of items and its trees

`ColumnTrees::From` folds a list into trees and simplifies them. The result is compared with the
list read as prefix rules: a path is readable exactly when some item shows it or a position above
it and no item masks one. Insertion keeps that reading one item at a time, `Simplify` turns it
into the node's own flags, and `SerializeNode` followed by `ColumnTrees::From` keeps it again.
-/

namespace DuckAcl

open AccessRules

/-- A path up to the case of its names. -/
def keys (path : List Step) : List Step := path.map Step.key

@[simp] theorem keys_nil : keys [] = [] := rfl

@[simp] theorem keys_cons (step : Step) (path : List Step) : keys (step :: path) = step.key :: keys path := rfl

theorem Step.key_field_eq {a b : Text} : (Step.field a).key = (Step.field b).key ↔ Text.ciEquals a b = true := by
  simp only [Step.key, Step.field.injEq, Text.ciEquals_iff]

/-- The rule an item stands for. -/
def ruleOf (path : List Step) (mask : Text) : Rule Step Text :=
  (keys path, if mask = [] then none else some mask)

namespace FieldNode

theorem child_congr (node : FieldNode) {s t : Step} (same : s.key = t.key) : node.child s = node.child t := by
  cases s with
  | element =>
    cases t with
    | element => rfl
    | field name => cases same
  | field a =>
    cases t with
    | element => cases same
    | field b =>
      have equal := Step.key_field_eq.mp same
      simp only [child, find, Text.ciEquals_congr_right equal]

theorem find_name {node child : FieldNode} {name : Text} (found : node.find name = some child) :
    Text.ciEquals child.name name = true := by
  rw [find] at found
  have same := List.find?_some found
  exact same

theorem reads_congr {p q : List Step} (same : keys p = keys q) (node : FieldNode) : node.reads p = node.reads q := by
  induction p generalizing q node with
  | nil => cases q with
    | nil => rfl
    | cons => cases same
  | cons s p ih =>
    cases q with
    | nil => cases same
    | cons t q =>
      simp only [keys_cons, List.cons.injEq] at same
      simp only [reads, child_congr node same.1]
      cases node.child t with
      | none => rfl
      | some child => simp only [ih same.2 child]

theorem maskOn_congr {p q : List Step} (same : keys p = keys q) (node : FieldNode) :
    node.maskOn p = node.maskOn q := by
  induction p generalizing q node with
  | nil => cases q with
    | nil => rfl
    | cons => cases same
  | cons s p ih =>
    cases q with
    | nil => cases same
    | cons t q =>
      simp only [keys_cons, List.cons.injEq] at same
      simp only [maskOn, child_congr node same.1]
      cases node.child t with
      | none => rfl
      | some child => simp only [ih same.2 child]

theorem maskOn_of_masked {node : FieldNode} (masked : node.masked = true) (path : List Step) :
    node.maskOn path = some node.mask := by
  cases path <;> simp only [maskOn, masked, ↓reduceIte]

theorem maskOn_cons {node : FieldNode} (unmasked : node.masked = false) (step : Step) (path : List Step) :
    node.maskOn (step :: path) = (node.child step).bind (·.maskOn path) := by
  simp only [maskOn, unmasked, Bool.false_eq_true, ↓reduceIte]
  cases node.child step <;> rfl

theorem opens_cons (node : FieldNode) (step : Step) (path : List Step) :
    node.opens (step :: path) = (node.whole || (node.child step).any (·.opens path)) := by
  simp only [opens]
  cases node.child step <;> rfl

theorem reads_cons {node : FieldNode} (unmasked : node.masked = false) (step : Step) (path : List Step) :
    node.reads (step :: path) = match node.child step with
      | some child => child.reads path
      | none => node.whole := by
  rw [reads, unmasked]
  cases node.child step <;> rfl

end FieldNode

/-! ## Insertion -/

theorem editField_ok {name : Text} {edit : FieldNode → Except BinderException FieldNode}
    {fields edited : List FieldNode} (ran : editField name edit fields = .ok edited)
    (keeps : ∀ before after, edit before = .ok after → after.name = before.name) :
    ∃ after, edit ((fields.find? fun child => Text.ciEquals child.name name).getD { name }) = .ok after ∧
      ∀ other, edited.find? (fun child => Text.ciEquals child.name other) =
        if Text.ciEquals name other then some after
        else fields.find? fun child => Text.ciEquals child.name other := by
  induction fields generalizing edited with
  | nil =>
    simp only [editField, bind, Except.bind, pure, Except.pure] at ran
    cases done : edit { name } with
    | error => simp only [done] at ran; cases ran
    | ok after =>
      simp only [done, Except.ok.injEq] at ran
      subst ran
      have named : after.name = name := keeps _ _ done
      refine ⟨after, by simpa using done, fun other => ?_⟩
      simp only [List.find?_cons, List.find?_nil, named]
      cases Text.ciEquals name other <;> rfl
  | cons child rest ih =>
    simp only [editField, bind, Except.bind, pure, Except.pure] at ran
    split_ifs at ran with same
    · cases done : edit child with
      | error => simp only [done] at ran; cases ran
      | ok after =>
        simp only [done, Except.ok.injEq] at ran
        subst ran
        have named : after.name = child.name := keeps _ _ done
        refine ⟨after, by simpa [List.find?_cons, same] using done, fun other => ?_⟩
        simp only [List.find?_cons, named, Text.ciEquals_congr_left same other]
        cases Text.ciEquals name other <;> rfl
    · cases done : editField name edit rest with
      | error => simp only [done] at ran; cases ran
      | ok tail =>
        simp only [done, Except.ok.injEq] at ran
        subst ran
        obtain ⟨after, edited, finds⟩ := ih done
        refine ⟨after, by simpa [List.find?_cons, same] using edited, fun other => ?_⟩
        simp only [List.find?_cons, finds other]
        by_cases named : Text.ciEquals name other = true
        · have differs : Text.ciEquals child.name other = false := by
            rw [← Text.ciEquals_congr_right named child.name]
            exact Bool.eq_false_iff.mpr same
          simp only [differs, named, ↓reduceIte]
        · simp only [named, Bool.false_eq_true, ↓reduceIte]

theorem insertPath_name {mask display : Text} {steps : List Step} {before after : FieldNode}
    (ran : insertPath mask display steps before = .ok after) : after.name = before.name := by
  cases steps with
  | nil =>
    simp only [insertPath] at ran
    split_ifs at ran <;> cases ran <;> rfl
  | cons step steps =>
    cases step <;> simp only [insertPath, bind, Except.bind, pure, Except.pure] at ran
    all_goals
      split_ifs at ran
      · cases ran; rfl
      · split at ran
        · cases ran
        · cases ran; rfl

/-- A new position says nothing yet. -/
theorem FieldNode.getD_blank_walk (side : Option FieldNode) (name : Text) (path : List Step) :
    (side.getD { name }).maskOn path = side.bind (·.maskOn path) ∧
      (side.getD { name }).maskAt path = side.bind (·.maskAt path) ∧
      (side.getD { name }).opens path = side.any (·.opens path) := by
  cases side with
  | none => rcases path with _ | ⟨_ | _, path⟩ <;> exact ⟨rfl, rfl, rfl⟩
  | some node => exact ⟨rfl, rfl, rfl⟩

/-- Where an insertion leads: the edited child answers for the inserted step, every other child is
untouched. -/
theorem insertPath_cons {mask display : Text} {step : Step} {steps : List Step}
    {before after : FieldNode} (unmasked : before.masked = false)
    (ran : insertPath mask display (step :: steps) before = .ok after) :
    after.masked = false ∧ after.whole = before.whole ∧ ∃ name new,
      insertPath mask display steps ((before.child step).getD { name }) = .ok new ∧
      ∀ other, after.child other = if step.key = other.key then some new else before.child other := by
  cases step with
  | element =>
    simp only [insertPath, unmasked, Bool.false_eq_true, ↓reduceIte, bind, Except.bind, pure,
      Except.pure] at ran
    split at ran
    · cases ran
    · rename_i new done
      cases ran
      refine ⟨rfl, rfl, [], new, done, ?_⟩
      intro other
      cases other with
      | element => simp [FieldNode.child]
      | field name => simp [FieldNode.child, FieldNode.find, Step.key]
  | field name =>
    simp only [insertPath, unmasked, Bool.false_eq_true, ↓reduceIte, bind, Except.bind, pure,
      Except.pure] at ran
    split at ran
    · cases ran
    · rename_i edited done
      cases ran
      obtain ⟨new, inserted, finds⟩ := editField_ok done (fun _ _ => insertPath_name)
      refine ⟨rfl, rfl, name, new, inserted, ?_⟩
      intro other
      cases other with
      | element => simp [FieldNode.child, Step.key]
      | field wanted =>
        simp only [FieldNode.child, FieldNode.find, finds, Step.key_field_eq]

/-- One inserted item adds exactly its own rule. -/
theorem insertPath_rule {mask display : Text} {steps : List Step} {before after : FieldNode}
    (ran : insertPath mask display steps before = .ok after) (path : List Step) :
    ((after.maskOn path).isSome ↔ (before.maskOn path).isSome ∨ Masks [ruleOf steps mask] (keys path)) ∧
      (after.maskOn path = none →
        (after.opens path ↔ before.opens path ∨ Opens [ruleOf steps mask] (keys path))) := by
  induction steps generalizing before after path with
  | nil =>
    simp only [insertPath] at ran
    simp only [ruleOf, masks_singleton, opens_singleton, keys_nil, List.nil_prefix, and_true]
    split_ifs at ran with given clash masked
    · cases ran
      have shown : FieldNode.maskOn { before with masked := true, mask := mask, fields := [], element := none }
          path = some mask := FieldNode.maskOn_of_masked rfl path
      simp [shown, given]
    · cases ran
      have shown := FieldNode.maskOn_of_masked masked path
      simp [shown]
    · cases ran
      have same : FieldNode.maskOn { before with whole := true } path = before.maskOn path := by
        cases path with
        | nil => rfl
        | cons step path => cases step <;> rfl
      have open' : FieldNode.opens { before with whole := true } path = true := by
        cases path <;> simp [FieldNode.opens]
      simp [same, open', given]
  | cons step steps ih =>
    by_cases masked : before.masked = true
    · have unchanged : after = before := by
        cases step <;> simp only [insertPath, masked, ↓reduceIte] at ran <;> exact (Except.ok.inj ran).symm
      subst unchanged
      simp [FieldNode.maskOn_of_masked masked]
    · have unmasked := Bool.eq_false_iff.mpr masked
      obtain ⟨stays, keepsWhole, name, new, inserted, children⟩ := insertPath_cons unmasked ran
      cases path with
      | nil =>
        simp [FieldNode.maskOn, FieldNode.opens, stays, unmasked, keepsWhole, ruleOf, masks_singleton,
          opens_singleton]
      | cons other path =>
        rw [FieldNode.maskOn_cons stays, FieldNode.maskOn_cons unmasked, FieldNode.opens_cons,
          FieldNode.opens_cons, children other, keepsWhole]
        simp only [ruleOf, masks_singleton, opens_singleton, keys_cons, List.cons_prefix_cons]
        by_cases same : step.key = other.key
        · obtain ⟨oldMasks, _, oldOpens⟩ := FieldNode.getD_blank_walk (before.child step) name path
          have step' := ih inserted path
          rw [oldMasks, oldOpens, FieldNode.child_congr before same] at step'
          simp only [ruleOf, masks_singleton, opens_singleton] at step'
          simp only [same, ↓reduceIte, Option.bind_some, Option.any_some, true_and, Bool.or_eq_true]
          refine ⟨step'.1, fun free => ?_⟩
          rw [step'.2 free, or_assoc]
        · simp [same]

/-! ## Well-formed trees -/

/-- Sibling fields have different names, and a masked node has a mask and no children. -/
inductive FieldNode.Wf : FieldNode → Prop
  | mk {node : FieldNode}
    (distinct : node.fields.Pairwise fun a b => Text.ciEquals a.name b.name = false)
    (childless : node.masked = true → node.fields = [] ∧ node.element = none)
    (given : node.masked = true → node.mask ≠ [])
    (fields : ∀ child ∈ node.fields, Wf child)
    (element : ∀ child ∈ node.element, Wf child) : Wf node

theorem FieldNode.Wf.child {node child : FieldNode} (wf : node.Wf) {step : Step}
    (found : node.child step = some child) : child.Wf := by
  obtain ⟨_, _, _, fields, element⟩ := wf
  cases step with
  | element => exact element child found
  | field name => exact fields child (List.mem_of_find?_eq_some found)

/-- Among fields with different names the first of a name is the only one. -/
theorem find?_of_distinct {nodes : List FieldNode}
    (distinct : nodes.Pairwise fun a b => Text.ciEquals a.name b.name = false) {node : FieldNode}
    {name : Text} : nodes.find? (fun child => Text.ciEquals child.name name) = some node ↔
      node ∈ nodes ∧ Text.ciEquals node.name name = true := by
  constructor
  · intro found
    have same := List.find?_some found
    exact ⟨List.mem_of_find?_eq_some found, same⟩
  · rintro ⟨member, same⟩
    induction nodes with
    | nil => cases member
    | cons head rest ih =>
      obtain ⟨apart, distinct⟩ := List.pairwise_cons.mp distinct
      rw [List.find?_cons]
      rcases List.mem_cons.mp member with rfl | member
      · simp only [same]
      · have differs : Text.ciEquals head.name name = false := by
          rw [← Text.ciEquals_congr_right same head.name]
          exact apart node member
        simp only [differs]
        exact ih distinct member

private theorem editField_distinct {name : Text} {edit : FieldNode → Except BinderException FieldNode}
    {fields edited : List FieldNode} (ran : editField name edit fields = .ok edited)
    (keeps : ∀ before after, edit before = .ok after → after.name = before.name)
    (distinct : fields.Pairwise fun a b => Text.ciEquals a.name b.name = false) :
    edited.Pairwise (fun a b => Text.ciEquals a.name b.name = false) ∧
      ∀ node ∈ edited, (∃ old ∈ fields, node.name = old.name) ∨
        (node.name = name ∧ ∀ old ∈ fields, Text.ciEquals old.name name = false) := by
  induction fields generalizing edited with
  | nil =>
    simp only [editField, bind, Except.bind, pure, Except.pure] at ran
    split at ran
    · cases ran
    · rename_i after done
      cases ran
      simp [keeps _ _ done]
  | cons child rest ih =>
    obtain ⟨apart, distinct⟩ := List.pairwise_cons.mp distinct
    simp only [editField, bind, Except.bind, pure, Except.pure] at ran
    split_ifs at ran with same
    · split at ran
      · cases ran
      · rename_i after done
        cases ran
        have named := keeps _ _ done
        refine ⟨List.pairwise_cons.mpr ⟨fun other member => ?_, distinct⟩, fun node member => .inl ?_⟩
        · rw [named]
          exact apart other member
        · rcases List.mem_cons.mp member with rfl | member
          · exact ⟨child, List.mem_cons_self .., named⟩
          · exact ⟨node, List.mem_cons_of_mem _ member, rfl⟩
    · split at ran
      · cases ran
      · rename_i tail done
        cases ran
        obtain ⟨pairwise, names⟩ := ih done distinct
        refine ⟨List.pairwise_cons.mpr ⟨fun other member => ?_, pairwise⟩, fun node member => ?_⟩
        · rcases names other member with ⟨old, inside, equal⟩ | ⟨equal, _⟩
          · rw [equal]
            exact apart old inside
          · rw [equal]
            exact Bool.eq_false_iff.mpr same
        · rcases List.mem_cons.mp member with rfl | member
          · exact .inl ⟨node, List.mem_cons_self .., rfl⟩
          · rcases names node member with ⟨old, inside, equal⟩ | ⟨equal, missing⟩
            · exact .inl ⟨old, List.mem_cons_of_mem _ inside, equal⟩
            · refine .inr ⟨equal, fun old inside => ?_⟩
              rcases List.mem_cons.mp inside with rfl | inside
              · exact Bool.eq_false_iff.mpr same
              · exact missing old inside

/-- A property of nodes that an edit establishes holds of every field afterwards. -/
theorem editField_forall {P : FieldNode → Prop} {name : Text}
    {edit : FieldNode → Except BinderException FieldNode} {fields edited : List FieldNode}
    (ran : editField name edit fields = .ok edited) (before : ∀ node ∈ fields, P node)
    (establishes : ∀ old new, (P old ∨ old = { name }) → Text.ciEquals old.name name = true →
      edit old = .ok new → P new) :
    ∀ node ∈ edited, P node := by
  induction fields generalizing edited with
  | nil =>
    simp only [editField, bind, Except.bind, pure, Except.pure] at ran
    split at ran
    · cases ran
    · rename_i after done
      cases ran
      simpa using establishes _ _ (.inr rfl) (Text.ciEquals_refl name) done
  | cons child rest ih =>
    simp only [editField, bind, Except.bind, pure, Except.pure] at ran
    have first := before child (List.mem_cons_self ..)
    have others := fun node member => before node (List.mem_cons_of_mem child member)
    split_ifs at ran with same
    · split at ran
      · cases ran
      · rename_i after done
        cases ran
        rintro node (_ | ⟨_, member⟩)
        · exact establishes _ _ (.inl first) same done
        · exact others node member
    · split at ran
      · cases ran
      · rename_i tail done
        cases ran
        rintro node (_ | ⟨_, member⟩)
        · exact first
        · exact ih done others node member

private theorem wf_blank (name : Text) : FieldNode.Wf { name } :=
  .mk .nil (by simp) (by simp) (by simp) (by simp)

theorem insertPath_wf {mask display : Text} {steps : List Step} {before after : FieldNode}
    (wf : before.Wf) (ran : insertPath mask display steps before = .ok after) : after.Wf := by
  induction steps generalizing before after with
  | nil =>
    simp only [insertPath] at ran
    obtain ⟨distinct, childless, given, fields, element⟩ := wf
    split_ifs at ran with mask_ne _ masked
    · cases ran
      exact .mk .nil (fun _ => ⟨rfl, rfl⟩) (fun _ => mask_ne) (by simp) (by simp)
    · cases ran
      exact .mk distinct childless given fields element
    · cases ran
      exact .mk distinct childless given fields element
  | cons step steps ih =>
    obtain ⟨distinct, childless, given, fields, element⟩ := wf
    cases step <;> simp only [insertPath, bind, Except.bind, pure, Except.pure] at ran <;>
      split_ifs at ran with masked
    · cases ran
      exact .mk distinct childless given fields element
    · split at ran
      · cases ran
      · rename_i edited done
        cases ran
        refine .mk (editField_distinct done (fun _ _ => insertPath_name) distinct).1
          (fun isMasked => absurd isMasked masked) (fun isMasked => absurd isMasked masked) ?_ element
        refine editField_forall done fields fun old new shape _ inserted => ?_
        rcases shape with wf | rfl
        · exact ih wf inserted
        · exact ih (wf_blank _) inserted
    · cases ran
      exact .mk distinct childless given fields element
    · split at ran
      · cases ran
      · rename_i new done
        cases ran
        refine .mk distinct (fun isMasked => absurd isMasked masked) (fun isMasked => absurd isMasked masked)
          fields ?_
        rintro child ⟨⟩
        cases present : before.element with
        | none => exact ih (wf_blank _) (by simpa [present] using done)
        | some old => exact ih (element old present) (by simpa [present] using done)

/-! ## Simplification -/

theorem simplifyUnder_name (under : Bool) (node : FieldNode) : (simplifyUnder under node).name = node.name := by
  cases node
  simp only [simplifyUnder]
  split_ifs <;> rfl

theorem simplifyUnder_masked (under : Bool) (node : FieldNode) :
    (simplifyUnder under node).masked = node.masked := by
  cases node
  simp only [simplifyUnder]
  split_ifs <;> rfl

private theorem simplifyFields_find {whole : Bool} {fields : List FieldNode} (name : Text)
    (distinct : fields.Pairwise fun a b => Text.ciEquals a.name b.name = false) :
    (simplifyFields whole fields).find? (fun child => Text.ciEquals child.name name) =
      ((fields.find? fun child => Text.ciEquals child.name name).map (simplifyUnder whole)).filter
        (!saysNothing whole ·) := by
  induction fields with
  | nil => rfl
  | cons child rest ih =>
    obtain ⟨apart, distinct⟩ := List.pairwise_cons.mp distinct
    simp only [simplifyFields]
    by_cases same : Text.ciEquals child.name name = true
    · have missing : rest.find? (fun child => Text.ciEquals child.name name) = none := by
        rw [List.find?_eq_none]
        intro other member equal
        rw [← Text.ciEquals_congr_right equal, apart other member] at same
        cases same
      rw [List.find?_cons, same]
      simp only [Option.map_some, Option.filter_some]
      cases dropped : saysNothing whole (simplifyUnder whole child) with
      | true => simp [ih distinct, missing]
      | false => simp [simplifyUnder_name, same]
    · rw [List.find?_cons, Bool.eq_false_iff.mpr same]
      simp only []
      rw [← ih distinct]
      split_ifs with dropped
      · rfl
      · rw [List.find?_cons, simplifyUnder_name, Bool.eq_false_iff.mpr same]

theorem simplifyUnder_child {under : Bool} {node : FieldNode} (wf : node.Wf)
    (unmasked : node.masked = false) (step : Step) :
    (simplifyUnder under node).child step =
      ((node.child step).map (simplifyUnder (node.whole || under))).filter
        (!saysNothing (node.whole || under) ·) := by
  obtain ⟨distinct, _, _, _, _⟩ := wf
  obtain ⟨_, whole, masked, _, fields, element⟩ := node
  dsimp only at unmasked distinct
  subst unmasked
  simp only [simplifyUnder, Bool.false_eq_true, ↓reduceIte]
  cases step with
  | field name => exact simplifyFields_find name distinct
  | element =>
    cases element with
    | none => rfl
    | some child =>
      simp only [FieldNode.child, simplifyElement, Option.map_some, Option.filter_some]
      cases saysNothing (whole || under) (simplifyUnder (whole || under) child) <;> rfl

/-- A plain node shows everything below it. -/
theorem FieldNode.plain_walk {node : FieldNode} (isPlain : node.plain = true) (path : List Step) :
    node.reads path = true ∧ node.maskOn path = none := by
  simp only [plain, Bool.and_eq_true, Bool.not_eq_true', List.isEmpty_iff, Option.isNone_iff_eq_none] at isPlain
  obtain ⟨⟨⟨whole, unmasked⟩, fields⟩, element⟩ := isPlain
  cases path with
  | nil => simp [reads, maskOn, whole, unmasked]
  | cons step path =>
    have missing : node.child step = none := by
      cases step <;> simp [child, find, fields, element]
    rw [reads_cons unmasked, maskOn_cons unmasked, missing]
    exact ⟨whole, rfl⟩

/-- An empty node shows nothing below it. -/
theorem FieldNode.empty_walk {node : FieldNode} (isEmpty : node.empty = true) (path : List Step) :
    node.reads path = false ∧ node.maskOn path = none := by
  simp only [empty, Bool.and_eq_true, Bool.not_eq_true', List.isEmpty_iff, Option.isNone_iff_eq_none] at isEmpty
  obtain ⟨⟨⟨part, unmasked⟩, fields⟩, element⟩ := isEmpty
  cases path with
  | nil => simp [reads, maskOn, part, unmasked]
  | cons step path =>
    have missing : node.child step = none := by
      cases step <;> simp [child, find, fields, element]
    rw [reads_cons unmasked, maskOn_cons unmasked, missing]
    exact ⟨part, rfl⟩

theorem simplifyUnder_whole {under : Bool} {node : FieldNode} (unmasked : node.masked = false) :
    (simplifyUnder under node).whole = (node.whole || under) := by
  obtain ⟨_, _, _, _, _, _⟩ := node
  subst unmasked
  rfl

/-- A simplified tree reads exactly what the items it was built from show. -/
theorem simplifyUnder_walk {node : FieldNode} (wf : node.Wf) (under : Bool) (path : List Step) :
    (simplifyUnder under node).maskOn path = node.maskOn path ∧
      (simplifyUnder under node).reads path = ((node.maskOn path).isNone && (under || node.opens path)) := by
  induction path generalizing node under with
  | nil =>
    cases masked : node.masked with
    | true =>
      have stays := (simplifyUnder_masked under node).trans masked
      obtain ⟨_, _, _, _, _, _⟩ := node
      dsimp only at masked
      subst masked
      simp [FieldNode.maskOn, FieldNode.reads, simplifyUnder]
    | false =>
      have stays := (simplifyUnder_masked under node).trans masked
      simp [FieldNode.maskOn, FieldNode.reads, FieldNode.opens, stays, masked, simplifyUnder_whole masked,
        Bool.or_comm]
  | cons step path ih =>
    cases masked : node.masked with
    | true =>
      have stays := (simplifyUnder_masked under node).trans masked
      have mask : (simplifyUnder under node).mask = node.mask := by
        obtain ⟨_, _, _, _, _, _⟩ := node
        dsimp only at masked
        subst masked
        rfl
      rw [FieldNode.maskOn_of_masked stays, FieldNode.maskOn_of_masked masked, mask]
      simp [FieldNode.reads, stays]
    | false =>
      have stays := (simplifyUnder_masked under node).trans masked
      rw [FieldNode.maskOn_cons stays, FieldNode.reads_cons stays, FieldNode.maskOn_cons masked,
        FieldNode.opens_cons, simplifyUnder_child wf masked, simplifyUnder_whole masked]
      cases found : node.child step with
      | none => simp [Bool.or_comm]
      | some child =>
        have below := ih (wf.child found) (node.whole || under)
        simp only [Option.map_some, Option.filter_some, Option.bind_some, Option.any_some]
        split_ifs with kept
        · simp only [Option.bind_some, below]
          refine ⟨trivial, ?_⟩
          cases node.whole <;> cases under <;> simp
        · simp only [saysNothing, Bool.not_eq_true', Bool.not_eq_false, Bool.or_eq_true,
            Bool.and_eq_true] at kept
          rcases kept with ⟨whole, plain⟩ | empty
          · obtain ⟨shown, noMask⟩ := FieldNode.plain_walk plain path
            rw [below.1] at noMask
            simp only [Option.bind_none, noMask, true_and, Option.isNone_none, Bool.true_and]
            rcases whole with whole | whole <;> simp [whole]
          · obtain ⟨hidden, noMask⟩ := FieldNode.empty_walk empty path
            rw [below.1] at noMask
            rw [below.2, noMask] at hidden
            simp only [Option.isNone_none, Bool.true_and, Bool.or_eq_false_iff] at hidden
            simp [noMask, hidden]

end DuckAcl
