import DuckAcl.Soundness.FieldRereading

/-! # Merging two trees

`IntersectNodes` and `UniteNodes` walk two trees together: the children either side names, each
side's child being the one it names or the whole one a whole node implies. This module holds what
both merges share: walking into such children, and the fields built from the merged names.
-/

namespace DuckAcl

namespace FieldNode

theorem childOr_eq (node : FieldNode) (step : Step) : ∃ name, node.childOr step =
    match node.child step with
    | some child => some child
    | none => if node.whole then some (wholeNode name) else none := by
  cases step with
  | field name => exact ⟨name, rfl⟩
  | element => exact ⟨[], rfl⟩

theorem childOr_of_child {node child : FieldNode} {step : Step} (found : node.child step = some child) :
    node.childOr step = some child := by
  obtain ⟨name, equal⟩ := node.childOr_eq step
  rw [equal, found]

theorem wholeNode_reads (name : Text) (path : List Step) : (wholeNode name).reads path = true := by
  rcases path with _ | ⟨_ | _, path⟩ <;> rfl

theorem wholeNode_maskOn (name : Text) (path : List Step) : (wholeNode name).maskOn path = none := by
  rcases path with _ | ⟨_ | _, path⟩ <;> rfl

theorem walk_cons {node : FieldNode} (unmasked : node.masked = false) (base : FieldNode → Bool) (step : Step)
    (path : List Step) : node.walk base (step :: path) = (node.childOr step).any (·.walk base path) := by
  rw [walk, unmasked, Bool.not_false, Bool.true_and]

/-- A step into an unmasked node is a step into the child it names or implies. -/
theorem maskOn_childOr {node : FieldNode} (unmasked : node.masked = false) (step : Step) (path : List Step) :
    node.maskOn (step :: path) = (node.childOr step).bind (·.maskOn path) := by
  obtain ⟨name, equal⟩ := node.childOr_eq step
  rw [maskOn_cons unmasked, equal]
  cases node.child step with
  | some child => rfl
  | none => cases node.whole <;> simp [wholeNode_maskOn]

theorem reads_eq_walk (node : FieldNode) (path : List Step) : node.reads path = node.walk whole path := by
  induction path generalizing node with
  | nil => rfl
  | cons step path ih =>
    obtain ⟨name, equal⟩ := node.childOr_eq step
    rw [reads, walk, equal]
    cases node.child step with
    | some child => simp [ih child]
    | none => cases node.whole <;> simp [← ih, wholeNode_reads]

theorem reads_childOr {node : FieldNode} (unmasked : node.masked = false) (step : Step) (path : List Step) :
    node.reads (step :: path) = readsSide (node.childOr step) path := by
  rw [reads_eq_walk, walk_cons unmasked]
  simp only [readsSide, reads_eq_walk]

theorem maskAt_childOr {node : FieldNode} (unmasked : node.masked = false) (step : Step) (path : List Step) :
    node.maskAt (step :: path) = (node.childOr step).bind (·.maskAt path) := by
  obtain ⟨name, equal⟩ := node.childOr_eq step
  rw [maskAt_cons unmasked, equal]
  cases node.child step with
  | some child => rfl
  | none =>
    have blank : (wholeNode name).maskAt path = none := by
      rcases path with _ | ⟨_ | _, path⟩ <;> rfl
    cases node.whole <;> simp [blank]

theorem free_of_reads {node : FieldNode} {path : List Step} (shown : node.reads path = true) :
    node.free path = true := by
  rw [reads_eq_walk] at shown
  induction path generalizing node with
  | nil =>
    simp only [walk, Bool.and_eq_true] at shown
    simp [free, walk, shown.1]
  | cons step path ih =>
    simp only [walk, Bool.and_eq_true] at shown
    simp only [free, walk, shown.1, Bool.true_and]
    cases found : node.childOr step with
    | none => simp [found] at shown
    | some child =>
      rw [found] at shown
      exact ih shown.2

theorem maskOn_of_walk {base : FieldNode → Bool} {node : FieldNode} {path : List Step}
    (reached : node.walk base path = true) : node.maskOn path = none := by
  induction path generalizing node with
  | nil =>
    simp only [walk, Bool.and_eq_true, Bool.not_eq_true'] at reached
    simp [maskOn, reached.1]
  | cons step path ih =>
    simp only [walk, Bool.and_eq_true, Bool.not_eq_true'] at reached
    rw [maskOn_childOr reached.1]
    cases found : node.childOr step with
    | none => rfl
    | some child =>
      rw [found] at reached
      exact ih reached.2

theorem maskOn_of_free {node : FieldNode} {path : List Step} (reached : node.free path = true) :
    node.maskOn path = none :=
  maskOn_of_walk reached

theorem opens_of_reads {node : FieldNode} {path : List Step} (shown : node.reads path = true) :
    node.opens path = true := by
  induction path generalizing node with
  | nil =>
    simp only [reads, Bool.and_eq_true] at shown
    exact shown.2
  | cons step path ih =>
    simp only [reads, Bool.and_eq_true] at shown
    rw [opens_cons, Bool.or_eq_true]
    cases found : node.child step with
    | none =>
      rw [found] at shown
      exact .inl shown.2
    | some child =>
      rw [found] at shown
      exact .inr (ih shown.2)

theorem opens_append {node : FieldNode} {path : List Step} (opened : node.opens path = true)
    (rest : List Step) : node.opens (path ++ rest) = true := by
  induction path generalizing node with
  | nil =>
    simp only [opens] at opened
    cases rest <;> simp [opens, opened]
  | cons step path ih =>
    rw [opens_cons, Bool.or_eq_true] at opened
    rw [List.cons_append, opens_cons, Bool.or_eq_true]
    refine opened.imp_right fun below => ?_
    cases found : node.child step with
    | none => simp [found] at below
    | some child =>
      rw [found] at below
      exact ih below

section

variable {base : FieldNode → Bool} (onWhole : ∀ node : FieldNode, node.whole = true → base node = true)

include onWhole

theorem plain_reached {node : FieldNode} (isPlain : node.plain = true) (path : List Step) :
    node.walk base path = true := by
  induction path generalizing node with
  | nil =>
    simp only [plain, Bool.and_eq_true, Bool.not_eq_true'] at isPlain
    simp [walk, isPlain.1.1.2, onWhole node isPlain.1.1.1]
  | cons step path ih =>
    simp only [plain, Bool.and_eq_true, Bool.not_eq_true', List.isEmpty_iff, Option.isNone_iff_eq_none] at isPlain
    obtain ⟨⟨⟨whole, unmasked⟩, fields⟩, element⟩ := isPlain
    have missing : node.child step = none := by
      cases step <;> simp [child, find, fields, element]
    obtain ⟨name, equal⟩ := node.childOr_eq step
    rw [walk_cons unmasked, equal, missing]
    simpa [whole] using ih rfl

theorem walk_congr {p q : List Step} (same : keys p = keys q) (node : FieldNode) :
    node.walk base p = node.walk base q := by
  induction p generalizing q node with
  | nil => cases q with
    | nil => rfl
    | cons => cases same
  | cons s p ih =>
    cases q with
    | nil => cases same
    | cons t q =>
      simp only [keys_cons, List.cons.injEq] at same
      obtain ⟨first, left⟩ := node.childOr_eq s
      obtain ⟨second, right⟩ := node.childOr_eq t
      have implied (name : Text) (path : List Step) : (wholeNode name).walk base path = true :=
        plain_reached onWhole rfl path
      simp only [walk, left, right, child_congr node same.1]
      cases node.child t with
      | some child => simp only [Option.any_some, ih same.2 child]
      | none => cases node.whole <;> simp [implied]

end

end FieldNode

/-! ## The children of two sides -/

/-- Both sides of a step have its name. -/
def SideNamed (side : Option FieldNode) (name : Text) : Prop :=
  ∀ node ∈ side, Text.ciEquals node.name name = true

theorem childOrWhole_named (node : FieldNode) (name : Text) : SideNamed (childOrWhole node name) name := by
  intro child found
  rw [childOrWhole] at found
  split at found
  · rename_i explicit
    cases found
    exact FieldNode.find_name explicit
  · split_ifs at found
    · cases found
      exact Text.ciEquals_refl name
    · cases found

/-- The merged names are different, and are the ones a side names. -/
theorem mergedNames_distinct {a b : FieldNode} (wfA : a.Wf) (wfB : b.Wf) :
    (mergedNames a b).Pairwise fun m n => Text.ciEquals m n = false := by
  obtain ⟨distinctA, _, _, _, _⟩ := wfA
  obtain ⟨distinctB, _, _, _, _⟩ := wfB
  refine List.pairwise_append.mpr ⟨?_, ?_, ?_⟩
  · exact List.pairwise_map.mpr distinctA
  · exact List.pairwise_map.mpr (distinctB.filter _)
  · intro m inA n inB
    obtain ⟨left, inside, rfl⟩ := List.mem_map.mp inA
    obtain ⟨right, new, rfl⟩ := List.mem_map.mp inB
    have missing := (List.mem_filter.mp new).2
    rw [FieldNode.find, Option.isNone_iff_eq_none, List.find?_eq_none] at missing
    exact Bool.eq_false_iff.mpr (missing left inside)

theorem mem_mergedNames {a b : FieldNode} (name : Text) :
    (∃ merged ∈ mergedNames a b, Text.ciEquals merged name = true) ↔ (a.find name).isSome ∨ (b.find name).isSome := by
  constructor
  · rintro ⟨merged, member, same⟩
    have found := find_of_mem_mergedNames member
    simp only [FieldNode.find, Text.ciEquals_congr_right same] at found ⊢
    exact found
  · intro found
    have here {node child : FieldNode} (found : node.find name = some child) :
        child ∈ node.fields ∧ Text.ciEquals child.name name = true :=
      ⟨List.mem_of_find?_eq_some found, FieldNode.find_name found⟩
    cases inA : a.find name with
    | some child =>
      obtain ⟨inside, same⟩ := here inA
      exact ⟨child.name, List.mem_append_left _ (List.mem_map_of_mem inside), same⟩
    | none =>
      rw [inA] at found
      obtain ⟨child, inB⟩ := Option.isSome_iff_exists.mp (found.resolve_left (by simp))
      obtain ⟨inside, same⟩ := here inB
      refine ⟨child.name, List.mem_append_right _ (List.mem_map_of_mem (List.mem_filter.mpr ⟨inside, ?_⟩)), same⟩
      rw [Option.isNone_iff_eq_none, ← inA]
      simp only [FieldNode.find, Text.ciEquals_congr_right same]

/-- Finding a field by name in what a list of different names was turned into. -/
theorem find?_filterMap_named {names : List Text} {build : Text → Option FieldNode}
    (distinct : names.Pairwise fun m n => Text.ciEquals m n = false)
    (named : ∀ name ∈ names, SideNamed (build name) name) (wanted : Text) :
    (∀ name ∈ names, Text.ciEquals name wanted = true →
        (names.filterMap build).find? (fun child => Text.ciEquals child.name wanted) = build name) ∧
      ((∀ name ∈ names, Text.ciEquals name wanted = false) →
        (names.filterMap build).find? (fun child => Text.ciEquals child.name wanted) = none) := by
  induction names with
  | nil => simp
  | cons first rest ih =>
    obtain ⟨apart, distinct⟩ := List.pairwise_cons.mp distinct
    obtain ⟨present, absent⟩ := ih distinct fun name member => named name (List.mem_cons_of_mem _ member)
    have answers (node : FieldNode) (built : build first = some node) :
        Text.ciEquals node.name wanted = Text.ciEquals first wanted :=
      Text.ciEquals_congr_left (named first (List.mem_cons_self ..) node built) wanted
    have skip (differs : Text.ciEquals first wanted = false) :
        ((first :: rest).filterMap build).find? (fun child => Text.ciEquals child.name wanted) =
          (rest.filterMap build).find? (fun child => Text.ciEquals child.name wanted) := by
      cases built : build first with
      | none => rw [List.filterMap_cons_none built]
      | some node => rw [List.filterMap_cons_some built, List.find?_cons, answers node built, differs]
    constructor
    · intro name member same
      rcases List.mem_cons.mp member with rfl | member
      · have others : ∀ other ∈ rest, Text.ciEquals other wanted = false := by
          intro other inside
          rw [Text.ciEquals_congr_right (Text.ciEquals_symm same), Bool.eq_false_iff]
          intro equal
          have := apart other inside
          rw [Text.ciEquals_symm equal] at this
          cases this
        cases built : build name with
        | none => rw [List.filterMap_cons_none built, absent others]
        | some node => rw [List.filterMap_cons_some built, List.find?_cons, answers node built, same]
      · have differs : Text.ciEquals first wanted = false := by
          rw [Text.ciEquals_congr_right (Text.ciEquals_symm same)]
          exact apart name member
        rw [skip differs, present name member same]
    · intro none'
      rw [skip (none' first (List.mem_cons_self ..)), absent fun name member => none' name (List.mem_cons_of_mem _ member)]

/-- Every tree of a side is well-formed. -/
def SideWf (side : Option FieldNode) : Prop := ∀ node ∈ side, node.Wf

theorem FieldNode.Wf.childOr {node : FieldNode} (wf : node.Wf) (step : Step) : SideWf (node.childOr step) := by
  intro child found
  obtain ⟨name, equal⟩ := node.childOr_eq step
  rw [equal] at found
  cases explicit : node.child step with
  | some other =>
    rw [explicit] at found
    cases found
    exact wf.child explicit
  | none =>
    rw [explicit] at found
    dsimp only at found
    split_ifs at found
    · cases found
      exact .mk .nil nofun nofun nofun nofun
    · cases found

theorem FieldNode.Tight.childOr {node child : FieldNode} (tight : node.Tight) {step : Step}
    (found : node.childOr step = some child) :
    child.Tight ∧ (node.whole = true → child.whole = true ∨ child.masked = true) := by
  obtain ⟨covered, _, below⟩ := tight
  obtain ⟨name, equal⟩ := node.childOr_eq step
  rw [equal] at found
  cases explicit : node.child step with
  | some other =>
    rw [explicit] at found
    cases found
    exact ⟨below step child explicit, fun whole => covered whole step child explicit⟩
  | none =>
    rw [explicit] at found
    dsimp only at found
    split_ifs at found
    cases found
    have childless (step : Step) (child : FieldNode) : (wholeNode name).child step ≠ some child := by
      cases step <;> exact nofun
    exact ⟨.mk (fun _ step child found => absurd found (childless step child))
      (fun step child found => absurd found (childless step child))
      (fun step child found => absurd found (childless step child)), fun _ => .inl rfl⟩

/-! ## Well-formed merges -/

/-- A tree as `ColumnTrees::From` builds it: well-formed, every field named. -/
def Formed (side : Option FieldNode) : Prop := ∀ node ∈ side, node.Wf ∧ node.Named

private theorem wholeNode_named (name : Text) : (wholeNode name).Named :=
  .mk (by simp [wholeNode]) (by simp [wholeNode]) (by simp [wholeNode])

theorem formed_childOrWhole {node : FieldNode} (wf : node.Wf) (named : node.Named) (name : Text) :
    Formed (childOrWhole node name) := by
  intro child found
  refine ⟨wf.childOr (.field name) child found, ?_⟩
  obtain ⟨_, fields, _⟩ := named
  rw [childOrWhole] at found
  split at found
  · rename_i explicit
    cases found
    exact fields child (List.mem_of_find?_eq_some explicit)
  · split_ifs at found
    · cases found
      exact wholeNode_named name
    · cases found

theorem formed_elementOrWhole {node : FieldNode} (wf : node.Wf) (named : node.Named) :
    Formed (elementOrWhole node) := by
  intro child found
  refine ⟨wf.childOr .element child found, ?_⟩
  obtain ⟨_, _, element⟩ := named
  rw [elementOrWhole] at found
  split at found
  · rename_i explicit
    cases found
    exact element child explicit
  · split_ifs at found
    · cases found
      exact wholeNode_named []
    · cases found

private theorem mergedNames_ne {a b : FieldNode} (namedA : a.Named) (namedB : b.Named) {name : Text}
    (member : name ∈ mergedNames a b) : name ≠ [] := by
  obtain ⟨titledA, _, _⟩ := namedA
  obtain ⟨titledB, _, _⟩ := namedB
  rcases List.mem_append.mp member with inside | inside
  · obtain ⟨child, isChild, rfl⟩ := List.mem_map.mp inside
    exact titledA child isChild
  · obtain ⟨child, isChild, rfl⟩ := List.mem_map.mp inside
    exact titledB child (List.mem_filter.mp isChild).1

/-- Fields built from different given names have different given names. -/
theorem pairwise_filterMap_named {names : List Text} {build : Text → Option FieldNode}
    (distinct : names.Pairwise fun m n => Text.ciEquals m n = false)
    (named : ∀ name ∈ names, SideNamed (build name) name) :
    (names.filterMap build).Pairwise fun a b => Text.ciEquals a.name b.name = false := by
  rw [List.pairwise_filterMap]
  refine distinct.imp_of_mem fun {m n} inM inN apart a builtA b builtB => ?_
  rw [Text.ciEquals_congr_left (named m inM a builtA), Text.ciEquals_congr_right (named n inN b builtB)]
  exact apart

/-- A node over the merged names is well-formed when what it was built from is. -/
theorem formed_merge {a b : FieldNode} (formedA : a.Wf ∧ a.Named) (formedB : b.Wf ∧ b.Named)
    {build : Text → Option FieldNode} {element : Option FieldNode}
    (named : ∀ name ∈ mergedNames a b, SideNamed (build name) name)
    (fields : ∀ name ∈ mergedNames a b, Formed (build name)) (elements : Formed element) (whole : Bool) :
    Formed (some { name := a.name, whole, fields := (mergedNames a b).filterMap build, element }) := by
  rintro node ⟨⟩
  constructor
  · refine .mk ?_ nofun nofun ?_ fun child found => (elements child found).1
    · exact pairwise_filterMap_named (mergedNames_distinct formedA.1 formedB.1) named
    · intro child member
      obtain ⟨name, inside, built⟩ := List.mem_filterMap.mp member
      exact (fields name inside child built).1
  · refine .mk ?_ ?_ fun child found => (elements child found).2
    · intro child member nameless
      obtain ⟨name, inside, built⟩ := List.mem_filterMap.mp member
      have same := Text.ciEquals_iff.mp (named name inside child built)
      rw [nameless] at same
      exact mergedNames_ne formedA.2 formedB.2 inside (Text.fold_eq_nil.mp same.symm)
    · intro child member
      obtain ⟨name, inside, built⟩ := List.mem_filterMap.mp member
      exact (fields name inside child built).2

/-! ## The columns as one position -/

theorem childOrWhole_root (trees : ColumnTrees) (name : Text) :
    childOrWhole trees.root name = trees.root.find name := by
  rw [childOrWhole]
  cases trees.root.find name <;> rfl

theorem filter_keepMerged_false (side : Option FieldNode) : side.filter (keepMerged false) = side := by
  cases side <;> rfl

theorem ColumnTrees.Sound.formed_find {trees : ColumnTrees} (sound : trees.Sound) (name : Text) :
    Formed (trees.root.find name) := by
  intro column found
  exact ⟨sound.wf.childOr (.field name) column (FieldNode.childOr_of_child found),
    sound.named column (List.mem_of_find?_eq_some found)⟩

theorem ColumnTrees.Sound.childless_find {trees : ColumnTrees} (sound : trees.Sound) :
    ∀ node ∈ trees.root.find [], node.fields = [] ∧ node.element = none := by
  intro column found
  have same := Text.ciEquals_iff.mp (FieldNode.find_name found)
  exact sound.nameless column (List.mem_of_find?_eq_some found) (Text.fold_eq_nil.mp same)

/-! ## Reaching a position -/

theorem FieldNode.child_of_empty {node : FieldNode} (isEmpty : node.empty = true) (step : Step) :
    node.child step = none := by
  simp only [FieldNode.empty, Bool.and_eq_true, List.isEmpty_iff, Option.isNone_iff_eq_none] at isEmpty
  cases step <;> simp [FieldNode.child, FieldNode.find, isEmpty]

theorem FieldNode.tight_of_empty {node : FieldNode} (isEmpty : node.empty = true) : node.Tight := by
  have childless {step : Step} {child : FieldNode} : node.child step ≠ some child := by
    rw [FieldNode.child_of_empty isEmpty step]
    exact nofun
  exact .mk (fun _ _ _ found => absurd found childless) (fun _ _ found => absurd found childless)
    (fun _ _ found => absurd found childless)

/-- A tight tree that is not empty shows or masks something. -/
theorem FieldNode.Tight.tells {node : FieldNode} (tight : node.Tight) (notEmpty : node.empty = false) :
    ∃ path, node.reads path = true ∨ (node.maskOn path).isSome := by
  induction tight with
  | @mk node covered telling below ih =>
    cases masked : node.masked with
    | true => exact ⟨[], .inr (by rw [FieldNode.maskOn_of_masked masked]; rfl)⟩
    | false =>
      cases whole : node.whole with
      | true => exact ⟨[], .inl (by simp [FieldNode.reads, masked, whole])⟩
      | false =>
        obtain ⟨step, child, found⟩ : ∃ step child, node.child step = some child := by
          simp only [FieldNode.empty, whole, masked, Bool.not_false, Bool.true_and, Bool.and_eq_false_iff,
            List.isEmpty_eq_false_iff, Option.isNone_eq_false_iff, Option.isSome_iff_exists] at notEmpty
          rcases notEmpty with fields | ⟨child, found⟩
          · obtain ⟨child, inside⟩ := List.exists_mem_of_ne_nil _ fields
            have present : (node.find child.name).isSome := by
              rw [FieldNode.find, List.find?_isSome]
              exact ⟨child, inside, Text.ciEquals_refl _⟩
            obtain ⟨first, found⟩ := Option.isSome_iff_exists.mp present
            exact ⟨.field child.name, first, found⟩
          · exact ⟨.element, child, found⟩
        obtain ⟨path, told⟩ := ih step child found (telling step child found)
        refine ⟨step :: path, ?_⟩
        rw [FieldNode.reads_cons masked, FieldNode.maskOn_cons masked, found]
        exact told

/-- A position of a tight tree is reached exactly when nothing on its path is masked and something
at or below it is shown or masked. -/
theorem FieldNode.Tight.free_iff {node : FieldNode} (tight : node.Tight) (path : List Step)
    (telling : path = [] → node.empty = false) : node.free path = true ↔ node.maskOn path = none ∧
      ∃ rest, node.reads (path ++ rest) = true ∨ (node.maskOn (path ++ rest)).isSome := by
  induction path generalizing node with
  | nil =>
    constructor
    · intro reached
      exact ⟨FieldNode.maskOn_of_free reached, tight.tells (telling rfl)⟩
    · rintro ⟨noMask, _⟩
      simp only [FieldNode.maskOn, ite_eq_right_iff, reduceCtorEq, imp_false, Bool.not_eq_true] at noMask
      simp [FieldNode.free, FieldNode.walk, noMask]
  | cons step path ih =>
    cases masked : node.masked with
    | true => simp [FieldNode.free, FieldNode.walk, FieldNode.maskOn, masked]
    | false =>
      rw [FieldNode.free, FieldNode.walk_cons masked, FieldNode.maskOn_childOr masked]
      simp only [List.cons_append, FieldNode.reads_childOr masked, FieldNode.maskOn_childOr masked]
      cases found : node.childOr step with
      | none => simp [readsSide]
      | some child =>
        refine ih (tight.childOr found).1 fun _ => ?_
        obtain ⟨_, telling, _⟩ := tight
        obtain ⟨name, equal⟩ := node.childOr_eq step
        rw [equal] at found
        cases explicit : node.child step with
        | some other =>
          rw [explicit] at found
          cases found
          exact telling step child explicit
        | none =>
          rw [explicit] at found
          dsimp only at found
          split_ifs at found
          cases found
          rfl

/-- A mask put at a path is the one met on it, with none above. -/
theorem FieldNode.maskAt_iff {node : FieldNode} {path : List Step} {mask : Text} :
    node.maskAt path = some mask ↔
      node.maskOn path = some mask ∧ ∀ above, above <+: path → above ≠ path → node.maskOn above = none := by
  induction path generalizing node with
  | nil => simp [FieldNode.maskAt, FieldNode.maskOn]
  | cons step path ih =>
    cases masked : node.masked with
    | true =>
      simp only [FieldNode.maskAt, masked, ↓reduceIte, reduceCtorEq, false_iff, not_and, not_forall]
      intro _
      exact ⟨[], List.nil_prefix, by simp, by simp [FieldNode.maskOn, masked]⟩
    | false =>
      rw [FieldNode.maskAt_cons masked, FieldNode.maskOn_cons masked]
      cases found : node.child step with
      | none => simp
      | some child =>
        rw [Option.bind_some, Option.bind_some, ih]
        refine and_congr_right fun _ => ⟨fun none' above shorter strict => ?_, fun none' above shorter strict => ?_⟩
        · cases above with
          | nil => simp [FieldNode.maskOn, masked]
          | cons other above =>
            obtain ⟨same, inner⟩ := List.cons_prefix_cons.mp shorter
            subst same
            rw [FieldNode.maskOn_cons masked, found]
            exact none' above inner fun equal => strict (by rw [equal])
        · have outer := none' (step :: above) (List.cons_prefix_cons.mpr ⟨rfl, shorter⟩) (by simpa using strict)
          rw [FieldNode.maskOn_cons masked, found] at outer
          exact outer

/-- Every position strictly above a mask is reached. -/
theorem FieldNode.free_above {node : FieldNode} {path above : List Step} {mask : Text}
    (masked : node.maskAt path = some mask) (shorter : above <+: path) (strict : above ≠ path) :
    node.free above = true := by
  induction path generalizing node above with
  | nil => exact absurd (List.prefix_nil.mp shorter) strict
  | cons step path ih =>
    have unmasked : node.masked = false := by
      rw [Bool.eq_false_iff]
      intro isMasked
      simp [FieldNode.maskAt, isMasked] at masked
    cases above with
    | nil => simp [FieldNode.free, FieldNode.walk, unmasked]
    | cons other above =>
      obtain ⟨same, inner⟩ := List.cons_prefix_cons.mp shorter
      subst same
      rw [FieldNode.maskAt_cons unmasked, Option.bind_eq_some_iff] at masked
      obtain ⟨child, found, below⟩ := masked
      rw [FieldNode.free, FieldNode.walk_cons unmasked, FieldNode.childOr_of_child found]
      exact ih below inner fun equal => strict (by rw [equal])

end DuckAcl
