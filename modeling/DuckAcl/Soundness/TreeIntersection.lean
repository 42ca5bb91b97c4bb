import DuckAcl.Soundness.TreeMerge

/-! # The intersection of two trees

`IntersectNodes` narrows the tree of a wider level by the tree of a narrower one. On trees that
`Simplify` left tight it shows exactly what both levels show, its masks are the narrower level's
where both mask, and it is tight again, so writing it down and reading it back loses nothing.
-/

namespace DuckAcl

/-- What two sides have in common; a missing side leaves nothing. -/
def meet : Option FieldNode → Option FieldNode → Option FieldNode
  | some a, some b => intersectNodes a b
  | _, _ => none

/-- The result of `IntersectNodes` on two unmasked nodes, before it is dropped for being empty. -/
def meetNode (a b : FieldNode) : FieldNode where
  name := a.name
  whole := a.whole && b.whole
  fields := (mergedNames a b).filterMap fun name =>
    (meet (childOrWhole a name) (childOrWhole b name)).filter (keepMerged (a.whole && b.whole))
  element :=
    if a.element.isSome ∨ b.element.isSome then
      (meet (elementOrWhole a) (elementOrWhole b)).filter (keepMerged (a.whole && b.whole))
    else none

theorem intersectNodes_masked {a b : FieldNode} (masked : b.masked = true ∨ a.masked = true) :
    intersectNodes a b =
      some { name := a.name, masked := true, mask := if b.masked then b.mask else a.mask } := by
  rw [intersectNodes]
  simp [masked]

theorem intersectNodes_plain {a b : FieldNode} (plainA : a.masked = false) (plainB : b.masked = false) :
    intersectNodes a b = if (meetNode a b).empty then none else some (meetNode a b) := by
  rw [intersectNodes]
  simp only [plainA, plainB, Bool.or_self, Bool.false_eq_true, ↓reduceIte]
  refine congrArg (fun node : FieldNode => if node.empty then none else some node) ?_
  rw [meetNode]
  congr 1
  · refine (List.filterMap_subtype fun name _ => ?_).trans (by rw [List.unattach_attach])
    split
    · rename_i left right
      rw [left, right]
      rfl
    · rename_i other
      cases left : childOrWhole a name with
      | none => rfl
      | some ac =>
        cases right : childOrWhole b name with
        | none => rfl
        | some bc => exact absurd right (other ac bc left)
  · by_cases named : a.element.isSome ∨ b.element.isSome
    · simp only [named, ↓reduceDIte, ↓reduceIte]
      split
      · rename_i left right
        rw [left, right]
        rfl
      · rename_i other
        cases left : elementOrWhole a with
        | none => rfl
        | some ae =>
          cases right : elementOrWhole b with
          | none => rfl
          | some be => exact absurd right (other ae be left)
    · simp [named]

/-- A position two unmasked nodes have in common. -/
structure Met (a b met : FieldNode) : Prop where
  unmasked : met.masked = false
  whole : met.whole = (a.whole && b.whole)
  explicit : ∀ step, (a.child step).isSome ∨ (b.child step).isSome → ∃ same, same.key = step.key ∧
    heightSide (a.childOr same) + heightSide (b.childOr same) < a.height + b.height ∧
    met.child step = (meet (a.childOr same) (b.childOr same)).filter (keepMerged met.whole)
  implied : ∀ step, a.child step = none → b.child step = none → met.child step = none

theorem intersectNodes_name {a b met : FieldNode} (found : intersectNodes a b = some met) :
    met.name = a.name := by
  by_cases masked : b.masked = true ∨ a.masked = true
  · rw [intersectNodes_masked masked] at found
    cases found
    rfl
  · simp only [not_or, Bool.not_eq_true] at masked
    rw [intersectNodes_plain masked.2 masked.1] at found
    split_ifs at found
    cases found
    rfl

private theorem meet_named {left right : Option FieldNode} {name : Text} (named : SideNamed left name) :
    SideNamed (meet left right) name := by
  intro node found
  cases left with
  | none => cases found
  | some a =>
    cases right with
    | none => cases found
    | some b =>
      rw [intersectNodes_name found]
      exact named a rfl

private theorem meet_fields_named (a b : FieldNode) (whole : Bool) : ∀ name ∈ mergedNames a b,
    SideNamed ((meet (childOrWhole a name) (childOrWhole b name)).filter (keepMerged whole)) name := by
  intro name _ node kept
  exact meet_named (childOrWhole_named a name) node (Option.filter_eq_some_iff.mp kept).1

theorem meetNode_met {a b : FieldNode} (wfA : a.Wf) (wfB : b.Wf) : Met a b (meetNode a b) := by
  have finds := find?_filterMap_named (mergedNames_distinct wfA wfB) (meet_fields_named a b (a.whole && b.whole))
  refine ⟨rfl, rfl, fun step given => ?_, fun step noA noB => ?_⟩
  · cases step with
    | element => exact ⟨.element, rfl, heightSide_elements given, if_pos given⟩
    | field wanted =>
      obtain ⟨name, member, same⟩ := (mem_mergedNames wanted).mpr given
      exact ⟨.field name, Step.key_field_eq.mpr same, heightSide_children member, (finds wanted).1 name member same⟩
  · cases step with
    | element =>
      refine if_neg ?_
      simp only [FieldNode.child] at noA noB
      simp [noA, noB]
    | field wanted =>
      apply (finds wanted).2
      intro name member
      rw [Bool.eq_false_iff]
      intro same
      have given := (mem_mergedNames wanted).mp ⟨name, member, same⟩
      simp only [FieldNode.child] at noA noB
      simp [noA, noB] at given

/-- A child of a common position is what the two sides' children have in common. -/
theorem Met.child_some {a b met node : FieldNode} (isMet : Met a b met) {step : Step}
    (child : met.child step = some node) : ∃ same ac bc, same.key = step.key ∧
      ac.height + bc.height < a.height + b.height ∧ a.childOr same = some ac ∧ b.childOr same = some bc ∧
      intersectNodes ac bc = some node := by
  have given : (a.child step).isSome ∨ (b.child step).isSome := by
    by_contra missing
    simp only [not_or, Option.not_isSome_iff_eq_none] at missing
    rw [isMet.implied step missing.1 missing.2] at child
    cases child
  obtain ⟨same, sameKey, smaller, isChild⟩ := isMet.explicit step given
  rw [child] at isChild
  have isNode := (Option.filter_eq_some_iff.mp isChild.symm).1
  cases left : a.childOr same with
  | none => simp [left, meet] at isNode
  | some ac =>
    cases right : b.childOr same with
    | none => simp [right, meet] at isNode
    | some bc =>
      rw [left, right] at isNode smaller
      exact ⟨same, ac, bc, sameKey, smaller, left, right, isNode⟩

/-! ## Reading an intersection -/

private theorem tight_childOr_some {node : FieldNode} (tight : node.Tight) (whole : node.whole = true) (step : Step) :
    ∃ child, node.childOr step = some child ∧ (child.whole = true ∨ child.masked = true) := by
  obtain ⟨child, found⟩ : ∃ child, node.childOr step = some child := by
    obtain ⟨name, equal⟩ := node.childOr_eq step
    rw [equal, whole]
    cases node.child step <;> exact ⟨_, rfl⟩
  exact ⟨child, found, (tight.childOr found).2 whole⟩

/-- Two positions that are each whole or masked have something in common that is whole or masked. -/
private theorem intersectNodes_covered {a b : FieldNode} (onA : a.whole = true ∨ a.masked = true)
    (onB : b.whole = true ∨ b.masked = true) :
    ∃ met, intersectNodes a b = some met ∧ (met.whole = true ∨ met.masked = true) := by
  by_cases masked : b.masked = true ∨ a.masked = true
  · exact ⟨_, intersectNodes_masked masked, .inr rfl⟩
  · rw [not_or] at masked
    have whole : (meetNode a b).whole = true := by
      simp [meetNode, onA.resolve_right masked.2, onB.resolve_right masked.1]
    have notEmpty : (meetNode a b).empty = false := by
      simp [FieldNode.empty, whole]
    simp only [Bool.not_eq_true] at masked
    refine ⟨meetNode a b, ?_, .inl whole⟩
    rw [intersectNodes_plain masked.2 masked.1, notEmpty]
    rfl

/-- A whole common position has no child left out: what it does not name is shown by both. -/
private theorem Met.missing {a b met : FieldNode} (isMet : Met a b met) (tightA : a.Tight) (tightB : b.Tight)
    {step : Step} (whole : met.whole = true) (missing : met.child step = none) :
    ((a.child step).isSome ∨ (b.child step).isSome) →
      ∃ same node, same.key = step.key ∧ meet (a.childOr same) (b.childOr same) = some node ∧ node.plain = true := by
  intro given
  obtain ⟨same, sameKey, _, child⟩ := isMet.explicit step given
  have both := isMet.whole.symm.trans whole
  rw [Bool.and_eq_true] at both
  obtain ⟨ac, left, onA⟩ := tight_childOr_some tightA both.1 same
  obtain ⟨bc, right, onB⟩ := tight_childOr_some tightB both.2 same
  obtain ⟨node, found, _⟩ := intersectNodes_covered onA onB
  have isNode : meet (a.childOr same) (b.childOr same) = some node := by
    rw [left, right]
    exact found
  refine ⟨same, node, sameKey, isNode, ?_⟩
  rw [missing, isNode, Option.filter_some] at child
  by_contra notPlain
  simp [keepMerged, notPlain] at child

/-- One step below a common position, given what the sides below have in common. -/
private theorem Met.reads_step {a b met : FieldNode} (isMet : Met a b met) (tightA : a.Tight) (tightB : b.Tight)
    (plainA : a.masked = false) (plainB : b.masked = false) (step : Step) {path : List Step}
    (below : ∀ same, same.key = step.key → readsSide (meet (a.childOr same) (b.childOr same)) path =
      (readsSide (a.childOr same) path && readsSide (b.childOr same) path)) :
    met.reads (step :: path) = (a.reads (step :: path) && b.reads (step :: path)) := by
  rw [FieldNode.reads_cons isMet.unmasked]
  by_cases given : (a.child step).isSome ∨ (b.child step).isSome
  · have sides {same : Step} (sameKey : same.key = step.key) :
        readsSide (meet (a.childOr same) (b.childOr same)) path =
          (a.reads (step :: path) && b.reads (step :: path)) := by
      have sameKeys : keys (same :: path) = keys (step :: path) := by rw [keys_cons, keys_cons, sameKey]
      rw [below same sameKey, ← FieldNode.reads_childOr plainA, ← FieldNode.reads_childOr plainB,
        FieldNode.reads_congr sameKeys, FieldNode.reads_congr sameKeys]
    obtain ⟨same, sameKey, _, child⟩ := isMet.explicit step given
    cases found : met.child step with
    | some node =>
      rw [found] at child
      rw [← sides sameKey, (Option.filter_eq_some_iff.mp child.symm).1]
      rfl
    | none =>
      cases whole : met.whole with
      | true =>
        obtain ⟨other, node, otherKey, isNode, plain⟩ := isMet.missing tightA tightB whole found given
        rw [← sides otherKey, isNode]
        exact (FieldNode.plain_walk plain path).1.symm
      | false =>
        have nothing : meet (a.childOr same) (b.childOr same) = none := by
          rw [found, whole] at child
          cases inner : meet (a.childOr same) (b.childOr same) with
          | none => rfl
          | some node =>
            rw [inner, Option.filter_some] at child
            simp [keepMerged] at child
        rw [← sides sameKey, nothing]
        rfl
  · simp only [not_or, Option.not_isSome_iff_eq_none] at given
    rw [isMet.implied step given.1 given.2, FieldNode.reads_cons plainA, FieldNode.reads_cons plainB, given.1,
      given.2]
    exact isMet.whole

theorem readsSide_plain {a b : FieldNode} (plainA : a.masked = false) (plainB : b.masked = false)
    (path : List Step) : readsSide (intersectNodes a b) path = (meetNode a b).reads path := by
  rw [intersectNodes_plain plainA plainB]
  split_ifs with empty
  · exact (FieldNode.empty_walk empty path).1.symm
  · rfl

private theorem reads_masked {node : FieldNode} (masked : node.masked = true) (path : List Step) :
    node.reads path = false := by
  cases path <;> simp [FieldNode.reads, masked]

/-- An intersection shows what both sides show. -/
theorem intersectNodes_reads {a b : FieldNode} (wfA : a.Wf) (wfB : b.Wf) (tightA : a.Tight) (tightB : b.Tight)
    (path : List Step) : readsSide (intersectNodes a b) path = (a.reads path && b.reads path) := by
  induction path generalizing a b with
  | nil =>
    by_cases masked : b.masked = true ∨ a.masked = true
    · rw [intersectNodes_masked masked]
      rcases masked with masked | masked <;> simp [readsSide, FieldNode.reads, masked]
    · simp only [not_or, Bool.not_eq_true] at masked
      rw [readsSide_plain masked.2 masked.1]
      simp [FieldNode.reads, masked, meetNode]
  | cons step path ih =>
    by_cases masked : b.masked = true ∨ a.masked = true
    · rw [intersectNodes_masked masked]
      rcases masked with masked | masked
      · rw [reads_masked masked, Bool.and_false]
        exact reads_masked rfl _
      · rw [reads_masked masked, Bool.false_and]
        exact reads_masked rfl _
    · simp only [not_or, Bool.not_eq_true] at masked
      rw [readsSide_plain masked.2 masked.1]
      refine (meetNode_met wfA wfB).reads_step tightA tightB masked.2 masked.1 step fun same _ => ?_
      cases left : a.childOr same with
      | none => rfl
      | some ac =>
        cases right : b.childOr same with
        | none => simp [meet, readsSide]
        | some bc =>
          exact ih (wfA.childOr same ac left) (wfB.childOr same bc right) (tightA.childOr left).1
            (tightB.childOr right).1

/-- The masks of an intersection: the narrower side's, and the wider side's where the narrower has
none. -/
theorem intersectNodes_maskAt {a b met : FieldNode} (wfA : a.Wf) (wfB : b.Wf)
    (found : intersectNodes a b = some met) {path : List Step} {mask : Text}
    (masked : met.maskAt path = some mask) :
    b.maskAt path = some mask ∨ (b.maskOn path = none ∧ a.maskAt path = some mask) := by
  induction path generalizing a b met with
  | nil =>
    by_cases onEither : b.masked = true ∨ a.masked = true
    · rw [intersectNodes_masked onEither] at found
      cases found
      cases onB : b.masked with
      | true => exact .inl (by simpa [FieldNode.maskAt, onB] using masked)
      | false =>
        have onA := onEither.resolve_left (by simp [onB])
        simpa [FieldNode.maskAt, FieldNode.maskOn, onA, onB] using masked
    · simp only [not_or, Bool.not_eq_true] at onEither
      rw [intersectNodes_plain onEither.2 onEither.1] at found
      split_ifs at found
      cases found
      simp [FieldNode.maskAt, meetNode] at masked
  | cons step path ih =>
    by_cases onEither : b.masked = true ∨ a.masked = true
    · rw [intersectNodes_masked onEither] at found
      cases found
      simp [FieldNode.maskAt] at masked
    · simp only [not_or, Bool.not_eq_true] at onEither
      rw [intersectNodes_plain onEither.2 onEither.1] at found
      split_ifs at found
      cases found
      have isMet := meetNode_met wfA wfB
      rw [FieldNode.maskAt_cons isMet.unmasked, Option.bind_eq_some_iff] at masked
      obtain ⟨node, child, below⟩ := masked
      obtain ⟨same, ac, bc, sameKey, _, left, right, isNode⟩ := isMet.child_some child
      have sameKeys : keys (same :: path) = keys (step :: path) := by rw [keys_cons, keys_cons, sameKey]
      rw [← FieldNode.maskAt_congr sameKeys, ← FieldNode.maskAt_congr sameKeys, ← FieldNode.maskOn_congr sameKeys,
        FieldNode.maskAt_childOr onEither.1, FieldNode.maskAt_childOr onEither.2,
        FieldNode.maskOn_childOr onEither.1, left, right]
      exact ih (wfA.childOr same ac left) (wfB.childOr same bc right) isNode below

/-- What an intersection reaches, both sides reach. -/
theorem intersectNodes_free {a b met : FieldNode} (wfA : a.Wf) (wfB : b.Wf) (tightA : a.Tight) (tightB : b.Tight)
    (found : intersectNodes a b = some met) {path : List Step} (reached : met.free path = true) :
    a.free path = true ∧ b.free path = true := by
  have plain {a b met : FieldNode} {path : List Step} (found : intersectNodes a b = some met)
      (reached : met.free path = true) : a.masked = false ∧ b.masked = false ∧ met = meetNode a b := by
    by_cases onEither : b.masked = true ∨ a.masked = true
    · rw [intersectNodes_masked onEither] at found
      cases found
      cases path <;> simp [FieldNode.free, FieldNode.walk] at reached
    · simp only [not_or, Bool.not_eq_true] at onEither
      rw [intersectNodes_plain onEither.2 onEither.1] at found
      split_ifs at found
      exact ⟨onEither.2, onEither.1, (Option.some.inj found).symm⟩
  induction path generalizing a b met with
  | nil =>
    obtain ⟨plainA, plainB, _⟩ := plain found reached
    simp [FieldNode.free, FieldNode.walk, plainA, plainB]
  | cons step path ih =>
    obtain ⟨plainA, plainB, rfl⟩ := plain found reached
    have isMet := meetNode_met wfA wfB
    cases child : (meetNode a b).child step with
    | some node =>
      obtain ⟨same, ac, bc, sameKey, _, left, right, isNode⟩ := isMet.child_some child
      have inner : node.free path = true := by
        rw [FieldNode.free, FieldNode.walk_cons isMet.unmasked, FieldNode.childOr_of_child child] at reached
        exact reached
      have below := ih (wfA.childOr same ac left) (wfB.childOr same bc right) (tightA.childOr left).1
        (tightB.childOr right).1 isNode inner
      have sameKeys : keys (step :: path) = keys (same :: path) := by rw [keys_cons, keys_cons, sameKey]
      rw [FieldNode.free, FieldNode.free, FieldNode.walk_congr (fun _ _ => rfl) sameKeys,
        FieldNode.walk_congr (fun _ _ => rfl) sameKeys, FieldNode.walk_cons plainA, FieldNode.walk_cons plainB, left,
        right]
      exact below
    | none =>
      -- an implied child is shown by both sides
      have whole : (meetNode a b).whole = true := by
        obtain ⟨name, equal⟩ := (meetNode a b).childOr_eq step
        rw [FieldNode.free, FieldNode.walk_cons isMet.unmasked, equal, child] at reached
        by_contra notWhole
        simp [notWhole] at reached
      have shown : (meetNode a b).reads (step :: path) = true := by
        rw [FieldNode.reads_cons isMet.unmasked, child]
        exact whole
      have both := intersectNodes_reads wfA wfB tightA tightB (step :: path)
      rw [found, readsSide, Option.any_some, shown] at both
      have sides := both.symm
      rw [Bool.and_eq_true] at sides
      exact ⟨FieldNode.free_of_reads sides.1, FieldNode.free_of_reads sides.2⟩

/-! ## An intersection is well-formed and tight -/

theorem intersectNodes_tight {a b met : FieldNode} (wfA : a.Wf) (wfB : b.Wf) (tightA : a.Tight) (tightB : b.Tight)
    (found : intersectNodes a b = some met) : met.Tight ∧ met.empty = false := by
  induction size : a.height + b.height using Nat.strong_induction_on generalizing a b met with
  | _ size ih =>
    by_cases onEither : b.masked = true ∨ a.masked = true
    · rw [intersectNodes_masked onEither] at found
      cases found
      have childless (step : Step) (child : FieldNode) :
          FieldNode.child { name := a.name, masked := true, mask := if b.masked then b.mask else a.mask } step ≠
            some child := by
        cases step <;> exact nofun
      exact ⟨.mk nofun (fun step child there => absurd there (childless step child))
        (fun step child there => absurd there (childless step child)), rfl⟩
    · simp only [not_or, Bool.not_eq_true] at onEither
      rw [intersectNodes_plain onEither.2 onEither.1] at found
      split_ifs at found with notEmpty
      obtain rfl := Option.some.inj found
      have isMet := meetNode_met wfA wfB
      have inner {step : Step} {child : FieldNode} (there : (meetNode a b).child step = some child) :
          child.Tight ∧ child.empty = false := by
        obtain ⟨same, ac, bc, _, smaller, left, right, isNode⟩ := isMet.child_some there
        exact ih _ (size ▸ smaller) (wfA.childOr same ac left) (wfB.childOr same bc right) (tightA.childOr left).1
          (tightB.childOr right).1 isNode rfl
      refine ⟨.mk ?_ (fun step child there => (inner there).2) (fun step child there => (inner there).1),
        Bool.eq_false_iff.mpr notEmpty⟩
      intro whole step child there
      have both := isMet.whole.symm.trans whole
      rw [Bool.and_eq_true] at both
      obtain ⟨same, ac, bc, _, _, left, right, isNode⟩ := isMet.child_some there
      obtain ⟨node, found, covered⟩ :=
        intersectNodes_covered ((tightA.childOr left).2 both.1) ((tightB.childOr right).2 both.2)
      rw [isNode] at found
      cases found
      exact covered

theorem intersectNodes_formed {a b : FieldNode} (formedA : a.Wf ∧ a.Named) (formedB : b.Wf ∧ b.Named) :
    Formed (intersectNodes a b) := by
  induction size : a.height + b.height using Nat.strong_induction_on generalizing a b with
  | _ size ih =>
    have sides {left right : Option FieldNode} (formedLeft : Formed left) (formedRight : Formed right)
        (smaller : heightSide left + heightSide right < a.height + b.height) : Formed (meet left right) := by
      intro node found
      cases left with
      | none => cases found
      | some ac =>
        cases right with
        | none => cases found
        | some bc => exact ih _ (size ▸ smaller) (formedLeft ac rfl) (formedRight bc rfl) rfl node found
    by_cases onEither : b.masked = true ∨ a.masked = true
    · rw [intersectNodes_masked onEither]
      rintro node ⟨⟩
      refine ⟨.mk .nil (fun _ => ⟨rfl, rfl⟩) (fun _ => ?_) nofun nofun, .mk nofun nofun nofun⟩
      obtain ⟨⟨_, _, givenA, _, _⟩, _⟩ := formedA
      obtain ⟨⟨_, _, givenB, _, _⟩, _⟩ := formedB
      cases onB : b.masked with
      | true => simpa using givenB onB
      | false => simpa using givenA (onEither.resolve_left (by simp [onB]))
    · simp only [not_or, Bool.not_eq_true] at onEither
      rw [intersectNodes_plain onEither.2 onEither.1]
      split_ifs with empty
      · exact nofun
      · refine formed_merge formedA formedB (meet_fields_named a b _) ?_ ?_ _
        · intro name member node kept
          exact sides (formed_childOrWhole formedA.1 formedA.2 name) (formed_childOrWhole formedB.1 formedB.2 name)
            (heightSide_children member) node (Option.filter_eq_some_iff.mp kept).1
        · intro node kept
          split_ifs at kept with named
          · exact sides (formed_elementOrWhole formedA.1 formedA.2) (formed_elementOrWhole formedB.1 formedB.2)
              (heightSide_elements named) node (Option.filter_eq_some_iff.mp kept).1
          · cases kept

/-- Two bare nodes have a bare node in common. -/
theorem intersectNodes_childless {a b met : FieldNode} (bareA : a.fields = [] ∧ a.element = none)
    (bareB : b.fields = [] ∧ b.element = none) (found : intersectNodes a b = some met) :
    met.fields = [] ∧ met.element = none := by
  by_cases onEither : b.masked = true ∨ a.masked = true
  · rw [intersectNodes_masked onEither] at found
    cases found
    exact ⟨rfl, rfl⟩
  · simp only [not_or, Bool.not_eq_true] at onEither
    rw [intersectNodes_plain onEither.2 onEither.1] at found
    split_ifs at found
    cases found
    simp [meetNode, mergedNames, bareA, bareB]

/-- An intersection is whole or masked only where a side is. -/
theorem intersectNodes_marked {a b met : FieldNode} (found : intersectNodes a b = some met)
    (marked : met.whole = true ∨ met.masked = true) :
    (a.whole = true ∨ a.masked = true) ∨ (b.whole = true ∨ b.masked = true) := by
  by_cases onEither : b.masked = true ∨ a.masked = true
  · rcases onEither with masked | masked
    · exact .inr (.inr masked)
    · exact .inl (.inr masked)
  · simp only [not_or, Bool.not_eq_true] at onEither
    rw [intersectNodes_plain onEither.2 onEither.1] at found
    split_ifs at found
    cases found
    simp only [meetNode, Bool.and_eq_true, Bool.false_eq_true, or_false] at marked
    exact .inl (.inl marked.1)

end DuckAcl
