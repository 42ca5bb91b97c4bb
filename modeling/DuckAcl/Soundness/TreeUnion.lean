import DuckAcl.Soundness.TreeMerge

/-! # The union of two trees

`UniteNodes` merges the trees two roles have for one column. Read as a tree, the result shows
exactly what either side shows, and a position is reached without a mask exactly when one side
reaches it so. What the result does not keep is tightness: a whole position of one side may end up
above a partial one of the other, where the first side had a mask.
-/

namespace DuckAcl

/-! ## What `UniteNodes` returns -/

/-- Two sides unite, whatever column the error would have named. -/
def Unites (left right united : Option FieldNode) : Prop := ∃ display, uniteNodes display left right = .ok united

theorem mapM_ok {α β ε : Type} {f : α → Except ε β} {xs : List α} {ys : List β} (pick : α → β)
    (picks : ∀ x y, f x = .ok y → pick x = y) (ran : xs.mapM f = .ok ys) :
    ys = xs.map pick ∧ ∀ x ∈ xs, f x = .ok (pick x) := by
  induction xs generalizing ys with
  | nil =>
    cases ran
    simp
  | cons x xs ih =>
    simp only [List.mapM_cons, bind, Except.bind, pure, Except.pure] at ran
    split at ran
    · cases ran
    · rename_i y first
      split at ran
      · cases ran
      · rename_i rest others
        cases ran
        obtain ⟨rfl, all⟩ := ih others
        obtain rfl := picks x y first
        refine ⟨rfl, fun other member => ?_⟩
        rcases List.mem_cons.mp member with rfl | member
        · exact first
        · exact all other member

/-- What two unmasked sides unite to: each merged name united on its own, and the element where a
side names one. -/
theorem uniteNodes_both {display : Text} {a b : FieldNode} {united : Option FieldNode}
    (plainA : a.masked = false) (plainB : b.masked = false)
    (ran : uniteNodes display (some a) (some b) = .ok united) :
    ∃ merged : Text → Option FieldNode, ∃ element,
      (∀ name ∈ mergedNames a b, Unites (childOrWhole a name) (childOrWhole b name) (merged name)) ∧
      (a.element.isSome ∨ b.element.isSome → Unites (elementOrWhole a) (elementOrWhole b) element) ∧
      (a.element = none → b.element = none → element = none) ∧
      united = some { name := a.name, whole := a.whole || b.whole,
                      fields := (mergedNames a b).filterMap fun name =>
                        (merged name).filter (keepMerged (a.whole || b.whole)),
                      element := element.filter (keepMerged (a.whole || b.whole)) } := by
  rw [uniteNodes] at ran
  simp only [plainA, plainB, Bool.and_self, Bool.false_eq_true, ↓reduceIte, bind, Except.bind, pure,
    Except.pure] at ran
  split at ran
  · cases ran
  · rename_i sides mapped
    let merged (name : Text) : Option FieldNode :=
      (uniteNodes (display ++ stepText (.field name)) (childOrWhole a name) (childOrWhole b name)).toOption.join
    obtain ⟨rfl, all⟩ := mapM_ok (fun name => merged name.1) (by
      rintro ⟨name, member⟩ side done
      simp only [merged, done]
      rfl) mapped
    refine ⟨merged, ?_⟩
    have fields : ∀ name ∈ mergedNames a b, Unites (childOrWhole a name) (childOrWhole b name) (merged name) :=
      fun name member => ⟨_, all ⟨name, member⟩ (List.mem_attach ..)⟩
    have kept : ((mergedNames a b).attach.map fun name => merged name.1).filterMap
        (Option.filter (keepMerged (a.whole || b.whole))) = (mergedNames a b).filterMap fun name =>
          (merged name).filter (keepMerged (a.whole || b.whole)) := by
      rw [List.filterMap_map]
      exact (List.filterMap_subtype fun _ _ => rfl).trans (by rw [List.unattach_attach])
    by_cases named : a.element.isSome ∨ b.element.isSome
    · simp only [named, ↓reduceDIte] at ran
      split at ran
      · cases ran
      · rename_i element done
        cases ran
        refine ⟨element, fields, fun _ => ⟨_, done⟩, fun noA noB => ?_, by rw [kept]⟩
        simp [noA, noB] at named
    · simp only [named, ↓reduceDIte] at ran
      cases ran
      exact ⟨none, fields, fun some => absurd some named, fun _ _ => rfl, by rw [kept]⟩

/-- The shapes of a union. -/
theorem Unites.shape {left right united : Option FieldNode} (unites : Unites left right united) :
    (left = none ∧ united = right) ∨ (right = none ∧ united = left) ∨
      ∃ a b, left = some a ∧ right = some b ∧
        ((a.masked = true ∧ b.masked = true ∧ united = left) ∨
          (a.masked = true ∧ b.masked = false ∧ united = right) ∨
          (a.masked = false ∧ b.masked = true ∧ united = left) ∨
          (a.masked = false ∧ b.masked = false ∧ ∃ display, uniteNodes display (some a) (some b) = .ok united)) := by
  obtain ⟨display, ran⟩ := unites
  cases left with
  | none =>
    rw [uniteNodes] at ran
    cases ran
    exact .inl ⟨rfl, rfl⟩
  | some a =>
    cases right with
    | none =>
      rw [uniteNodes] at ran
      cases ran
      exact .inr (.inl ⟨rfl, rfl⟩)
    | some b =>
      refine .inr (.inr ⟨a, b, rfl, rfl, ?_⟩)
      cases maskedA : a.masked with
      | true =>
        rw [uniteNodes] at ran
        cases maskedB : b.masked with
        | true =>
          simp only [maskedA, maskedB, Bool.and_self, ↓reduceIte] at ran
          split_ifs at ran
          cases ran
          simp
        | false =>
          simp only [maskedA, maskedB, Bool.and_false, Bool.false_eq_true, ↓reduceIte] at ran
          cases ran
          simp
      | false =>
        cases maskedB : b.masked with
        | true =>
          rw [uniteNodes] at ran
          simp only [maskedA, maskedB, Bool.false_and, Bool.false_eq_true, ↓reduceIte] at ran
          cases ran
          simp
        | false =>
          simp only [Bool.false_eq_true, false_and, and_false, false_or, true_and]
          exact ⟨display, ran⟩

theorem Unites.isSome {left right united : Option FieldNode} (unites : Unites left right united)
    (given : left.isSome ∨ right.isSome) : united.isSome := by
  rcases unites.shape with ⟨rfl, rfl⟩ | ⟨rfl, rfl⟩ | ⟨a, b, rfl, rfl, ⟨_, _, rfl⟩ | ⟨_, _, rfl⟩ | ⟨_, _, rfl⟩ |
    ⟨plainA, plainB, display, ran⟩⟩
  · simpa using given
  · simpa using given
  · rfl
  · rfl
  · rfl
  · obtain ⟨_, _, _, _, _, rfl⟩ := uniteNodes_both plainA plainB ran
    rfl

theorem Unites.named {left right united : Option FieldNode} {name : Text} (unites : Unites left right united)
    (namedLeft : SideNamed left name) (namedRight : SideNamed right name) : SideNamed united name := by
  rcases unites.shape with ⟨rfl, rfl⟩ | ⟨rfl, rfl⟩ | ⟨a, b, rfl, rfl, ⟨_, _, rfl⟩ | ⟨_, _, rfl⟩ | ⟨_, _, rfl⟩ |
    ⟨plainA, plainB, display, ran⟩⟩
  · exact namedRight
  · exact namedLeft
  · exact namedLeft
  · exact namedRight
  · exact namedLeft
  · obtain ⟨_, _, _, _, _, rfl⟩ := uniteNodes_both plainA plainB ran
    rintro node ⟨⟩
    exact namedLeft a rfl

/-! ## One merged position -/

/-- A position two unmasked sides merged into. -/
structure Merged (a b united : FieldNode) : Prop where
  unmasked : united.masked = false
  whole : united.whole = (a.whole || b.whole)
  explicit : ∀ step, (a.child step).isSome ∨ (b.child step).isSome → ∃ same side, same.key = step.key ∧
    Unites (a.childOr same) (b.childOr same) side ∧ united.child step = side.filter (keepMerged united.whole)
  implied : ∀ step, a.child step = none → b.child step = none → united.child step = none

/-- A node over the merged names, each united on its own, is a merged position. -/
theorem merged_of_sides {a b united : FieldNode} (wfA : a.Wf) (wfB : b.Wf)
    {merged : Text → Option FieldNode} {element : Option FieldNode}
    (fields : ∀ name ∈ mergedNames a b, Unites (childOrWhole a name) (childOrWhole b name) (merged name))
    (elements : a.element.isSome ∨ b.element.isSome → Unites (elementOrWhole a) (elementOrWhole b) element)
    (noElement : a.element = none → b.element = none → element = none)
    (unmasked : united.masked = false) (whole : united.whole = (a.whole || b.whole))
    (hasFields : united.fields = (mergedNames a b).filterMap fun name =>
      (merged name).filter (keepMerged united.whole))
    (hasElement : united.element = element.filter (keepMerged united.whole)) : Merged a b united := by
  have named : ∀ name ∈ mergedNames a b, SideNamed ((merged name).filter (keepMerged united.whole)) name := by
    intro name member node kept
    exact (fields name member).named (childOrWhole_named a name) (childOrWhole_named b name) node
      (Option.filter_eq_some_iff.mp kept).1
  have finds := find?_filterMap_named (mergedNames_distinct wfA wfB) named
  refine ⟨unmasked, whole, fun step given => ?_, fun step noA noB => ?_⟩
  · cases step with
    | element => exact ⟨.element, element, rfl, elements given, hasElement⟩
    | field wanted =>
      obtain ⟨name, member, same⟩ := (mem_mergedNames wanted).mpr given
      refine ⟨.field name, merged name, Step.key_field_eq.mpr same, fields name member, ?_⟩
      rw [FieldNode.child, FieldNode.find, hasFields]
      exact (finds wanted).1 name member same
  · cases step with
    | element => rw [FieldNode.child, hasElement, noElement noA noB, Option.filter_none]
    | field wanted =>
      rw [FieldNode.child, FieldNode.find, hasFields]
      apply (finds wanted).2
      intro name member
      rw [Bool.eq_false_iff]
      intro same
      have given := (mem_mergedNames wanted).mp ⟨name, member, same⟩
      simp only [FieldNode.child] at noA noB
      simp [noA, noB] at given

theorem uniteNodes_merged {display : Text} {a b united : FieldNode} (wfA : a.Wf) (wfB : b.Wf)
    (plainA : a.masked = false) (plainB : b.masked = false)
    (ran : uniteNodes display (some a) (some b) = .ok (some united)) : Merged a b united := by
  obtain ⟨merged, element, fields, elements, noElement, equal⟩ := uniteNodes_both plainA plainB ran
  obtain rfl := Option.some.inj equal
  exact merged_of_sides wfA wfB fields elements noElement rfl rfl rfl rfl

/-! ## Reading a union -/

section

variable {base : FieldNode → Bool} (onWhole : ∀ node : FieldNode, node.whole = true → base node = true)
  (onMerged : ∀ a b united : FieldNode, Merged a b united → base united = (base a || base b))

include onWhole

/-- One step below a merged position, given what the sides below unite to. -/
private theorem Merged.walk_step {a b united : FieldNode} (merged : Merged a b united)
    (plainA : a.masked = false) (plainB : b.masked = false) (step : Step) {path : List Step}
    (below : ∀ same side, same.key = step.key → Unites (a.childOr same) (b.childOr same) side →
      side.any (·.walk base path) = ((a.childOr same).any (·.walk base path) || (b.childOr same).any (·.walk base path))) :
    united.walk base (step :: path) = (a.walk base (step :: path) || b.walk base (step :: path)) := by
  have implied (name : Text) (path : List Step) : (wholeNode name).walk base path = true :=
    FieldNode.plain_reached onWhole rfl path
  rw [FieldNode.walk_cons merged.unmasked]
  obtain ⟨name, equal⟩ := united.childOr_eq step
  by_cases given : (a.child step).isSome ∨ (b.child step).isSome
  · obtain ⟨same, side, sameKey, unites, child⟩ := merged.explicit step given
    have sameKeys : keys (same :: path) = keys (step :: path) := by rw [keys_cons, keys_cons, sameKey]
    have sides := below same side sameKey unites
    rw [← FieldNode.walk_cons plainA, ← FieldNode.walk_cons plainB, FieldNode.walk_congr onWhole sameKeys a,
      FieldNode.walk_congr onWhole sameKeys b] at sides
    rw [← sides, equal, child]
    have present : side.isSome := by
      apply unites.isSome
      simp only [Option.isSome_iff_exists] at given ⊢
      rcases given with ⟨child, found⟩ | ⟨child, found⟩
      · exact .inl ⟨child, FieldNode.childOr_of_child ((FieldNode.child_congr a sameKey).trans found)⟩
      · exact .inr ⟨child, FieldNode.childOr_of_child ((FieldNode.child_congr b sameKey).trans found)⟩
    obtain ⟨node, rfl⟩ := Option.isSome_iff_exists.mp present
    rw [Option.filter_some]
    cases kept : keepMerged united.whole node with
    | true => rfl
    | false =>
      simp only [keepMerged, Bool.not_eq_false', Bool.and_eq_true] at kept
      simp [kept.1, implied, FieldNode.plain_reached onWhole kept.2]
  · simp only [not_or, Option.not_isSome_iff_eq_none] at given
    obtain ⟨first, left⟩ := a.childOr_eq step
    obtain ⟨second, right⟩ := b.childOr_eq step
    rw [FieldNode.walk_cons plainA, FieldNode.walk_cons plainB, equal, left, right, given.1, given.2,
      merged.implied step given.1 given.2, merged.whole]
    cases a.whole <;> cases b.whole <;> simp [implied]

include onMerged

/-- A union reaches a position exactly when a side does. -/
theorem Unites.walk {left right united : Option FieldNode} (unites : Unites left right united)
    (wfLeft : SideWf left) (wfRight : SideWf right) (path : List Step) :
    united.any (·.walk base path) = (left.any (·.walk base path) || right.any (·.walk base path)) := by
  have masked {node : FieldNode} (isMasked : node.masked = true) (path : List Step) : node.walk base path = false := by
    cases path <;> simp [FieldNode.walk, isMasked]
  induction path generalizing left right united with
  | nil =>
    rcases unites.shape with ⟨rfl, rfl⟩ | ⟨rfl, rfl⟩ | ⟨a, b, rfl, rfl, ⟨onA, onB, rfl⟩ | ⟨onA, onB, rfl⟩ |
      ⟨onA, onB, rfl⟩ | ⟨plainA, plainB, display, ran⟩⟩
    · simp
    · simp
    · simp [masked onA, masked onB]
    · simp [masked onA]
    · simp [masked onB]
    · obtain ⟨node, rfl⟩ := Option.isSome_iff_exists.mp (unites.isSome (.inl rfl))
      have merged := uniteNodes_merged (wfLeft a rfl) (wfRight b rfl) plainA plainB ran
      simp [FieldNode.walk, merged.unmasked, plainA, plainB, onMerged a b node merged]
  | cons step path ih =>
    rcases unites.shape with ⟨rfl, rfl⟩ | ⟨rfl, rfl⟩ | ⟨a, b, rfl, rfl, ⟨onA, onB, rfl⟩ | ⟨onA, onB, rfl⟩ |
      ⟨onA, onB, rfl⟩ | ⟨plainA, plainB, display, ran⟩⟩
    · simp
    · simp
    · simp [masked onA, masked onB]
    · simp [masked onA]
    · simp [masked onB]
    · obtain ⟨node, rfl⟩ := Option.isSome_iff_exists.mp (unites.isSome (.inl rfl))
      have merged := uniteNodes_merged (wfLeft a rfl) (wfRight b rfl) plainA plainB ran
      simp only [Option.any_some]
      refine merged.walk_step onWhole plainA plainB step fun same side _ sides => ?_
      exact ih sides ((wfLeft a rfl).childOr same) ((wfRight b rfl).childOr same)

end

/-- A merged position reaches what its sides reach. -/
theorem Merged.walk {base : FieldNode → Bool} (onWhole : ∀ node : FieldNode, node.whole = true → base node = true)
    (onMerged : ∀ a b united : FieldNode, Merged a b united → base united = (base a || base b))
    {a b united : FieldNode} (merged : Merged a b united) (wfA : a.Wf) (wfB : b.Wf)
    (plainA : a.masked = false) (plainB : b.masked = false) (path : List Step) :
    united.walk base path = (a.walk base path || b.walk base path) := by
  cases path with
  | nil => simp [FieldNode.walk, merged.unmasked, plainA, plainB, onMerged a b united merged]
  | cons step path =>
    refine merged.walk_step onWhole plainA plainB step fun same side _ sides => ?_
    exact sides.walk onWhole onMerged (wfA.childOr same) (wfB.childOr same) path

/-- What two roles read is what their union reads, before it is written down. -/
theorem Merged.reads {a b united : FieldNode} (merged : Merged a b united) (wfA : a.Wf) (wfB : b.Wf)
    (plainA : a.masked = false) (plainB : b.masked = false) (path : List Step) :
    united.reads path = (a.reads path || b.reads path) := by
  simp only [FieldNode.reads_eq_walk]
  exact merged.walk (fun _ whole => whole) (fun _ _ _ merged => merged.whole) wfA wfB plainA plainB path

theorem Merged.free {a b united : FieldNode} (merged : Merged a b united) (wfA : a.Wf) (wfB : b.Wf)
    (plainA : a.masked = false) (plainB : b.masked = false) (path : List Step) :
    united.free path = (a.free path || b.free path) :=
  merged.walk (fun _ _ => rfl) (fun _ _ _ _ => rfl) wfA wfB plainA plainB path

/-! ## Where a union is not tight -/

/-- One side shows a position but masks a child of it that the other side shows only in part. -/
def Clashes (a b : FieldNode) : Prop :=
  ∃ path step, a.reads path = true ∧ (a.maskOn (path ++ [step])).isSome ∧
    b.free (path ++ [step]) = true ∧ b.reads (path ++ [step]) = false

private theorem Clashes.below {a b a' b' : FieldNode} {step : Step} (plainA : a.masked = false)
    (plainB : b.masked = false) (left : a.childOr step = some a') (right : b.childOr step = some b')
    (clash : Clashes a' b') : Clashes a b := by
  obtain ⟨path, last, shown, masked, reached, hidden⟩ := clash
  refine ⟨step :: path, last, ?_, ?_, ?_, ?_⟩
  · rw [FieldNode.reads_eq_walk] at shown ⊢
    rw [FieldNode.walk_cons plainA, left]
    exact shown
  · rw [List.cons_append, FieldNode.maskOn_childOr plainA, left]
    exact masked
  · rw [FieldNode.free] at reached ⊢
    rw [List.cons_append, FieldNode.walk_cons plainB, right]
    exact reached
  · rw [FieldNode.reads_eq_walk] at hidden ⊢
    rw [List.cons_append, FieldNode.walk_cons plainB, right]
    exact hidden

/-- A masked side leaves the other one, and a whole unmasked side stays whole. -/
private theorem Unites.unmasked_cases {left right : Option FieldNode} {united : FieldNode}
    (unites : Unites left right (some united)) (unmasked : united.masked = false) :
    (∀ a ∈ left, (a.masked = true → right = some united) ∧ (a.masked = false → a.whole = true → united.whole = true)) ∧
      ∀ b ∈ right, (b.masked = true → left = some united) ∧ (b.masked = false → b.whole = true → united.whole = true) := by
  rcases unites.shape with ⟨rfl, same⟩ | ⟨rfl, same⟩ | ⟨a, b, rfl, rfl, ⟨onA, _, same⟩ | ⟨onA, onB, same⟩ |
    ⟨onA, onB, same⟩ | ⟨plainA, plainB, display, ran⟩⟩
  · subst same
    simp [unmasked]
  · subst same
    simp [unmasked]
  · cases same
    rw [unmasked] at onA
    cases onA
  · cases same
    simp [onA, onB]
  · cases same
    simp [onA, onB]
  · obtain ⟨_, _, _, _, _, equal⟩ := uniteNodes_both plainA plainB ran
    obtain rfl := Option.some.inj equal
    simp +contextual [plainA, plainB]

private theorem clashes_here {a b united : FieldNode} {step : Step} (tight : a.Tight) (plainA : a.masked = false)
    (plainB : b.masked = false) (whole : a.whole = true) (unmasked : united.masked = false)
    (notWhole : united.whole = false)
    (sides : ∀ child ∈ a.childOr step, (child.masked = true → b.childOr step = some united) ∧
      (child.masked = false → child.whole = true → united.whole = true)) : Clashes a b := by
  obtain ⟨child, found⟩ : ∃ child, a.childOr step = some child := by
    obtain ⟨name, equal⟩ := a.childOr_eq step
    rw [equal, whole]
    cases a.child step <;> exact ⟨_, rfl⟩
  obtain ⟨ifMasked, ifWhole⟩ := sides child found
  have masked : child.masked = true := by
    rcases (tight.childOr found).2 whole with isWhole | isMasked
    · rw [← Bool.not_eq_false]
      intro isUnmasked
      rw [ifWhole isUnmasked isWhole] at notWhole
      cases notWhole
    · exact isMasked
  refine ⟨[], step, ?_, ?_, ?_, ?_⟩
  · simp [FieldNode.reads, plainA, whole]
  · rw [List.nil_append, FieldNode.maskOn_childOr plainA, found]
    simp [FieldNode.maskOn, masked]
  · rw [List.nil_append, FieldNode.free, FieldNode.walk_cons plainB, ifMasked masked]
    simp [FieldNode.walk, unmasked]
  · rw [List.nil_append, FieldNode.reads_eq_walk, FieldNode.walk_cons plainB, ifMasked masked]
    simp [FieldNode.walk, notWhole]

/-- Where a merged tree, written down and read again, would show more than it does, its sides
clash. -/
theorem Merged.clashes {a b united : FieldNode} (merged : Merged a b united) (wfA : a.Wf) (wfB : b.Wf)
    (tightA : a.Tight) (tightB : b.Tight) (plainA : a.masked = false) (plainB : b.masked = false)
    {path : List Step} (noMask : united.maskOn path = none) (opened : united.opens path = true)
    (hidden : united.reads path = false) : Clashes a b ∨ Clashes b a := by
  induction path generalizing a b united with
  | nil =>
    simp only [FieldNode.opens] at opened
    simp [FieldNode.reads, merged.unmasked, opened] at hidden
  | cons step path ih =>
    rw [FieldNode.maskOn_cons merged.unmasked] at noMask
    rw [FieldNode.opens_cons, Bool.or_eq_true] at opened
    rw [FieldNode.reads_cons merged.unmasked] at hidden
    cases found : united.child step with
    | none => simp [found] at opened hidden; simp [opened] at hidden
    | some child =>
      simp only [found, Option.bind_some, Option.any_some] at noMask opened hidden
      have given : (a.child step).isSome ∨ (b.child step).isSome := by
        by_contra missing
        simp only [not_or, Option.not_isSome_iff_eq_none] at missing
        rw [merged.implied step missing.1 missing.2] at found
        cases found
      obtain ⟨same, side, _, unites, equal⟩ := merged.explicit step given
      rw [found] at equal
      obtain rfl := (Option.filter_eq_some_iff.mp equal.symm).1
      have unmasked : child.masked = false := by
        rw [Bool.eq_false_iff]
        intro isMasked
        rw [FieldNode.maskOn_of_masked isMasked] at noMask
        cases noMask
      by_cases inner : child.opens path = true
      · -- the position below is a side's own tree, or a merge of two smaller ones
        have notTight : ¬ child.Tight := fun tight => by
          rw [(tight.reads_iff path).mpr ⟨noMask, inner⟩] at hidden
          cases hidden
        rcases unites.shape with ⟨_, right⟩ | ⟨_, left⟩ | ⟨a', b', left, right, ⟨onA, _, isLeft⟩ |
          ⟨_, _, isRight⟩ | ⟨_, _, isLeft⟩ | ⟨plainA', plainB', display, ran⟩⟩
        · exact absurd (tightB.childOr right.symm).1 notTight
        · exact absurd (tightA.childOr left.symm).1 notTight
        · exact absurd (tightA.childOr isLeft.symm).1 notTight
        · exact absurd (tightB.childOr isRight.symm).1 notTight
        · exact absurd (tightA.childOr isLeft.symm).1 notTight
        · have wfA' := wfA.childOr same a' left
          have wfB' := wfB.childOr same b' right
          have smaller := uniteNodes_merged wfA' wfB' plainA' plainB' ran
          rcases ih smaller wfA' wfB' (tightA.childOr left).1 (tightB.childOr right).1 plainA' plainB' noMask
            inner hidden with clash | clash
          · exact .inl (clash.below plainA plainB left right)
          · exact .inr (clash.below plainB plainA right left)
      · have notWhole : child.whole = false := by
          rw [Bool.eq_false_iff]
          intro whole
          apply inner
          cases path <;> simp [FieldNode.opens, whole]
        have whole := opened.resolve_right inner
        rw [merged.whole, Bool.or_eq_true] at whole
        obtain ⟨onLeft, onRight⟩ := unites.unmasked_cases unmasked
        rcases whole with whole | whole
        · exact .inl (clashes_here tightA plainA plainB whole unmasked notWhole onLeft)
        · exact .inr (clashes_here tightB plainB plainA whole unmasked notWhole onRight)

/-- A clash shows: the merged tree masks nothing there and has a whole position above, so reading
it again opens what neither side shows. -/
theorem Merged.opens_clash {a b united : FieldNode} (merged : Merged a b united) (wfA : a.Wf) (wfB : b.Wf)
    (plainA : a.masked = false) (plainB : b.masked = false) (clash : Clashes a b ∨ Clashes b a) :
    ∃ path, united.maskOn path = none ∧ united.opens path = true ∧ a.reads path = false ∧ b.reads path = false := by
  have noRead {node : FieldNode} {path : List Step} (masked : (node.maskOn path).isSome) :
      node.reads path = false := by
    rw [Bool.eq_false_iff]
    intro shown
    rw [FieldNode.reads_eq_walk] at shown
    rw [FieldNode.maskOn_of_walk shown] at masked
    cases masked
  have both := fun path => merged.reads wfA wfB plainA plainB path
  have reach := fun path => merged.free wfA wfB plainA plainB path
  rcases clash with ⟨path, step, shown, masked, reached, hidden⟩ | ⟨path, step, shown, masked, reached, hidden⟩
  · refine ⟨path ++ [step], FieldNode.maskOn_of_free ?_, FieldNode.opens_append ?_ _, noRead masked, hidden⟩
    · exact (reach _).trans (by rw [reached, Bool.or_true])
    · exact FieldNode.opens_of_reads ((both _).trans (by rw [shown, Bool.true_or]))
  · refine ⟨path ++ [step], FieldNode.maskOn_of_free ?_, FieldNode.opens_append ?_ _, hidden, noRead masked⟩
    · exact (reach _).trans (by rw [reached, Bool.true_or])
    · exact FieldNode.opens_of_reads ((both _).trans (by rw [shown, Bool.or_true]))

end DuckAcl
