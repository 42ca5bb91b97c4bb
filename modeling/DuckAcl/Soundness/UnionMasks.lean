import DuckAcl.Soundness.RoleUnion

/-! # The masks of a union

`UniteNodes` keeps a mask where neither side reaches its position unmasked, and it unites any two
trees that do not put two masks on one position. Both say nothing of which side came first.
-/

namespace DuckAcl

/-! ## Masks that stay -/

theorem FieldNode.free_of_maskAt {node : FieldNode} {path : List Step} {mask : Text}
    (masked : node.maskAt path = some mask) : node.free path = false := by
  rw [← Bool.not_eq_true]
  intro reached
  rw [FieldNode.maskAt_iff, FieldNode.maskOn_of_free reached] at masked
  cases masked.1

private theorem FieldNode.free_cons_masked {node : FieldNode} (masked : node.masked = true) (path : List Step) :
    node.free path = false := by
  cases path <;> simp [FieldNode.free, FieldNode.walk, masked]

/-- Two masked sides unite only when the mask is the same. -/
private theorem Unites.same_mask {a b : FieldNode} {united : Option FieldNode} (unites : Unites (some a) (some b) united)
    (onA : a.masked = true) (onB : b.masked = true) : a.mask = b.mask := by
  obtain ⟨display, ran⟩ := unites
  rw [uniteNodes] at ran
  by_contra differ
  simp [onA, onB, differ] at ran

/-- The masks of the sides that stay in their union. -/
private def KeepsMasks (left right united : Option FieldNode) (path : List Step) : Prop :=
  ∀ mask, united.bind (·.maskAt path) = some mask ↔
    (left.bind (·.maskAt path) = some mask ∨ right.bind (·.maskAt path) = some mask) ∧
      left.any (·.free path) = false ∧ right.any (·.free path) = false

/-- One step below a merged position, given what the sides below unite to. -/
private theorem Merged.maskAt_step {a b united : FieldNode} (merged : Merged a b united) (plainA : a.masked = false)
    (plainB : b.masked = false) (step : Step) {path : List Step}
    (below : ∀ same side, same.key = step.key → Unites (a.childOr same) (b.childOr same) side →
      KeepsMasks (a.childOr same) (b.childOr same) side path) :
    KeepsMasks (some a) (some b) (some united) (step :: path) := by
  intro mask
  simp only [Option.bind_some, Option.any_some]
  by_cases given : (a.child step).isSome ∨ (b.child step).isSome
  · obtain ⟨same, side, sameKey, unites, child⟩ := merged.explicit step given
    have sameKeys : keys (same :: path) = keys (step :: path) := by rw [keys_cons, keys_cons, sameKey]
    have sides := below same side sameKey unites mask
    have reaches {node : FieldNode} (plain : node.masked = false) :
        (node.childOr same).any (·.free path) = node.free (step :: path) := by
      have walks := @FieldNode.walk_congr (fun _ => true) (fun _ _ => rfl) _ _ sameKeys node
      rw [FieldNode.walk_cons plain] at walks
      exact walks
    rw [← FieldNode.maskAt_childOr plainA, ← FieldNode.maskAt_childOr plainB, FieldNode.maskAt_congr sameKeys,
      FieldNode.maskAt_congr sameKeys, reaches plainA, reaches plainB] at sides
    rw [← sides, FieldNode.maskAt_cons merged.unmasked, child]
    cases side with
    | none => simp
    | some node =>
      rw [Option.filter_some]
      cases kept : keepMerged united.whole node with
      | true => rfl
      | false =>
        -- a plain child is left out, and puts no mask anywhere
        simp only [keepMerged, Bool.not_eq_false', Bool.and_eq_true] at kept
        have none : node.maskAt path ≠ some mask := by
          intro found
          have masked := (FieldNode.maskAt_iff.mp found).1
          rw [FieldNode.maskOn_of_free (FieldNode.plain_reached (fun _ _ => rfl) kept.2 path)] at masked
          cases masked
        simp [none]
  · simp only [not_or, Option.not_isSome_iff_eq_none] at given
    rw [FieldNode.maskAt_cons plainA, FieldNode.maskAt_cons plainB, FieldNode.maskAt_cons merged.unmasked, given.1, given.2,
      merged.implied step given.1 given.2]
    simp

/-- A union keeps a mask exactly where neither side reaches its position. -/
private theorem Unites.maskAt {left right united : Option FieldNode} (unites : Unites left right united)
    (wfLeft : SideWf left) (wfRight : SideWf right) (path : List Step) : KeepsMasks left right united path := by
  have only (side : Option FieldNode) (path : List Step) (mask : Text) :
      side.bind (·.maskAt path) = some mask → side.any (·.free path) = false := by
    intro found
    obtain ⟨node, rfl, masked⟩ := Option.bind_eq_some_iff.mp found
    exact FieldNode.free_of_maskAt masked
  have maskedCons {node : FieldNode} (masked : node.masked = true) (step : Step) (path : List Step) :
      node.maskAt (step :: path) = none := by simp [FieldNode.maskAt, masked]
  induction path generalizing left right united with
  | nil =>
    intro mask
    rcases unites.shape with ⟨rfl, rfl⟩ | ⟨rfl, rfl⟩ | ⟨a, b, rfl, rfl, ⟨onA, onB, rfl⟩ | ⟨onA, onB, rfl⟩ |
      ⟨onA, onB, rfl⟩ | ⟨plainA, plainB, display, ran⟩⟩
    · simpa using only _ [] mask
    · simpa using only _ [] mask
    · have same := unites.same_mask onA onB
      simp [FieldNode.maskAt, FieldNode.free, FieldNode.walk, onA, onB, same]
    · simp [FieldNode.maskAt, FieldNode.free, FieldNode.walk, onB]
    · simp [FieldNode.maskAt, FieldNode.free, FieldNode.walk, onA]
    · obtain ⟨node, rfl⟩ := Option.isSome_iff_exists.mp (unites.isSome (.inl rfl))
      have merged := uniteNodes_merged (wfLeft a rfl) (wfRight b rfl) plainA plainB ran
      simp [FieldNode.maskAt, merged.unmasked, plainA, plainB]
  | cons step path ih =>
    rcases unites.shape with ⟨rfl, rfl⟩ | ⟨rfl, rfl⟩ | ⟨a, b, rfl, rfl, ⟨onA, onB, rfl⟩ | ⟨onA, onB, rfl⟩ |
      ⟨onA, onB, rfl⟩ | ⟨plainA, plainB, display, ran⟩⟩
    · intro mask
      simpa using only _ (step :: path) mask
    · intro mask
      simpa using only _ (step :: path) mask
    · intro mask
      simp [maskedCons onA, maskedCons onB]
    · intro mask
      simpa [maskedCons onA, FieldNode.free_cons_masked onA] using only (some b) (step :: path) mask
    · intro mask
      simpa [maskedCons onB, FieldNode.free_cons_masked onB] using only (some a) (step :: path) mask
    · obtain ⟨node, rfl⟩ := Option.isSome_iff_exists.mp (unites.isSome (.inl rfl))
      have merged := uniteNodes_merged (wfLeft a rfl) (wfRight b rfl) plainA plainB ran
      refine merged.maskAt_step plainA plainB step fun same side _ sides => ?_
      exact ih sides ((wfLeft a rfl).childOr same) ((wfRight b rfl).childOr same)

/-- A merged position keeps a mask exactly where neither side reaches it. -/
theorem Merged.maskAt {a b united : FieldNode} (merged : Merged a b united) (wfA : a.Wf) (wfB : b.Wf)
    (plainA : a.masked = false) (plainB : b.masked = false) (path : List Step) (mask : Text) :
    united.maskAt path = some mask ↔
      (a.maskAt path = some mask ∨ b.maskAt path = some mask) ∧ a.free path = false ∧ b.free path = false := by
  cases path with
  | nil => simp [FieldNode.maskAt, merged.unmasked, plainA, plainB]
  | cons step path =>
    have keeps : KeepsMasks (some a) (some b) (some united) (step :: path) :=
      merged.maskAt_step plainA plainB step fun same side _ sides =>
        sides.maskAt (wfA.childOr same) (wfB.childOr same) path
    simpa using keeps mask

/-! ## Trees that unite -/

theorem mapM_succeeds {α β ε : Type} {f : α → Except ε β} {xs : List α} (all : ∀ x ∈ xs, ∃ y, f x = .ok y) :
    ∃ ys, xs.mapM f = .ok ys := by
  induction xs with
  | nil => exact ⟨[], rfl⟩
  | cons x xs ih =>
    obtain ⟨y, first⟩ := all x List.mem_cons_self
    obtain ⟨ys, rest⟩ := ih fun other member => all other (List.mem_cons_of_mem _ member)
    exact ⟨y :: ys, by simp [List.mapM_cons, first, rest, bind, Except.bind, pure, Except.pure]⟩

/-- The sides put no two masks on one position. -/
def SidesAgree (left right : Option FieldNode) : Prop :=
  ∀ path first second, left.bind (·.maskAt path) = some first → right.bind (·.maskAt path) = some second → first = second

private theorem SidesAgree.childOr {a b : FieldNode} (agree : SidesAgree (some a) (some b)) (plainA : a.masked = false)
    (plainB : b.masked = false) (step : Step) : SidesAgree (a.childOr step) (b.childOr step) := by
  intro path first second left right
  refine agree (step :: path) first second ?_ ?_
  · rw [Option.bind_some, FieldNode.maskAt_childOr plainA, left]
  · rw [Option.bind_some, FieldNode.maskAt_childOr plainB, right]

/-- Sides that agree unite. -/
theorem uniteNodes_succeeds {display : Text} {left right : Option FieldNode} (agree : SidesAgree left right) :
    ∃ united, uniteNodes display left right = .ok united := by
  induction size : heightSide left + heightSide right using Nat.strong_induction_on generalizing display left right with
  | _ size ih =>
    cases left with
    | none => exact ⟨right, by rw [uniteNodes]⟩
    | some a =>
      cases right with
      | none => exact ⟨some a, by rw [uniteNodes]⟩
      | some b =>
        rw [uniteNodes]
        cases onA : a.masked with
        | true =>
          cases onB : b.masked with
          | true =>
            have same : a.mask = b.mask := agree [] a.mask b.mask (by simp [FieldNode.maskAt, onA]) (by simp [FieldNode.maskAt, onB])
            exact ⟨some a, by simp [same]⟩
          | false => exact ⟨some b, by simp⟩
        | false =>
          cases onB : b.masked with
          | true => exact ⟨some a, by simp⟩
          | false =>
            have below := agree.childOr onA onB
            let unite (name : { name // name ∈ mergedNames a b }) :=
              uniteNodes (display ++ stepText (.field name.1)) (childOrWhole a name.1) (childOrWhole b name.1)
            have each : ∀ name ∈ (mergedNames a b).attach, ∃ side, unite name = .ok side := by
              intro name _
              exact ih _ (size ▸ heightSide_children name.2) (below (.field name.1)) rfl
            obtain ⟨fields, mapped⟩ := mapM_succeeds each
            simp only [unite] at mapped
            by_cases named : a.element.isSome ∨ b.element.isSome
            · have inner : ∃ element, uniteNodes (display ++ stepText .element) (elementOrWhole a) (elementOrWhole b) = .ok element :=
                ih _ (size ▸ heightSide_elements named) (below .element) rfl
              obtain ⟨element, done⟩ := inner
              simp only [Bool.and_self, Bool.false_eq_true, ↓reduceIte, bind, Except.bind, mapped, named, ↓reduceDIte, done,
                pure, Except.pure]
              exact ⟨_, rfl⟩
            · simp only [Bool.and_self, Bool.false_eq_true, ↓reduceIte, bind, Except.bind, mapped, named, ↓reduceDIte,
                pure, Except.pure]
              exact ⟨_, rfl⟩

end DuckAcl
