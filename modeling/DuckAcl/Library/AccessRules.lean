import Mathlib.Data.List.Infix

/-! # Prefix rules

A rule list over paths: a rule either shows everything below its path or puts a mask there. A path
is shown when some rule shows it or a position above it, and no rule masks it or a position above
it. The list's order does not matter, so an implementation that folds rules into a tree is compared
with this reading rather than with another tree.
-/

namespace AccessRules

variable {σ μ : Type*}

/-- A path, and the mask put there, if any. -/
abbrev Rule (σ μ : Type*) := List σ × Option μ

/-- Some rule masks the path or a position above it. -/
def Masks (rules : List (Rule σ μ)) (path : List σ) : Prop :=
  ∃ rule ∈ rules, rule.2.isSome ∧ rule.1 <+: path

/-- Some rule shows the path or a position above it. -/
def Opens (rules : List (Rule σ μ)) (path : List σ) : Prop :=
  ∃ rule ∈ rules, rule.2 = none ∧ rule.1 <+: path

/-- The path is shown, and nothing on it is masked. -/
def Shows (rules : List (Rule σ μ)) (path : List σ) : Prop := Opens rules path ∧ ¬ Masks rules path

/-- No path carries two masks. -/
def Consistent (rules : List (Rule σ μ)) : Prop :=
  ∀ path first second, (path, some first) ∈ rules → (path, some second) ∈ rules → first = second

@[simp] theorem not_masks_nil (path : List σ) : ¬ Masks ([] : List (Rule σ μ)) path := by
  rintro ⟨_, member, _⟩
  cases member

@[simp] theorem not_opens_nil (path : List σ) : ¬ Opens ([] : List (Rule σ μ)) path := by
  rintro ⟨_, member, _⟩
  cases member

theorem masks_append {first second : List (Rule σ μ)} {path : List σ} :
    Masks (first ++ second) path ↔ Masks first path ∨ Masks second path := by
  simp only [Masks, List.mem_append, or_and_right, exists_or]

theorem opens_append {first second : List (Rule σ μ)} {path : List σ} :
    Opens (first ++ second) path ↔ Opens first path ∨ Opens second path := by
  simp only [Opens, List.mem_append, or_and_right, exists_or]

theorem masks_cons {rule : Rule σ μ} {rules : List (Rule σ μ)} {path : List σ} :
    Masks (rule :: rules) path ↔ Masks [rule] path ∨ Masks rules path := by
  rw [← List.singleton_append, masks_append]

theorem opens_cons {rule : Rule σ μ} {rules : List (Rule σ μ)} {path : List σ} :
    Opens (rule :: rules) path ↔ Opens [rule] path ∨ Opens rules path := by
  rw [← List.singleton_append, opens_append]

theorem masks_singleton {rule : Rule σ μ} {path : List σ} :
    Masks [rule] path ↔ rule.2.isSome ∧ rule.1 <+: path := by
  simp only [Masks, List.mem_singleton, exists_eq_left]

theorem opens_singleton {rule : Rule σ μ} {path : List σ} :
    Opens [rule] path ↔ rule.2 = none ∧ rule.1 <+: path := by
  simp only [Opens, List.mem_singleton, exists_eq_left]

/-- Rules below one step. -/
def below (step : σ) (rules : List (Rule σ μ)) : List (Rule σ μ) :=
  rules.map fun rule => (step :: rule.1, rule.2)

@[simp] theorem not_masks_below_nil (step : σ) (rules : List (Rule σ μ)) : ¬ Masks (below step rules) [] := by
  rintro ⟨_, member, _, above⟩
  obtain ⟨rule, _, rfl⟩ := List.mem_map.mp member
  simp at above

@[simp] theorem not_opens_below_nil (step : σ) (rules : List (Rule σ μ)) : ¬ Opens (below step rules) [] := by
  rintro ⟨_, member, _, above⟩
  obtain ⟨rule, _, rfl⟩ := List.mem_map.mp member
  simp at above

theorem masks_below_cons {step other : σ} {rules : List (Rule σ μ)} {path : List σ} :
    Masks (below step rules) (other :: path) ↔ step = other ∧ Masks rules path := by
  constructor
  · rintro ⟨_, member, masked, above⟩
    obtain ⟨rule, inside, rfl⟩ := List.mem_map.mp member
    obtain ⟨same, above⟩ := List.cons_prefix_cons.mp above
    exact ⟨same, rule, inside, masked, above⟩
  · rintro ⟨rfl, rule, inside, masked, above⟩
    exact ⟨_, List.mem_map_of_mem inside, masked, List.cons_prefix_cons.mpr ⟨rfl, above⟩⟩

theorem opens_below_cons {step other : σ} {rules : List (Rule σ μ)} {path : List σ} :
    Opens (below step rules) (other :: path) ↔ step = other ∧ Opens rules path := by
  constructor
  · rintro ⟨_, member, shown, above⟩
    obtain ⟨rule, inside, rfl⟩ := List.mem_map.mp member
    obtain ⟨same, above⟩ := List.cons_prefix_cons.mp above
    exact ⟨same, rule, inside, shown, above⟩
  · rintro ⟨rfl, rule, inside, shown, above⟩
    exact ⟨_, List.mem_map_of_mem inside, shown, List.cons_prefix_cons.mpr ⟨rfl, above⟩⟩

end AccessRules
