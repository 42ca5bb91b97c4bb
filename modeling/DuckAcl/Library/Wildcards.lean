import Mathlib.Data.List.Forall2
import Mathlib.Data.List.Basic
import Mathlib.Tactic

/-! # Patterns with wildcards

One letter of a pattern stands for any stretch of a value, one for any single letter, and every other for itself.
A value matches when it can be split into a piece for each letter of the pattern.
-/

namespace DuckAcl

/-- The two letters that do not stand for themselves. -/
structure Wildcards (α : Type) where
  stretch : α
  one : α

namespace Wildcards

variable {α : Type} (wild : Wildcards α)

/-- What one letter of a pattern matches. -/
def Piece (letter : α) (piece : List α) : Prop :=
  letter = wild.stretch ∨ ∃ read, piece = [read] ∧ (letter = wild.one ∨ letter = read)

/-- The value is made of pieces, one for each letter of the pattern. -/
def Matches (pattern value : List α) : Prop :=
  ∃ pieces, List.Forall₂ wild.Piece pattern pieces ∧ pieces.flatten = value

variable {wild} {letter read : α} {pattern value : List α}

theorem matches_nil : wild.Matches [] value ↔ value = [] := by
  constructor
  · rintro ⟨pieces, each, rfl⟩
    cases each
    rfl
  · rintro rfl
    exact ⟨[], .nil, rfl⟩

theorem matches_cons :
    wild.Matches (letter :: pattern) value ↔
      ∃ piece rest, value = piece ++ rest ∧ wild.Piece letter piece ∧ wild.Matches pattern rest := by
  constructor
  · rintro ⟨pieces, each, rfl⟩
    cases each with
    | cons first others => exact ⟨_, _, rfl, first, _, others, rfl⟩
  · rintro ⟨piece, rest, rfl, first, pieces, others, rfl⟩
    exact ⟨piece :: pieces, .cons first others, rfl⟩

theorem matches_stretch :
    wild.Matches (wild.stretch :: pattern) value ↔ ∃ passed ≤ value.length, wild.Matches pattern (value.drop passed) := by
  rw [matches_cons]
  constructor
  · rintro ⟨piece, rest, rfl, -, later⟩
    refine ⟨piece.length, by simp, ?_⟩
    rwa [List.drop_left]
  · rintro ⟨passed, -, later⟩
    exact ⟨value.take passed, value.drop passed, (List.take_append_drop passed value).symm, .inl rfl, later⟩

theorem matches_letter (plain : letter ≠ wild.stretch) :
    wild.Matches (letter :: pattern) (read :: value) ↔ (letter = wild.one ∨ letter = read) ∧ wild.Matches pattern value := by
  rw [matches_cons]
  constructor
  · rintro ⟨piece, rest, is, stretch | ⟨other, rfl, same⟩, later⟩
    · exact absurd stretch plain
    · obtain ⟨rfl, rfl⟩ := List.cons.inj is
      exact ⟨same, later⟩
  · rintro ⟨same, later⟩
    exact ⟨[read], value, rfl, .inr ⟨read, rfl, same⟩, later⟩

theorem not_matches_empty (plain : letter ≠ wild.stretch) : ¬ wild.Matches (letter :: pattern) [] := by
  rw [matches_cons]
  rintro ⟨piece, rest, is, stretch | ⟨other, rfl, -⟩, -⟩
  · exact plain stretch
  · cases is

theorem matches_empty : wild.Matches pattern [] ↔ ∀ letter ∈ pattern, letter = wild.stretch := by
  induction pattern with
  | nil => simp [matches_nil]
  | cons letter pattern ih =>
    rw [List.forall_mem_cons, ← ih]
    constructor
    · intro whole
      by_cases plain : letter = wild.stretch
      · subst plain
        obtain ⟨passed, -, later⟩ := matches_stretch.mp whole
        rw [List.drop_nil] at later
        exact ⟨rfl, later⟩
      · exact absurd whole (not_matches_empty plain)
    · rintro ⟨rfl, later⟩
      exact matches_stretch.mpr ⟨0, le_rfl, later⟩

/-- What a pattern with a stretch at its start matches, it matches with more before it. -/
theorem matches_stretch_drop {first second : ℕ} (earlier : first ≤ second) (bound : second ≤ value.length)
    (later : wild.Matches (wild.stretch :: pattern) (value.drop second)) :
    wild.Matches (wild.stretch :: pattern) (value.drop first) := by
  obtain ⟨passed, inside, rest⟩ := matches_stretch.mp later
  rw [List.length_drop] at inside
  refine matches_stretch.mpr ⟨second - first + passed, by rw [List.length_drop]; omega, ?_⟩
  rw [List.drop_drop] at rest ⊢
  rwa [show first + (second - first + passed) = second + passed by omega]

/-- Letters without a stretch take one letter of the value each. -/
theorem matches_plain_append {first : List α} (plain : wild.stretch ∉ first) (whole : wild.Matches (first ++ pattern) value) :
    first.length ≤ value.length ∧ wild.Matches pattern (value.drop first.length) := by
  induction first generalizing value with
  | nil => exact ⟨Nat.zero_le _, whole⟩
  | cons letter first ih =>
    rw [List.mem_cons, not_or] at plain
    cases value with
    | nil => exact absurd whole (not_matches_empty (Ne.symm plain.1))
    | cons read value =>
      obtain ⟨-, later⟩ := (matches_letter (Ne.symm plain.1)).mp whole
      obtain ⟨short, rest⟩ := ih plain.2 later
      exact ⟨Nat.succ_le_succ short, rest⟩

end Wildcards

end DuckAcl
