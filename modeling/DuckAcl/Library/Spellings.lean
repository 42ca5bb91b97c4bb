import Mathlib.Data.List.Infix
import Mathlib.Data.Set.Function
import Mathlib.Tactic

/-! # One spelling for each path

Names are paths whose parts compare up to a folding. A set of names spells in one way when no two paths that it knows
differ and fold alike. A new path is respelled: as far as the names know it, it is spelled as they do, and as written
from there. A respelled path can be added to the names.
-/

namespace DuckAcl

namespace Spellings

variable {α β : Type*}

/-- A name starts with the path. -/
def Known (names : Set (List α)) (path : List α) : Prop := ∃ name ∈ names, path <+: name

/-- No two known paths differ by spelling alone. -/
def OneSpelling (fold : α → β) (names : Set (List α)) : Prop := Set.InjOn (List.map fold) {path | Known names path}

/-- The path, spelled as the names spell it as deep as they know it. -/
structure Respelled (fold : α → β) (names : Set (List α)) (path path' : List α) : Prop where
  same : path'.map fold = path.map fold
  spelled : ∃ depth ≤ path.length, (depth = 0 ∨ Known names (path'.take depth)) ∧ path'.drop depth = path.drop depth ∧
    ∀ other, Known names other → other.map fold <+: path.map fold → other.length ≤ depth

variable {fold : α → β} {names : Set (List α)} {path path' other : List α}

theorem Known.take (known : Known names path) (depth : ℕ) : Known names (path.take depth) := by
  obtain ⟨name, member, starts⟩ := known
  exact ⟨name, member, (List.take_prefix depth path).trans starts⟩

theorem known_insert : Known (insert path' names) path ↔ path <+: path' ∨ Known names path := by
  constructor
  · rintro ⟨name, rfl | member, starts⟩
    · exact .inl starts
    · exact .inr ⟨name, member, starts⟩
  · rintro (starts | ⟨name, member, starts⟩)
    · exact ⟨path', .inl rfl, starts⟩
    · exact ⟨name, .inr member, starts⟩

theorem oneSpelling_mono {fewer : Set (List α)} (within : fewer ⊆ names) (one : OneSpelling fold names) : OneSpelling fold fewer :=
  Set.InjOn.mono (fun _ known => known.imp fun _ found => ⟨within found.1, found.2⟩) one

namespace Respelled

theorem length_eq (respelled : Respelled fold names path path') : path'.length = path.length := by
  have same := congrArg List.length respelled.same
  rwa [List.length_map, List.length_map] at same

/-- The spelling of a path is determined. -/
theorem unique (one : OneSpelling fold names) (first : Respelled fold names path path') (second : Respelled fold names path other) :
    path' = other := by
  obtain ⟨depth, inside, known, rest, most⟩ := first.spelled
  obtain ⟨depth', inside', known', rest', most'⟩ := second.spelled
  have below {path' : List α} (respelled : Respelled fold names path path') {depth depth' : ℕ} (inside : depth ≤ path.length)
      (known : depth = 0 ∨ Known names (path'.take depth))
      (most' : ∀ other, Known names other → other.map fold <+: path.map fold → other.length ≤ depth') : depth ≤ depth' := by
    rcases known with rfl | known
    · exact Nat.zero_le _
    · have short := most' _ known (by
        rw [← respelled.same]
        exact (List.take_prefix _ _).map fold)
      rwa [List.length_take, respelled.length_eq, Nat.min_eq_left inside] at short
  obtain rfl : depth = depth' := Nat.le_antisymm (below first inside known most') (below second inside' known' most)
  have start : path'.take depth = other.take depth := by
    rcases known with rfl | known
    · rfl
    · rcases known' with rfl | known'
      · rfl
      · exact one known known' (by rw [List.map_take, List.map_take, first.same, second.same])
  rw [← List.take_append_drop depth path', ← List.take_append_drop depth other, start, rest, rest']

/-- A respelled path is spelled already. -/
theorem again (respelled : Respelled fold names path path') : Respelled fold names path' path' where
  same := rfl
  spelled := by
    obtain ⟨depth, inside, known, -, most⟩ := respelled.spelled
    exact ⟨depth, by rwa [respelled.length_eq], known, rfl, by rwa [respelled.same]⟩

/-- A known path is spelled as the names spell it. -/
theorem eq_known (one : OneSpelling fold names) (respelled : Respelled fold names path path') (known : Known names other)
    (same : other.map fold = path.map fold) : path' = other := by
  have long : other.length = path.length := by
    have long := congrArg List.length same
    rwa [List.length_map, List.length_map] at long
  refine unique one respelled ⟨same, path.length, le_rfl, .inr ?_, ?_, fun deeper _ starts => ?_⟩
  · rw [← long, List.take_length]
    exact known
  · rw [List.drop_length, ← long, List.drop_length]
  · have short := starts.length_le
    rwa [List.length_map, List.length_map] at short

/-- A respelled path can be added. -/
theorem insert (one : OneSpelling fold names) (respelled : Respelled fold names path path') :
    OneSpelling fold (insert path' names) := by
  obtain ⟨depth, inside, known, -, most⟩ := respelled.spelled
  -- a known path that folds like a start of the new one is that start
  have start {first second : List α} (known' : Known names first) (starts : second <+: path')
      (same : first.map fold = second.map fold) : first = second := by
    have long : first.length = second.length := by
      have long := congrArg List.length same
      rwa [List.length_map, List.length_map] at long
    have short : first.length ≤ depth := most _ known' (by
      rw [same, ← respelled.same]
      exact starts.map fold)
    have is : second = (path'.take depth).take second.length := by
      rw [List.take_take, Nat.min_eq_left (long ▸ short)]
      exact List.prefix_iff_eq_take.mp starts
    rcases known with rfl | known
    · have none : first.length = 0 := Nat.le_zero.mp short
      have none' : second.length = 0 := long.symm.trans none
      rw [List.length_eq_zero_iff.mp none, List.length_eq_zero_iff.mp none']
    · rw [is] at same ⊢
      exact one known' (known.take _) same
  intro first isFirst second isSecond same
  rcases known_insert.mp isFirst with starts | known'
  · rcases known_insert.mp isSecond with starts' | known''
    · have long := congrArg List.length same
      rw [List.length_map, List.length_map] at long
      rw [List.prefix_iff_eq_take.mp starts, List.prefix_iff_eq_take.mp starts', long]
    · exact (start known'' starts same.symm).symm
  · rcases known_insert.mp isSecond with starts' | known''
    · exact start known' starts' same
    · exact one known' known'' same

end Respelled

end Spellings

end DuckAcl
