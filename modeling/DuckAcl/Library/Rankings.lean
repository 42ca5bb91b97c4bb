import Mathlib.Data.List.Sort
import Mathlib.Logic.Function.Basic

/-! # First matches of ranked rows

Rows that come back ordered by a rank alone come in any order within one rank. What the first row with
a verdict says is the same in every such order exactly when the rows of the highest rank that have a
verdict say the same.
-/

namespace DuckAcl.Rankings

variable {α β : Type*} (rank : α → ℕ) (verdict : α → Option β)

/-- An order the rows may come back in: the highest rank first. -/
structure Ranking (items order : List α) : Prop where
  perm : order.Perm items
  sorted : order.Pairwise fun row other => rank other ≤ rank row

/-- A row with a verdict that no row with one outranks. -/
structure Foremost (items : List α) (row : α) : Prop where
  member : row ∈ items
  decides : verdict row ≠ none
  highest : ∀ other ∈ items, verdict other ≠ none → rank other ≤ rank row

variable {rank verdict} {items order : List α}

/-- The first verdict is a foremost row's. -/
theorem Ranking.first_foremost (ranking : Ranking rank items order) {value : β}
    (found : order.findSome? verdict = some value) :
    ∃ row, Foremost rank verdict items row ∧ verdict row = some value := by
  obtain ⟨before, row, after, rfl, told, silent⟩ := List.findSome?_eq_some_iff.mp found
  refine ⟨row, ⟨ranking.perm.mem_iff.mp (by simp), by simp [told], fun other member decided => ?_⟩, told⟩
  have sorted := (List.pairwise_append.mp ranking.sorted).2.1
  rcases List.mem_append.mp (ranking.perm.mem_iff.mpr member) with early | late
  · exact absurd (silent other early) decided
  · rcases List.mem_cons.mp late with rfl | later
    · exact le_rfl
    · exact List.rel_of_pairwise_cons sorted later

theorem Ranking.none_iff (ranking : Ranking rank items order) :
    order.findSome? verdict = none ↔ ∀ row ∈ items, verdict row = none := by
  rw [List.findSome?_eq_none_iff]
  exact forall_congr' fun row => imp_congr_left ranking.perm.mem_iff

/-- A row inserted into ranked rows comes before every row it outranks or ties with. -/
private theorem findSome?_orderedInsert {row : α} {rows : List α} (decides : verdict row ≠ none)
    (highest : ∀ other ∈ rows, verdict other ≠ none → rank other ≤ rank row) :
    (rows.orderedInsert (fun row other => rank other ≤ rank row) row).findSome? verdict = verdict row := by
  induction rows with
  | nil => cases told : verdict row <;> simp [told]
  | cons head rest ih =>
    by_cases ahead : rank head ≤ rank row
    · rw [List.orderedInsert_cons, if_pos ahead, List.findSome?_cons]
      cases told : verdict row with
      | none => exact absurd told decides
      | some value => rfl
    · rw [List.orderedInsert_cons, if_neg ahead, List.findSome?_cons]
      cases told : verdict head with
      | none => exact ih fun other member => highest other (List.mem_cons_of_mem _ member)
      | some value => exact absurd (highest head List.mem_cons_self (by simp [told])) ahead

/-- Some order puts a foremost row before the others with a verdict. -/
theorem Foremost.exists_order {row : α} (foremost : Foremost rank verdict items row) :
    ∃ order, Ranking rank items order ∧ order.findSome? verdict = verdict row := by
  obtain ⟨before, after, rfl⟩ := List.append_of_mem foremost.member
  let higher : α → α → Prop := fun row other => rank other ≤ rank row
  have total : Std.Total higher := ⟨fun row other => le_total (rank other) (rank row)⟩
  have transitive : IsTrans α higher := ⟨fun _ _ _ one other => le_trans other one⟩
  refine ⟨(row :: (before ++ after)).insertionSort higher, ⟨?_, List.pairwise_insertionSort higher _⟩, ?_⟩
  · exact (List.perm_insertionSort higher _).trans List.perm_middle.symm
  · rw [List.insertionSort_cons]
    refine findSome?_orderedInsert foremost.decides fun other member => foremost.highest other ?_
    rw [List.mem_insertionSort] at member
    rcases List.mem_append.mp member with early | late
    · exact List.mem_append_left _ early
    · exact List.mem_append_right _ (List.mem_cons_of_mem _ late)

/-- The first verdict does not depend on the order exactly when the foremost rows agree. -/
theorem first_agrees_iff :
    (∀ order order', Ranking rank items order → Ranking rank items order' →
        order.findSome? verdict = order'.findSome? verdict) ↔
      ∀ row other, Foremost rank verdict items row → Foremost rank verdict items other → verdict row = verdict other := by
  constructor
  · intro same row other foremost foremost'
    obtain ⟨order, ranking, first⟩ := foremost.exists_order
    obtain ⟨order', ranking', first'⟩ := foremost'.exists_order
    rw [← first, ← first']
    exact same order order' ranking ranking'
  · intro agree order order' ranking ranking'
    cases found : order.findSome? verdict with
    | none => exact (ranking'.none_iff.mpr (ranking.none_iff.mp found)).symm
    | some value =>
      cases found' : order'.findSome? verdict with
      | none => rw [ranking.none_iff.mpr (ranking'.none_iff.mp found')] at found; cases found
      | some value' =>
        obtain ⟨row, foremost, told⟩ := ranking.first_foremost found
        obtain ⟨other, foremost', told'⟩ := ranking'.first_foremost found'
        rw [← told, ← told', agree row other foremost foremost']

end DuckAcl.Rankings
