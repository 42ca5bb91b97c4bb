import DuckAcl.Library.Wildcards
import DuckAcl.Model.LikePatterns

/-! # One `%` to go back to

The loop of `LikeMatches` remembers the last `%` alone. Between that `%` and where the loop is, the pattern has matched the
value byte by byte, so a later end of an earlier `%` would leave this one a later start, and it can start later by itself.
-/

namespace DuckAcl

namespace LikePatterns

/-- `%` and `_`. -/
def wildcards : Wildcards UInt8 := ⟨percent, underscore⟩

variable {value pattern : List UInt8}

/-- What the loop has left to find: a match from where it is, or from a later end of the last `%`. -/
structure Searches (state : LikeState value pattern) : Prop where
  inside : state.v ≤ value.length
  short : state.p ≤ pattern.length
  /-- The bytes since the last `%` are matched one by one. -/
  even : ∀ noted ∈ state.star, state.p - (noted.1 + 1) = state.v - noted.2
  plain : ∀ noted ∈ state.star, percent ∉ (pattern.take state.p).drop (noted.1 + 1)
  left : wildcards.Matches pattern value ↔
    wildcards.Matches (pattern.drop state.p) (value.drop state.v) ∨
      ∃ noted ∈ state.star, ∃ passed, noted.2 < passed ∧ passed ≤ value.length ∧
        wildcards.Matches (pattern.drop (noted.1 + 1)) (value.drop passed)

private theorem drop_of_getElem? {α : Type} {list : List α} {at' : ℕ} {item : α} (here : list[at']? = some item) :
    list.drop at' = item :: list.drop (at' + 1) := by
  obtain ⟨inside, rfl⟩ := List.getElem?_eq_some_iff.mp here
  exact List.drop_eq_getElem_cons inside

namespace Searches

variable {state : LikeState value pattern}

theorem start : Searches (.start value pattern) where
  inside := Nat.zero_le _
  short := Nat.zero_le _
  even _ none := by cases none
  plain _ none := by cases none
  left := by simp [LikeState.start]

/-- From a later end of the last `%`, what is left of the pattern starts later too. -/
theorem later (searches : Searches state) {noted : ℕ × ℕ} (last : noted ∈ state.star) {passed : ℕ} (after : noted.2 < passed)
    (found : wildcards.Matches (pattern.drop (noted.1 + 1)) (value.drop passed)) :
    ∃ reached, state.v < reached ∧ (passed ≤ value.length → reached ≤ value.length) ∧
      wildcards.Matches (pattern.drop state.p) (value.drop reached) := by
  obtain ⟨behind, -, reached⟩ := state.behind noted last
  have short := searches.short
  have even := searches.even noted last
  have split : pattern.drop (noted.1 + 1) = (pattern.take state.p).drop (noted.1 + 1) ++ pattern.drop state.p := by
    rw [← List.drop_append_of_le_length (by rw [List.length_take]; omega), List.take_append_drop]
  have long : ((pattern.take state.p).drop (noted.1 + 1)).length = state.v - noted.2 := by
    rw [List.length_drop, List.length_take]
    omega
  rw [split] at found
  obtain ⟨bound, rest⟩ := Wildcards.matches_plain_append (searches.plain noted last) found
  rw [long, List.length_drop] at bound
  rw [long, List.drop_drop] at rest
  exact ⟨passed + (state.v - noted.2), by omega, by omega, rest⟩

/-- A `%` takes the place of the last one. -/
theorem noteStar (searches : Searches state) (met : pattern[state.p]? = some percent) :
    Searches (state.noteStar (List.getElem?_eq_some_iff.mp met).1) := by
  have short := (List.getElem?_eq_some_iff.mp met).1
  have inside := searches.inside
  refine ⟨inside, short, fun noted is => ?_, fun noted is => ?_, ?_⟩
  · cases is
    simp [LikeState.noteStar]
  · cases is
    simp [LikeState.noteStar]
  rw [searches.left, drop_of_getElem? met]
  constructor
  · intro found
    have whole : wildcards.Matches (percent :: pattern.drop (state.p + 1)) (value.drop state.v) := by
      rcases found with here | ⟨noted, last, passed, after, bound, found⟩
      · exact here
      · -- an earlier `%` adds nothing
        obtain ⟨reached, further, within, rest⟩ := searches.later last after found
        rw [drop_of_getElem? met] at rest
        exact Wildcards.matches_stretch_drop further.le (within bound) rest
    obtain ⟨passed, within, rest⟩ := Wildcards.matches_stretch.mp whole
    rw [List.length_drop] at within
    rw [List.drop_drop] at rest
    cases passed with
    | zero => exact .inl rest
    | succ passed => exact .inr ⟨(state.p, state.v), rfl, state.v + (passed + 1), by omega, by omega, rest⟩
  · rintro (here | ⟨noted, is, passed, after, bound, rest⟩)
    · exact .inl (Wildcards.matches_stretch.mpr ⟨0, Nat.zero_le _, here⟩)
    · cases is
      refine .inl (Wildcards.matches_stretch.mpr ⟨passed - state.v, by rw [List.length_drop]; omega, ?_⟩)
      rw [List.drop_drop, Nat.add_sub_cancel' (Nat.le_of_lt after)]
      exact rest

/-- A letter and a byte that match are passed. -/
theorem advance (searches : Searches state) (inside : state.v < value.length) (unmet : pattern[state.p]? ≠ some percent)
    (same : pattern[state.p]? = some underscore ∨ pattern[state.p]? = value[state.v]?) : Searches state.advance := by
  have read : value[state.v]? = some value[state.v] := List.getElem?_eq_getElem inside
  obtain ⟨letter, met⟩ : ∃ letter, pattern[state.p]? = some letter := by
    rcases same with one | same
    · exact ⟨_, one⟩
    · exact ⟨_, same.trans read⟩
  have plain : letter ≠ percent := fun is => unmet (is ▸ met)
  have short := (List.getElem?_eq_some_iff.mp met).1
  have matched : letter = wildcards.one ∨ letter = value[state.v] := by
    rw [met, read] at same
    exact same.imp Option.some.inj Option.some.inj
  refine ⟨inside, short, fun noted last => ?_, fun noted last => ?_, ?_⟩
  · have even := searches.even noted last
    obtain ⟨behind, -, reached⟩ := state.behind noted last
    simp only [LikeState.advance]
    omega
  · obtain ⟨behind, -, -⟩ := state.behind noted last
    have longer : (pattern.take (state.p + 1)).drop (noted.1 + 1) =
        (pattern.take state.p).drop (noted.1 + 1) ++ [letter] := by
      rw [List.take_add_one, met, List.drop_append_of_le_length (by rw [List.length_take]; omega)]
      rfl
    show percent ∉ (pattern.take (state.p + 1)).drop (noted.1 + 1)
    rw [longer, List.mem_append, List.mem_singleton]
    exact not_or_intro (searches.plain noted last) (Ne.symm plain)
  · rw [searches.left, drop_of_getElem? met, drop_of_getElem? read, Wildcards.matches_letter plain]
    exact or_congr_left (and_iff_right matched)

/-- Where the letter and the byte differ, the search goes on behind the last `%`. -/
theorem goBack (searches : Searches state) (inside : state.v < value.length)
    (none : ¬ wildcards.Matches (pattern.drop state.p) (value.drop state.v)) {star_p star_v : ℕ}
    (noted : state.star = some (star_p, star_v)) : Searches (state.goBack noted) := by
  obtain ⟨behind, short, reached⟩ := state.behind _ noted
  dsimp only at behind short reached
  refine ⟨Nat.lt_of_le_of_lt reached inside, short, fun other is => ?_, fun other is => ?_, ?_⟩
  · cases is
    simp [LikeState.goBack]
  · cases is
    simp [LikeState.goBack]
  rw [searches.left, or_iff_right none, noted]
  constructor
  · rintro ⟨other, is, passed, after, bound, found⟩
    cases is
    rcases Nat.eq_or_lt_of_le (Nat.succ_le_of_lt after) with rfl | further
    · exact .inl found
    · exact .inr ⟨_, rfl, passed, further, bound, found⟩
  · rintro (here | ⟨other, is, passed, after, bound, found⟩)
    · exact ⟨_, rfl, star_v + 1, Nat.lt_succ_self _, Nat.lt_of_le_of_lt reached inside, here⟩
    · cases is
      exact ⟨_, rfl, passed, Nat.lt_of_succ_lt after, bound, found⟩

/-- Where the loop neither notes a `%` nor passes a byte, nothing matches from there. -/
theorem mismatch {state : LikeState value pattern} (inside : state.v < value.length) (unmet : pattern[state.p]? ≠ some percent)
    (differ : ¬ (pattern[state.p]? = some underscore ∨ pattern[state.p]? = value[state.v]?)) :
    ¬ wildcards.Matches (pattern.drop state.p) (value.drop state.v) := by
  have read : value[state.v]? = some value[state.v] := List.getElem?_eq_getElem inside
  rw [drop_of_getElem? read]
  cases met : pattern[state.p]? with
  | none =>
    rw [List.drop_eq_nil_iff.mpr (List.getElem?_eq_none_iff.mp met), Wildcards.matches_nil]
    exact List.cons_ne_nil _ _
  | some letter =>
    have plain : letter ≠ percent := fun is => unmet (is ▸ met)
    rw [drop_of_getElem? met, Wildcards.matches_letter plain]
    rintro ⟨same, -⟩
    rw [met, read] at differ
    exact differ (same.imp (congrArg some) (congrArg some))

end Searches

theorem likeLoop_iff {state : LikeState value pattern} (searches : Searches state) :
    likeLoop state = true ↔ wildcards.Matches pattern value := by
  fun_induction likeLoop state with
  | case1 state inside met ih => exact ih (searches.noteStar met)
  | case2 state inside unmet same ih => exact ih (searches.advance inside unmet same)
  | case3 state inside unmet differ star_p star_v noted ih =>
    exact ih (searches.goBack inside (Searches.mismatch inside unmet differ) noted)
  | case4 state inside unmet differ noted =>
    rw [searches.left, or_iff_right (Searches.mismatch inside unmet differ), noted]
    simp
  | case5 state outside =>
    have ended : state.v = value.length := Nat.le_antisymm searches.inside (Nat.le_of_not_lt outside)
    have last : ¬ ∃ noted ∈ state.star, ∃ passed, noted.2 < passed ∧ passed ≤ value.length ∧
        wildcards.Matches (pattern.drop (noted.1 + 1)) (value.drop passed) := by
      rintro ⟨noted, last, passed, after, bound, found⟩
      obtain ⟨reached, further, within, -⟩ := searches.later last after found
      exact absurd (within bound) (Nat.not_le_of_lt (ended ▸ further))
    rw [searches.left, or_iff_left last, ended, List.drop_length, Wildcards.matches_empty]
    simp [wildcards]

/-- `LikeMatches` ends, and finds a match exactly where the value can be split into pieces that the pattern's letters
match. -/
theorem likeMatches_iff (value pattern : List UInt8) :
    likeMatches value pattern = true ↔
      ∃ pieces, pieces.flatten = value ∧ List.Forall₂ (fun letter piece => letter = percent ∨
        ∃ byte, piece = [byte] ∧ (letter = underscore ∨ letter = byte)) pattern pieces :=
  (likeLoop_iff .start).trans (exists_congr fun _ => and_comm)

end LikePatterns

end DuckAcl
