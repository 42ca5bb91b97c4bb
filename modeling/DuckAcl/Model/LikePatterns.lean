import Mathlib.Data.List.Basic
import Mathlib.Tactic

/-! # The loop of `LikeMatches`

A condition on a token's claim compares bytes (`acl_identity.cpp`). The loop goes through the value and the pattern
together. Where they part it goes back to the last `%` it met, and lets that one pass a byte more.
-/

namespace DuckAcl

namespace LikePatterns

def percent : UInt8 := 37

def underscore : UInt8 := 95

variable {value pattern : List UInt8}

/-- The variables of the loop: `star_p` and `star_v` together, and none of them before the first `%`. -/
structure LikeState (value pattern : List UInt8) where
  v : ℕ
  p : ℕ
  star : Option (ℕ × ℕ)
  behind : ∀ at' ∈ star, at'.1 < p ∧ at'.1 < pattern.length ∧ at'.2 ≤ v

namespace LikeState

def start (value pattern : List UInt8) : LikeState value pattern := ⟨0, 0, none, fun _ none => by cases none⟩

/-- A `%` is noted. -/
def noteStar (state : LikeState value pattern) (inside : state.p < pattern.length) : LikeState value pattern where
  v := state.v
  p := state.p + 1
  star := some (state.p, state.v)
  behind at' is := by
    cases is
    exact ⟨Nat.lt_succ_self _, inside, le_rfl⟩

/-- A byte is matched. -/
def advance (state : LikeState value pattern) : LikeState value pattern where
  v := state.v + 1
  p := state.p + 1
  star := state.star
  behind at' is :=
    have held := state.behind at' is
    ⟨Nat.lt_succ_of_lt held.1, held.2.1, Nat.le_succ_of_le held.2.2⟩

/-- Back to the last `%`, which passes a byte more. -/
def goBack (state : LikeState value pattern) {star_p star_v : ℕ} (noted : state.star = some (star_p, star_v)) :
    LikeState value pattern where
  v := star_v + 1
  p := star_p + 1
  star := some (star_p, star_v + 1)
  behind at' is := by
    cases is
    exact ⟨Nat.lt_succ_self _, (state.behind _ noted).2.1, le_rfl⟩

/-- How far behind the last `%` is, and the position that its stretch ends at. -/
def starAt (state : LikeState value pattern) : ℕ × ℕ :=
  match state.star with
  | none => (0, 0)
  | some (star_p, star_v) => (star_p + 1, star_v)

theorem starAt_le (state : LikeState value pattern) : state.starAt.1 ≤ state.p := by
  rw [starAt]
  split
  · exact Nat.zero_le _
  · next noted => exact (state.behind _ noted).1

theorem starAt_eq (state : LikeState value pattern) {star_p star_v : ℕ} (noted : state.star = some (star_p, star_v)) :
    state.starAt = (star_p + 1, star_v) := by
  rw [starAt, noted]

end LikeState

/-- The loops of `LikeMatches`. -/
def likeLoop (state : LikeState value pattern) : Bool :=
  if state.v < value.length then
    if met : pattern[state.p]? = some percent then
      likeLoop (state.noteStar (List.getElem?_eq_some_iff.mp met).1)
    else if pattern[state.p]? = some underscore ∨ pattern[state.p]? = value[state.v]? then
      likeLoop state.advance
    else
      match noted : state.star with
      | some (_, _) => likeLoop (state.goBack noted)
      | none => false
  else
    -- only `%` may be left of the pattern
    (pattern.drop state.p).all (· = percent)
termination_by (pattern.length - state.starAt.1, value.length - state.starAt.2, value.length - state.v)
decreasing_by
  · have short := (List.getElem?_eq_some_iff.mp met).1
    have behind := state.starAt_le
    refine Prod.Lex.left _ _ ?_
    rw [(state.noteStar short).starAt_eq rfl]
    omega
  · refine Prod.Lex.right _ (Prod.Lex.right _ ?_)
    exact Nat.sub_lt_sub_left ‹state.v < value.length› (Nat.lt_succ_self _)
  · have reached := (state.behind _ noted).2.2
    rw [(state.goBack noted).starAt_eq rfl, state.starAt_eq noted]
    refine Prod.Lex.right _ (Prod.Lex.left _ _ ?_)
    omega

/-- `LikeMatches`. -/
def likeMatches (value pattern : List UInt8) : Bool := likeLoop (.start value pattern)

end LikePatterns

end DuckAcl
