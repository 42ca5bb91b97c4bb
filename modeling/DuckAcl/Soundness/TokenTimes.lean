import DuckAcl.Model.TokenTimes
import Mathlib.Tactic.Qify

/-! # The window of a token

The checks judge a token by what they read of its claims. They are exact where the sums fit and the
readings stand on the same side of the clock as the numbers do; an `exp` that is a real is read as 0, one
from 2^63 on as a negative number, and an `nbf` loses its fraction.
-/

namespace DuckAcl

/-- The window of a token, in exact numbers. -/
def InWindow (now skew : Int64) (exp : JsonNumber) (nbf : Option JsonNumber) : Prop :=
  (now.toInt : ℚ) ≤ exp.value + skew.toInt ∧ ∀ start ∈ nbf, start.value ≤ now.toInt + skew.toInt

/-- The checks come to a verdict, and accept exactly the tokens in their window. -/
def JudgesExactly (now skew : Int64) (exp : JsonNumber) (nbf : Option JsonNumber) : Prop :=
  ∃ verdict, verifyTimes now skew false (some exp) nbf = some verdict ∧
    (verdict.isAccepted = true ↔ InWindow now skew exp nbf)

/-- Nothing of an `nbf` is lost that matters: it and its difference fit, a fraction does not reach above the
bound, and rounding to a double does not carry an integer over it. -/
structure StartRight (now skew : Int64) (start : JsonNumber) : Prop where
  fits : fitsInt64 (Binary64.truncate start.getNum) = true
  difference : fitsInt64 (Binary64.truncate start.getNum - skew.toInt) = true
  fraction : ∀ value finite, start = .real value finite →
    ¬ (0 < value ∧ ⌊value⌋ = now.toInt + skew.toInt ∧ value ≠ (now.toInt + skew.toInt : ℤ))
  negative : ∀ value, start = .sint value →
    (Binary64.ofInt value.toInt ≤ now.toInt + skew.toInt ↔ value.toInt ≤ now.toInt + skew.toInt)
  integer : ∀ value, start = .uint value →
    (Binary64.ofInt value.toNat ≤ now.toInt + skew.toInt ↔ (value.toNat : ℤ) ≤ now.toInt + skew.toInt)

/-- When the readings decide as the numbers do. In each case the sum of `exp` and the skew fits. -/
inductive ReadsRight (now skew : Int64) (exp : JsonNumber) (nbf : Option JsonNumber) : Prop where
  /-- `exp` reads as passed, and the token is out of its window. -/
  | passed (sum : exp.getSint + skew.toInt < 9223372036854775808) (read : exp.getSint + skew.toInt < now.toInt)
      (out : exp.value + skew.toInt < now.toInt ∨ ∃ start ∈ nbf, (now.toInt + skew.toInt : ℚ) < start.value)
  /-- `exp` reads as not passed, has not, and `nbf` reads right. -/
  | inForce (sum : exp.getSint + skew.toInt < 9223372036854775808) (read : now.toInt ≤ exp.getSint + skew.toInt)
      (exact_exp : (now.toInt : ℚ) ≤ exp.value + skew.toInt) (start : ∀ start ∈ nbf, StartRight now skew start)
  /-- `exp` reads as not passed though it has, and `nbf` reads as ahead. -/
  | ahead (sum : exp.getSint + skew.toInt < 9223372036854775808) (read : now.toInt ≤ exp.getSint + skew.toInt)
      (exact_exp : exp.value + skew.toInt < now.toInt) (start : JsonNumber) (given : nbf = some start)
      (fits : fitsInt64 (Binary64.truncate start.getNum) = true)
      (difference : fitsInt64 (Binary64.truncate start.getNum - skew.toInt) = true)
      (early : now.toInt + skew.toInt < Binary64.truncate start.getNum)

namespace JsonNumber

theorem getSint_range (number : JsonNumber) :
    -9223372036854775808 ≤ number.getSint ∧ number.getSint < 9223372036854775808 := by
  cases number with
  | sint value => exact ⟨value.le_toInt, value.toInt_lt⟩
  | uint value => exact ⟨Int64.le_toInt _, Int64.toInt_lt _⟩
  | real value finite => exact ⟨by simp [getSint], by simp [getSint]⟩

end JsonNumber

variable {now skew : Int64} {exp : JsonNumber} {nbf : Option JsonNumber}

/-- The reading of an `nbf` is on the same side of the bound as it is. -/
private theorem reading_iff (start : JsonNumber) (bound : ℤ) :
    (Binary64.truncate start.getNum ≤ bound ↔ start.value ≤ bound) ↔
      (∀ value finite, start = .real value finite → ¬ (0 < value ∧ ⌊value⌋ = bound ∧ value ≠ bound)) ∧
      (∀ value, start = .sint value → (Binary64.ofInt value.toInt ≤ bound ↔ value.toInt ≤ bound)) ∧
      ∀ value, start = .uint value → (Binary64.ofInt value.toNat ≤ bound ↔ (value.toNat : ℤ) ≤ bound) := by
  cases start with
  | sint value =>
    have exact_value : (JsonNumber.sint value).value ≤ bound ↔ value.toInt ≤ bound := by
      simp [JsonNumber.value]
    rw [exact_value]
    simp [JsonNumber.getNum, Binary64.truncate_intCast]
  | uint value =>
    have exact_value : (JsonNumber.uint value).value ≤ bound ↔ (value.toNat : ℤ) ≤ bound := by
      rw [JsonNumber.value, ← Int.cast_natCast, Int.cast_le]
    rw [exact_value]
    simp [JsonNumber.getNum, Binary64.truncate_intCast]
  | real value finite =>
    have same := Binary64.truncate_le_iff value bound
    rw [JsonNumber.getNum, JsonNumber.value, same]
    constructor
    · refine fun never => ⟨fun other _ real => ?_, fun _ absurd => (by cases absurd), fun _ absurd => (by cases absurd)⟩
      cases real
      exact never
    · exact fun all => all.1 value finite rfl

private theorem expiredAt_eq (positive : 0 ≤ skew.toInt) :
    expiredAt now skew exp = if exp.getSint + skew.toInt < 9223372036854775808 then
      some (decide (exp.getSint + skew.toInt < now.toInt)) else none := by
  have range := exp.getSint_range
  have fits : fitsInt64 (exp.getSint + skew.toInt) = decide (exp.getSint + skew.toInt < 9223372036854775808) := by
    unfold fitsInt64
    rw [decide_eq_decide]
    omega
  rw [expiredAt, toInt64?, fits]
  split_ifs <;> simp_all

private theorem earlyAt_eq (start : JsonNumber) :
    earlyAt now skew start = if fitsInt64 (Binary64.truncate start.getNum) = true ∧
        fitsInt64 (Binary64.truncate start.getNum - skew.toInt) = true then
      some (decide (now.toInt + skew.toInt < Binary64.truncate start.getNum)) else none := by
  rw [earlyAt, toInt64?]
  by_cases fits : fitsInt64 (Binary64.truncate start.getNum) = true
  · rw [if_pos fits, Option.bind_some, toInt64?]
    by_cases difference : fitsInt64 (Binary64.truncate start.getNum - skew.toInt) = true
    · rw [if_pos difference, if_pos ⟨fits, difference⟩, Option.map_some, Option.some.injEq, decide_eq_decide]
      omega
    · rw [if_neg difference, if_neg fun both => difference both.2]
      rfl
  · rw [if_neg fits, if_neg fun both => fits both.1]
    rfl

private theorem startRight_iff (start : JsonNumber) :
    StartRight now skew start ↔
      (fitsInt64 (Binary64.truncate start.getNum) = true ∧ fitsInt64 (Binary64.truncate start.getNum - skew.toInt) = true) ∧
        (Binary64.truncate start.getNum ≤ now.toInt + skew.toInt ↔ start.value ≤ (now.toInt : ℚ) + skew.toInt) := by
  have reading := reading_iff start (now.toInt + skew.toInt)
  rw [Int.cast_add] at reading
  rw [reading]
  constructor
  · intro right
    refine ⟨⟨right.fits, right.difference⟩, fun value finite real => ?_, right.negative, right.integer⟩
    have fraction := right.fraction value finite real
    rw [Int.cast_add] at fraction
    exact fraction
  · rintro ⟨⟨fits, difference⟩, fraction, negative, integer⟩
    refine ⟨fits, difference, fun value finite real => ?_, negative, integer⟩
    rw [Int.cast_add]
    exact fraction value finite real

/-- Out of the window: passed, or ahead. -/
private theorem not_inWindow_iff :
    ¬ InWindow now skew exp nbf ↔
      exp.value + skew.toInt < now.toInt ∨ ∃ start ∈ nbf, (now.toInt : ℚ) + skew.toInt < start.value := by
  rw [InWindow, not_and_or, not_le]
  refine or_congr_right ?_
  push Not
  rfl

private theorem undefined_judges : ¬ ∃ verdict, (none : Option TimeVerdict) = some verdict ∧
    (verdict.isAccepted = true ↔ InWindow now skew exp nbf) := by
  rintro ⟨_, absent, _⟩
  cases absent

private theorem rejects_iff (reason : Text) :
    (∃ verdict, some (TimeVerdict.rejected reason) = some verdict ∧ (verdict.isAccepted = true ↔ InWindow now skew exp nbf)) ↔
      ¬ InWindow now skew exp nbf := by
  simp [TimeVerdict.isAccepted]

private theorem accepts_iff (expiresAt : ℤ) :
    (∃ verdict, some (TimeVerdict.accepted expiresAt) = some verdict ∧
        (verdict.isAccepted = true ↔ InWindow now skew exp nbf)) ↔ InWindow now skew exp nbf := by
  simp [TimeVerdict.isAccepted]

/-- Where `exp` reads as in force and there is an `nbf`, the checks are exact when its reading settles them. -/
private theorem judges_started (start : JsonNumber) (sum : exp.getSint + skew.toInt < 9223372036854775808)
    (read : now.toInt ≤ exp.getSint + skew.toInt) :
    (∃ verdict, checkNbf now skew exp.getSint (some start) = some verdict ∧
      (verdict.isAccepted = true ↔ InWindow now skew exp (some start))) ↔ ReadsRight now skew exp (some start) := by
  have settled (exact_exp : (now.toInt : ℚ) ≤ exp.value + skew.toInt) :
      InWindow now skew exp (some start) ↔ start.value ≤ (now.toInt : ℚ) + skew.toInt := by
    simp [InWindow, exact_exp]
  rw [checkNbf, earlyAt_eq]
  by_cases fits : fitsInt64 (Binary64.truncate start.getNum) = true ∧
      fitsInt64 (Binary64.truncate start.getNum - skew.toInt) = true
  · rw [if_pos fits]
    by_cases early : now.toInt + skew.toInt < Binary64.truncate start.getNum
    · simp only [early, decide_true, Option.map_some, ↓reduceIte]
      rw [rejects_iff]
      constructor
      · intro out
        by_cases exact_exp : (now.toInt : ℚ) ≤ exp.value + skew.toInt
        · refine .inForce sum read exact_exp fun other given => ?_
          obtain rfl : start = other := Option.some.inj given
          rw [settled exact_exp] at out
          exact (startRight_iff start).mpr ⟨fits, iff_of_false (not_le.mpr early) out⟩
        · exact .ahead sum read (not_le.mp exact_exp) start rfl fits.1 fits.2 early
      · intro right
        cases right with
        | passed _ passed _ => exact absurd passed (not_lt.mpr read)
        | inForce _ _ exact_exp right =>
          have same := ((startRight_iff start).mp (right start rfl)).2
          rw [settled exact_exp, ← same]
          exact not_le.mpr early
        | ahead _ _ exact_exp => exact not_inWindow_iff.mpr (.inl exact_exp)
    · simp only [early, decide_false, Option.map_some, Bool.false_eq_true, ↓reduceIte]
      rw [accepts_iff]
      constructor
      · intro inside
        refine .inForce sum read inside.1 fun other given => ?_
        obtain rfl : start = other := Option.some.inj given
        exact (startRight_iff start).mpr ⟨fits, iff_of_true (not_lt.mp early) ((settled inside.1).mp inside)⟩
      · intro right
        cases right with
        | passed _ passed _ => exact absurd passed (not_lt.mpr read)
        | inForce _ _ exact_exp right =>
          have same := ((startRight_iff start).mp (right start rfl)).2
          exact (settled exact_exp).mpr (same.mp (not_lt.mp early))
        | ahead _ _ _ other given _ _ ahead =>
          obtain rfl : start = other := Option.some.inj given
          exact absurd ahead early
  · rw [if_neg fits, Option.map_none]
    refine iff_of_false undefined_judges fun right => ?_
    cases right with
    | passed _ passed _ => exact absurd passed (not_lt.mpr read)
    | inForce _ _ _ right => exact fits ((startRight_iff start).mp (right start rfl)).1
    | ahead _ _ _ other given one two =>
      obtain rfl : start = other := Option.some.inj given
      exact fits ⟨one, two⟩

/-- The time checks of a token are exact, with nothing undefined on the way, exactly when the readings of its
claims decide as its numbers do. -/
theorem judgesExactly_iff {now skew : Int64} (positive : 0 ≤ skew.toInt) (exp : JsonNumber) (nbf : Option JsonNumber) :
    JudgesExactly now skew exp nbf ↔ ReadsRight now skew exp nbf := by
  unfold JudgesExactly verifyTimes
  dsimp only
  rw [if_neg Bool.false_ne_true, expiredAt_eq positive]
  by_cases sum : exp.getSint + skew.toInt < 9223372036854775808
  · rw [if_pos sum]
    by_cases read : exp.getSint + skew.toInt < now.toInt
    · simp only [read, decide_true, Option.bind_some, ↓reduceIte]
      rw [rejects_iff, not_inWindow_iff]
      constructor
      · exact fun out => .passed sum read out
      · intro right
        cases right with
        | passed _ _ out => exact out
        | inForce _ force => exact absurd read (not_lt.mpr force)
        | ahead _ force => exact absurd read (not_lt.mpr force)
    · simp only [read, decide_false, Option.bind_some, Bool.false_eq_true, ↓reduceIte]
      rw [not_lt] at read
      cases nbf with
      | none =>
        rw [checkNbf, accepts_iff]
        constructor
        · exact fun inside => .inForce sum read inside.1 fun start absent => by cases absent
        · intro right
          cases right with
          | passed _ passed _ => exact absurd passed (not_lt.mpr read)
          | inForce _ _ exact_exp _ => exact ⟨exact_exp, fun start absent => by cases absent⟩
          | ahead _ _ _ start given => cases given
      | some start => exact judges_started start sum read
  · rw [if_neg sum, Option.bind_none]
    refine iff_of_false undefined_judges fun right => ?_
    cases right with
    | passed fits => exact sum fits
    | inForce fits => exact sum fits
    | ahead fits => exact sum fits

/-- An hour before its expiry, half a minute after its start. -/
theorem judgesExactly_iff_example : JudgesExactly 1700000000 60 (.uint 1700003600) (some (.uint 1699999970)) := by
  refine (judgesExactly_iff (by decide) _ _).mpr (.inForce (by decide) (by decide) ?_ fun start given => ?_)
  · have clock : (1700000000 : Int64).toInt = 1700000000 ∧ (60 : Int64).toInt = 60 ∧ (1700003600 : UInt64).toNat = 1700003600 := by
      decide
    rw [JsonNumber.value, clock.1, clock.2.1, clock.2.2]
    norm_num
  · obtain rfl := Option.some.inj given
    have whole : Binary64.truncate (JsonNumber.uint 1699999970).getNum = 1699999970 := by
      rw [JsonNumber.getNum, Binary64.truncate_intCast, Binary64.ofInt_of_lt (by decide)]
      rfl
    refine ⟨by rw [whole]; decide, by rw [whole]; decide, fun _ _ other => ?_, fun _ other => ?_, fun value same => ?_⟩
    · cases other
    · cases other
    · cases same
      rw [Binary64.ofInt_of_lt (by decide)]

/-- Half a second past the start of 2027. -/
def halfPast : JsonNumber := .real (3597523201 / 2) ⟨3597523201, -1, by decide, by decide, by decide, by norm_num⟩

/-- An `exp` with a fraction is in the past at any time. -/
theorem real_exp_rejected : ¬ ∀ (now skew : Int64), 0 ≤ skew.toInt → ∀ exp nbf, JudgesExactly now skew exp nbf := by
  intro every
  obtain ⟨verdict, judged, exact_verdict⟩ := every 1700000000 60 (by decide) halfPast none
  have rejected : verdict = .rejected "token expired".toList := by
    refine (Option.some.inj judged).symm.trans ?_
    rfl
  subst rejected
  refine absurd (exact_verdict.mpr ⟨?_, fun _ absent => by cases absent⟩) Bool.false_ne_true
  have clock : (1700000000 : Int64).toInt = 1700000000 ∧ (60 : Int64).toInt = 60 := by decide
  have exact_exp : halfPast.value = 3597523201 / 2 := rfl
  rw [exact_exp, clock.1, clock.2]
  norm_num

end DuckAcl
