import DuckAcl.Library.Binary64
import DuckAcl.Library.Text

/-! # The time claims of a token

`VerifyJwtSignature` (`acl_token.cpp`) compares the claims `exp` and `nbf` with the clock, with a skew. It
reads the first as a signed integer and the second as a double, and adds in signed 64-bit arithmetic, where
an overflow is undefined behaviour. The readers are those of yyjson.
-/

namespace DuckAcl

/-- A number in a JSON text, as yyjson keeps it: a negative integer, another one, or a real. -/
inductive JsonNumber where
  | sint (value : Int64)
  | uint (value : UInt64)
  | real (value : ℚ) (finite : Binary64.IsFinite value)

namespace JsonNumber

/-- The number itself. -/
def value : JsonNumber → ℚ
  | sint value => value.toInt
  | uint value => value.toNat
  | real value _ => value

/-- `yyjson_get_sint`: the bits of an integer read as signed, and 0 for a real. -/
def getSint : JsonNumber → ℤ
  | sint value => value.toInt
  | uint value => value.toInt64.toInt
  | real _ _ => 0

/-- `yyjson_get_num`: the number as a double. -/
def getNum : JsonNumber → ℚ
  | sint value => Binary64.ofInt value.toInt
  | uint value => Binary64.ofInt value.toNat
  | real value _ => value

end JsonNumber

/-- A signed 64-bit value. -/
def fitsInt64 (n : ℤ) : Bool := decide (-9223372036854775808 ≤ n ∧ n < 9223372036854775808)

/-- A result of signed arithmetic or of a conversion: undefined where it does not fit. -/
def toInt64? (n : ℤ) : Option ℤ := if fitsInt64 n then some n else none

/-- What the checks come to. -/
inductive TimeVerdict where
  | accepted (expiresAt : ℤ)
  | rejected (reason : Text)
deriving DecidableEq, Repr

def TimeVerdict.isAccepted : TimeVerdict → Bool
  | accepted _ => true
  | rejected _ => false

/-- `expires_at + clock_skew_seconds < now`. -/
def expiredAt (now skew : Int64) (exp : JsonNumber) : Option Bool :=
  (toInt64? (exp.getSint + skew.toInt)).map fun last => decide (last < now.toInt)

/-- `static_cast<int64_t>(yyjson_get_num(nbf)) - clock_skew_seconds > now`. -/
def earlyAt (now skew : Int64) (nbf : JsonNumber) : Option Bool :=
  (toInt64? (Binary64.truncate nbf.getNum)).bind fun seconds =>
    (toInt64? (seconds - skew.toInt)).map fun first => decide (now.toInt < first)

/-- The check of `nbf`. -/
def checkNbf (now skew : Int64) (expiresAt : ℤ) : Option JsonNumber → Option TimeVerdict
  | none => some (.accepted expiresAt)
  | some nbf => (earlyAt now skew nbf).map fun early =>
      if early then .rejected "token not yet valid".toList else .accepted expiresAt

/-- The time checks of `VerifyJwtSignature`; a claim that is no number is absent. -/
def verifyTimes (now skew : Int64) (ignoreExp : Bool) (exp nbf : Option JsonNumber) : Option TimeVerdict :=
  match exp with
  | none => some (.rejected "missing exp claim".toList)
  | some exp =>
    (if ignoreExp then some false else expiredAt now skew exp).bind fun expired =>
      if expired then some (.rejected "token expired".toList) else checkNbf now skew exp.getSint nbf

end DuckAcl
