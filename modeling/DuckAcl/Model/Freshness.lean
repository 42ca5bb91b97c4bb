import Mathlib
import DuckAcl.Library.Text

/-! # The freshness check

A node answers from caches of the policy, and `CatalogBackend::EnsureFresh` decides before each
answer whether the policy version has to be asked for again (`acl_policy_catalog.cpp`). It runs in
three parts: a critical section that decides whether the check is due and marks it made, the queries
with `JudgeSchema` on their answer, and a critical section that adopts the version.
-/

namespace DuckAcl

/-- `ACL_SCHEMA_VERSION`. -/
def aclSchemaVersion : Int := 23

/-- The version state of a node. Clock readings and intervals are in ticks of one clock. -/
structure Freshness where
  version : Int := -1
  lastCheck : Int := 0
  checkedOnce : Bool := false
  /-- The catalog is newer than this build, inside the window it declares. -/
  compatReadOnly : Bool := false
deriving DecidableEq, Repr

namespace Freshness

/-- The first critical section returns at once: a check was made within the interval. -/
def skips (state : Freshness) (now interval : Int) : Bool :=
  state.checkedOnce && decide (now - state.lastCheck < interval)

/-- The rest of the first critical section: the check counts as made from here on. -/
def enter (state : Freshness) (now : Int) : Freshness :=
  { state with lastCheck := now, checkedOnce := true }

/-- The second critical section, as far as the version goes. -/
def adopt (state : Freshness) (current : Int) : Freshness :=
  if current ≠ state.version then { state with version := current } else state

/-- What a committed write leaves: the next resolve asks again. -/
def written (state : Freshness) : Freshness :=
  { state with checkedOnce := false }

@[simp] theorem enter_version (state : Freshness) (now : Int) : (state.enter now).version = state.version := rfl

@[simp] theorem written_version (state : Freshness) : state.written.version = state.version := rfl

@[simp] theorem adopt_version (state : Freshness) (current : Int) : (state.adopt current).version = current := by
  unfold adopt
  split
  · rfl
  · next same => exact (not_not.mp same).symm

theorem adopt_checkedOnce (state : Freshness) (current : Int) :
    (state.adopt current).checkedOnce = state.checkedOnce := by
  unfold adopt
  split <;> rfl

theorem adopt_lastCheck (state : Freshness) (current : Int) : (state.adopt current).lastCheck = state.lastCheck := by
  unfold adopt
  split <;> rfl

end Freshness

/-- `std::stoll`: leading spaces, a sign and the digits that follow; what stands after them is left.
No digit, or a value outside 64 bits, throws. -/
def stoll (text : Text) : Option Int :=
  let body := text.dropWhile Text.isSpace
  let (negative, rest) : Bool × Text := match body with
    | '-' :: rest => (true, rest)
    | '+' :: rest => (false, rest)
    | rest => (false, rest)
  let digits := rest.takeWhile Char.isDigit
  let magnitude : Int := digits.foldl (fun value digit => value * 10 + (digit.toNat - '0'.toNat : ℕ)) 0
  let value := if negative then -magnitude else magnitude
  if digits.isEmpty then none
  else if value < -2 ^ 63 ∨ 2 ^ 63 ≤ value then none
  else some value

/-- Why a freshness check fails. -/
inductive CheckFailure where
  /-- A query of the check did not answer, or its answer cannot be read. -/
  | source
  /-- The version source returned another number of rows than one. -/
  | versionRows (count : ℕ)
  /-- The catalog has no `schema_version`. -/
  | noSchemaVersion
  /-- The catalog is older than this build: migrate it first. -/
  | migrateFirst (stamped : Int)
  /-- The catalog is readable from a later build on. -/
  | upgradeNode (stamped minReader : Int)
deriving DecidableEq, Repr

/-- `JudgeSchema`: whether the catalog may be served, and if so whether only read. -/
def judgeSchema (stamped minReader : Int) : Except CheckFailure Bool :=
  if stamped < 0 then .error .noSchemaVersion
  else
    -- a catalog that declares no window is readable by exactly its own build
    let minReader := if minReader < 0 then stamped else minReader
    if stamped = aclSchemaVersion then .ok false
    else if stamped < aclSchemaVersion then .error (.migrateFirst stamped)
    else if minReader ≤ aclSchemaVersion then .ok true
    else .error (.upgradeNode stamped minReader)

/-- What the policy source answers to one check. A row that cannot be read is `none`. -/
structure SourceAnswer where
  /-- The rows of the version query, each as its value reads; `none` for a query that fails. -/
  versions : Option (List (Option Int))
  /-- The `schema_version` and `min_reader_version` rows of the catalog, table mode only. -/
  stamps : Option (List (Text × Text)) := some []
deriving DecidableEq, Repr

/-- The loop over the stamp rows: `schema_version` sets one value, every other key the other. -/
def readStamps : List (Text × Text) → Int × Int → Option (Int × Int)
  | [], read => some read
  | (key, value) :: rest, (stamped, minReader) =>
    match stoll value with
    | none => none
    | some value =>
      readStamps rest (if key = "schema_version".toList then (value, minReader) else (stamped, value))

/-- The version query: one row, and that row's value. -/
def readVersion (answer : SourceAnswer) : Except CheckFailure Int :=
  match answer.versions with
  | none => .error .source
  | some [some current] => .ok current
  | some [none] => .error .source
  | some rows => .error (.versionRows rows.length)

/-- The `try` block of a check: the version, and what `JudgeSchema` makes of `compat_read_only`. -/
def askSource (functionMode : Bool) (state : Freshness) (answer : SourceAnswer) : Except CheckFailure (Int × Bool) :=
  match readVersion answer with
  | .error failure => .error failure
  | .ok current =>
    if functionMode then .ok (current, state.compatReadOnly)
    else
      match answer.stamps with
      | none => .error .source
      | some rows =>
        match readStamps rows (-1, -1) with
        | none => .error .source
        | some (stamped, minReader) => (judgeSchema stamped minReader).map fun compat => (current, compat)

/-- One call of `EnsureFresh`: the clock it reads, the interval setting, and what the source would
answer if it is asked. -/
structure FreshCall where
  now : Int
  interval : Int
  answer : SourceAnswer
deriving DecidableEq, Repr

/-- `EnsureFresh`, alone on the node: the state it leaves, and whether it returned or threw. -/
def ensureFresh (functionMode : Bool) (state : Freshness) (call : FreshCall) : Freshness × Except CheckFailure Unit :=
  if state.skips call.now call.interval then (state, .ok ())
  else
    let entered := state.enter call.now
    match askSource functionMode entered call.answer with
    | .error failure => (entered, .error failure)
    | .ok (current, compat) => ({ entered with compatReadOnly := compat }.adopt current, .ok ())

end DuckAcl
