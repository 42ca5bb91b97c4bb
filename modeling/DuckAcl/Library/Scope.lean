import DuckAcl.Library.Text

/-! # Scopes and dotted names

The scopes of a query are a stack of frames, the innermost first; a frame holds the relations one
FROM offers. A dotted name binds in the innermost frame that has it: `a.b` is the column `b` of a
relation `a` that has one, else the field `b` of a column `a`. A name that two relations of a frame
answer to is ambiguous there, and the binder looks no further out.
-/

namespace DuckAcl

/-- A relation in scope: the name it answers to, and its columns. -/
structure Relation where
  name : Text
  columns : List Text
deriving DecidableEq, Repr

/-- The relations of one FROM. -/
abbrev Frame := List Relation

/-- Where a name binds inside a frame: the relation's place, the column, and the fields after it. -/
structure Place where
  relation : Nat
  column : Text
  fields : List Text
deriving DecidableEq, Repr

/-- What one frame makes of a name. -/
inductive Found where
  | missing
  | ambiguous
  | at (place : Place)
deriving DecidableEq, Repr

namespace Relation

/-- Whether the relation has the column. -/
def has (relation : Relation) (column : Text) : Bool := relation.columns.any (Text.ciEquals · column)

/-- Whether the relation answers to the name and has the column. -/
def answers (relation : Relation) (name column : Text) : Bool := Text.ciEquals relation.name name && relation.has column

end Relation

/-- The places of the relations that pass a test, counted from a start. -/
def Frame.placesFrom (test : Relation → Bool) : Nat → Frame → List Nat
  | _, [] => []
  | start, relation :: rest =>
    if test relation then start :: placesFrom test (start + 1) rest else placesFrom test (start + 1) rest

/-- The places of the relations that pass a test. -/
def Frame.places (frame : Frame) (test : Relation → Bool) : List Nat := frame.placesFrom test 0

/-- A name is found where exactly one relation offers it. -/
def Found.among (column : Text) (fields : List Text) : List Nat → Found
  | [] => .missing
  | [place] => .at ⟨place, column, fields⟩
  | _ :: _ :: _ => .ambiguous

/-- The reading of a name as a column and fields of it. -/
def Frame.findColumn (frame : Frame) : List Text → Found
  | [] => .missing
  | column :: fields => .among column fields (frame.places (·.has column))

/-- What a frame makes of a name: a relation's column first, then a column's field. -/
def Frame.find (frame : Frame) : List Text → Found
  | name :: column :: fields =>
    match Found.among column fields (frame.places (·.answers name column)) with
    | .missing => frame.findColumn (name :: column :: fields)
    | found => found
  | names => frame.findColumn names

/-- Where a name binds in a stack of frames. -/
inductive Resolution where
  | unbound
  | ambiguous (depth : Nat)
  | bound (depth : Nat) (place : Place)
deriving DecidableEq, Repr

/-- The same place, seen from some frames further in. -/
def Resolution.under (frames : Nat) : Resolution → Resolution
  | .unbound => .unbound
  | .ambiguous depth => .ambiguous (depth + frames)
  | .bound depth place => .bound (depth + frames) place

/-- A name in a stack of frames: the innermost frame that has it decides. -/
def resolve : List Frame → List Text → Resolution
  | [], _ => .unbound
  | frame :: outer, names =>
    match frame.find names with
    | .missing => (resolve outer names).under 1
    | .ambiguous => .ambiguous 0
    | .at place => .bound 0 place

/-- The first of two readings that binds. -/
def Resolution.or : Resolution → Resolution → Resolution
  | .unbound, outer => outer
  | inner, _ => inner

@[simp] theorem Resolution.unbound_or (r : Resolution) : Resolution.unbound.or r = r := rfl

@[simp] theorem Resolution.or_unbound (r : Resolution) : r.or .unbound = r := by
  cases r <;> rfl

theorem Resolution.or_of_ne {r : Resolution} (decided : r ≠ .unbound) (outer : Resolution) : r.or outer = r := by
  cases r with
  | unbound => exact absurd rfl decided
  | ambiguous | bound => rfl

@[simp] theorem Resolution.under_zero (r : Resolution) : r.under 0 = r := by
  cases r <;> rfl

@[simp] theorem Resolution.under_unbound (frames : Nat) : Resolution.unbound.under frames = .unbound := rfl

theorem Resolution.under_under (r : Resolution) (inner outer : Nat) :
    (r.under outer).under inner = r.under (outer + inner) := by
  cases r <;> simp [Resolution.under, Nat.add_assoc]

theorem Resolution.under_or (left right : Resolution) (frames : Nat) :
    (left.or right).under frames = (left.under frames).or (right.under frames) := by
  cases left <;> rfl

@[simp] theorem Resolution.under_eq_unbound (r : Resolution) (frames : Nat) : r.under frames = .unbound ↔ r = .unbound := by
  cases r <;> simp [Resolution.under]

/-- The inner frames decide where they have the name; the outer ones are asked only where they do not. -/
theorem resolve_append (inner outer : List Frame) (names : List Text) :
    resolve (inner ++ outer) names = (resolve inner names).or ((resolve outer names).under inner.length) := by
  induction inner with
  | nil => simp [resolve]
  | cons frame inner ih =>
    simp only [List.cons_append, resolve]
    split
    · rw [ih, Resolution.under_or, Resolution.under_under, List.length_cons]
    · rfl
    · rfl

/-- A frame without relations has no names. -/
@[simp] theorem Frame.find_nil (names : List Text) : Frame.find [] names = .missing := by
  rcases names with _ | ⟨name, _ | ⟨column, fields⟩⟩ <;> rfl

/-- Frames without relations bind nothing. -/
theorem resolve_closed (frames : List Frame) (names : List Text) :
    resolve (frames.map fun _ => []) names = .unbound := by
  induction frames with
  | nil => rfl
  | cons frame frames ih =>
    rw [List.map_cons, resolve, Frame.find_nil]
    simp only [ih, Resolution.under_unbound]

/-- The frame a name is found in, if any, is one of the stack. -/
def Resolution.Within (frames : Nat) : Resolution → Prop
  | .unbound => True
  | .ambiguous depth => depth < frames
  | .bound depth _ => depth < frames

theorem Resolution.Within.mono {r : Resolution} {frames more : Nat} (within : r.Within frames) (fewer : frames ≤ more) :
    r.Within more := by
  cases r with
  | unbound => trivial
  | ambiguous depth => exact Nat.lt_of_lt_of_le within fewer
  | bound depth place => exact Nat.lt_of_lt_of_le within fewer

theorem Resolution.Within.under {r : Resolution} {frames : Nat} (within : r.Within frames) (inner : Nat) :
    (r.under inner).Within (frames + inner) := by
  cases r with
  | unbound => trivial
  | ambiguous depth => exact Nat.add_lt_add_right within inner
  | bound depth place => exact Nat.add_lt_add_right within inner

/-- A place inside some frames is no place further out than all of them. -/
theorem Resolution.Within.ne_under {r : Resolution} {frames : Nat} (within : r.Within frames) (bound : r ≠ .unbound)
    (outer : Resolution) : r ≠ outer.under frames := by
  cases r with
  | unbound => exact absurd rfl bound
  | ambiguous depth =>
    have : depth < frames := within
    cases outer <;> simp only [Resolution.under, ne_eq, reduceCtorEq, not_false_eq_true, Resolution.ambiguous.injEq]
    omega
  | bound depth place =>
    have : depth < frames := within
    cases outer <;> simp only [Resolution.under, ne_eq, reduceCtorEq, not_false_eq_true, Resolution.bound.injEq, not_and]
    omega

theorem resolve_within (frames : List Frame) (names : List Text) : (resolve frames names).Within frames.length := by
  induction frames with
  | nil => trivial
  | cons frame frames ih =>
    rw [resolve]
    split
    · exact ih.under 1
    · simp [Resolution.Within]
    · simp [Resolution.Within]

end DuckAcl
