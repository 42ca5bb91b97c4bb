import DuckAcl.Model.NamePath

/-! # Keys as text

What the resolver and the writers do with a stored key without taking it apart, and the forms of a key that listings
show (`acl_name_path.hpp`).
-/

namespace DuckAcl

namespace NamePath

/-- `Fold`. -/
def foldKey (parts : List Text) : Text := Text.fold (toKey parts)

/-- `KeyEquals`. -/
def keyEquals (a b : Text) : Bool := Text.ciEquals a b

/-- `KeyUnder`: the key starts with the path, up to case, and a dot and more follow. -/
def keyUnder (key path : Text) : Bool :=
  decide (path.length + 1 < key.length) && decide (key[path.length]? = some '.') &&
    Text.ciEquals (key.take path.length) path

/-- `Display`: a key as a listing shows it. -/
def display (key : Text) : Text :=
  match fromKey key with
  | some [head] => if '.' ∉ head then head else key
  | _ => key

/-- `Unquote`: a key of one part as its raw name. -/
def unquote (key : Text) : Text :=
  match fromKey key with
  | some [head] => head
  | _ => key

/-- `FromDisplay`. -/
def fromDisplay (shown : Text) : Text :=
  if '"' ∈ shown ∧ '.' ∉ shown then quotePart shown else shown

end NamePath

end DuckAcl
