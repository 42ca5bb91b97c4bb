import DuckAcl.Library.Memo
import DuckAcl.Library.SettledRuns
import DuckAcl.Model.GrantPolicy

/-! # What a union of roles adds

The union of a principal's roles is per object: the rows are OR-ed and the column lists united
independently, so two roles that narrow one object differently unite into cells neither reads.
`RoleUnionWidens` (`acl_policy_catalog.hpp`) reports each such pair of roles, for the audit.
-/

namespace DuckAcl

/-- The texts before each `.` and `[` of a text, what stands before it given. -/
def prefixesFrom (before : Text) : Text → List Text
  | [] => []
  | c :: rest => (if c = '.' ∨ c = '[' then [before] else []) ++ prefixesFrom (before ++ [c]) rest

/-- `prefixes`: the columns and paths a name stands under, as its text writes them. -/
def namePrefixes : Text → List Text
  | [] => []
  | c :: rest => prefixesFrom [c] rest

/-- `case_insensitive_set_t::count`. -/
def holdsName (names : List Text) (name : Text) : Bool := names.any (Text.ciEquals · name)

/-- `Seen`: a role's list as the report reads it. -/
structure SeenColumns where
  all : Bool
  items : List (Text × Bool)
  plain : List Text
  masked : List Text
  aboveMasked : List Text
deriving DecidableEq, Repr

/-- The loop that fills `seen[i]`. -/
def SeenColumns.of (policy : GrantPolicy) : SeenColumns :=
  let items := policy.columns.map fun item => (Text.trim item.1, decide (item.2 ≠ []))
  let masked := (items.filter (·.2)).map (·.1)
  { all := !policy.restricts
    items
    plain := (items.filter (!·.2)).map (·.1)
    masked
    aboveMasked := masked.flatMap namePrefixes }

/-- `covers`: the role reads the item, in that form or plainer. -/
def SeenColumns.covers (seen : SeenColumns) (name : Text) (maskedItem : Bool) : Bool :=
  if seen.all then true
  -- masked above: what the union shows of it is not what the role reads
  else if (namePrefixes name).any (holdsName seen.masked) then false
  else if holdsName seen.masked name then maskedItem
  else ((namePrefixes name).any (holdsName seen.plain) || holdsName seen.plain name) && !holdsName seen.aboveMasked name

/-- A role as the report reads it. -/
structure ReportedRole where
  name : Text
  predicate : Text
  seen : SeenColumns

def ReportedRole.of (role : Text × GrantPolicy) : ReportedRole := ⟨role.1, role.2.predicate, .of role.2⟩

/-- `UnionWidening`: whose rows, whose columns, and the items they add. -/
structure UnionWidening where
  roleA : Text
  roleB : Text
  columns : List Text
deriving DecidableEq, Repr

/-- `head_known`: the item names a column of the object, or the object's columns are not known. -/
def headKnown (known : List Text) (name : Text) : Bool :=
  known.isEmpty || holdsName known (name.takeWhile fun c => decide (c ≠ '.' ∧ c ≠ '['))

/-- `open_covered`: the answers kept for the open readers, by mask kind. -/
abbrev OpenCovered := Bool → Memo Text Bool

/-- `covered_open`: some role without a filter reads the item; each answer is kept. -/
def coveredOpen (openReaders : List SeenColumns) (name : Text) (maskedItem : Bool) : StateM OpenCovered Bool := do
  let memo := (← get) maskedItem
  match memo.find (Text.fold name) with
  | some answer => pure answer
  | none =>
    let answer := openReaders.any (·.covers name maskedItem)
    modify fun kept => Function.update kept maskedItem (memo.store (Text.fold name) answer)
    pure answer

/-- `covered`: some reader of the rows reads the item. -/
def coveredBy (openReaders readers : List SeenColumns) (name : Text) (maskedItem : Bool) : StateM OpenCovered Bool := do
  if ← coveredOpen openReaders name maskedItem then pure true else pure (readers.any (·.covers name maskedItem))

/-- The items of `b` no reader of the rows reads. -/
def extraItems (covered : Text → Bool → StateM OpenCovered Bool) (known : List Text) (b : SeenColumns) :
    StateM OpenCovered (List Text) :=
  if b.all then do
    let extra ← keepWith (fun name => do return !(← covered name false)) known
    pure (if known.isEmpty then extra ++ ["*".toList] else extra)
  else do
    let extra ← keepWith (fun item : Text × Bool =>
      if headKnown known item.1 then do return !(← covered item.1 item.2) else pure false) b.items
    pure (extra.map (·.1))

/-- The loop over `b`: one pair for each role whose items add something, until there are enough. -/
def pairsWith (maxPairs : ℕ) (extra : SeenColumns → StateM OpenCovered (List Text)) (a : ReportedRole) :
    List ReportedRole → List UnionWidening → StateM OpenCovered (List UnionWidening)
  | [], out => pure out
  | b :: rest, out =>
    if b.predicate = [] ∨ b.predicate = a.predicate then pairsWith maxPairs extra a rest out
    else do
      let items ← extra b.seen
      if items.isEmpty then pairsWith maxPairs extra a rest out
      else
        let out := out ++ [⟨a.name, b.name, items⟩]
        if maxPairs < out.length then pure out else pairsWith maxPairs extra a rest out

/-- The roles with the filter of `a`. -/
def readersOf (roles : List ReportedRole) (a : ReportedRole) : List SeenColumns :=
  (roles.filter fun c => decide (c.predicate = a.predicate)).map (·.seen)

/-- The loop over `a`: each filter once, named by the first role that holds it; the loop ends with the
inner one when that has found enough. -/
def classesFrom (maxPairs : ℕ) (openReaders : List SeenColumns) (roles : List ReportedRole) (known : List Text) :
    List ReportedRole → List Text → List UnionWidening → StateM OpenCovered (List UnionWidening)
  | [], _, out => pure out
  | a :: rest, classes, out =>
    if a.predicate ∈ classes then classesFrom maxPairs openReaders roles known rest classes out
    else
      let classes := classes ++ [a.predicate]
      let readers := readersOf roles a
      if readers.any (·.all) then classesFrom maxPairs openReaders roles known rest classes out
      else do
        let out ← pairsWith maxPairs (extraItems (coveredBy openReaders readers) known) a roles out
        if maxPairs < out.length then pure out else classesFrom maxPairs openReaders roles known rest classes out

/-- `RoleUnionWidens`. -/
def roleUnionWidens (roles : List (Text × GrantPolicy)) (known : List Text) (maxPairs : ℕ) : List UnionWidening :=
  let roles := roles.map .of
  let openRoles := roles.filter fun c => decide (c.predicate = [])
  -- one role reads every cell of the object
  if openRoles.any (·.seen.all) then []
  else ((classesFrom maxPairs (openRoles.map (·.seen)) roles known roles [] []).run fun _ => []).1

end DuckAcl
