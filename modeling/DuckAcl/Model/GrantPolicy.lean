import DuckAcl.Model.FieldNode

/-! # What a grant chain imposes

A grant says which rows and which columns a role sees. The levels of one role's chain narrow
(`GrantPolicy`), the roles of one principal unite (`GrantUnion`); both carry their column list as
`COLUMNS` items until a read is compiled (`acl_policy_catalog.hpp`).
-/

namespace DuckAcl

/-- The rest of a quoted run, up to and with its closing quote, and what follows it. -/
def readRun (quote : Char) : Text → Text × Text
  | [] => ([], [])
  | c :: rest =>
    if c = quote then
      match rest with
      | d :: after =>
        if d = quote then
          let (run, left) := readRun quote after
          (c :: d :: run, left)
        else ([c], rest)
      | [] => ([c], [])
    else
      let (run, left) := readRun quote rest
      (c :: run, left)

theorem readRun_length (quote : Char) (text : Text) : (readRun quote text).2.length ≤ text.length := by
  fun_induction readRun quote text with
  | case1 => simp
  | case2 after run left split ih =>
    rw [split] at ih
    simp only [List.length_cons] at ih ⊢
    omega
  | case3 d after _ => simp
  | case4 => simp
  | case5 c rest _ run left split ih =>
    rw [split] at ih
    simp only [List.length_cons] at ih ⊢
    omega

/-- The loop of `SplitTopLevel`: the parts from here on, the first of them being read. A delimiter
inside quotes or parentheses belongs to an expression, not to the list. -/
def splitFrom (delimiter : Char) (current : Text) (depth : ℕ) (text : Text) : List Text :=
  match text with
  | [] => [current]
  | c :: rest =>
    if c = '\'' ∨ c = '"' then
      splitFrom delimiter (current ++ c :: (readRun c rest).1) depth (readRun c rest).2
    else if c = '(' then splitFrom delimiter (current ++ [c]) (depth + 1) rest
    else if c = ')' ∧ 0 < depth then splitFrom delimiter (current ++ [c]) (depth - 1) rest
    else if c = delimiter ∧ depth = 0 then current :: splitFrom delimiter [] depth rest
    else splitFrom delimiter (current ++ [c]) depth rest
termination_by text.length
decreasing_by
  all_goals simp only [List.length_cons]
  · have := readRun_length c rest
    omega
  all_goals omega

/-- `SplitTopLevel`. -/
def splitTopLevel (text : Text) (delimiter : Char) : List Text :=
  (splitFrom delimiter [] 0 text).map Text.trim

/-- One part of a column list: `name`, or `name = expr` at the first `=`. -/
def columnItem (item : Text) : Text × Text :=
  match item.dropWhile (· ≠ '=') with
  | [] => (item, [])
  | _ :: expr => (Text.trim (item.takeWhile (· ≠ '=')), Text.trim expr)

/-- `ParseColumnList`: a grant's column list, empty parts left out. -/
def parseColumnList (csv : Text) : ColumnItems :=
  ((splitTopLevel csv ',').filter (!·.isEmpty)).map columnItem

/-- Every name of a parsed list is trimmed. -/
theorem parseColumnList_trimmed (csv : Text) : ∀ item ∈ parseColumnList csv, Text.trim item.1 = item.1 := by
  intro item member
  obtain ⟨part, inside, rfl⟩ := List.mem_map.mp member
  obtain ⟨raw, _, rfl⟩ := List.mem_map.mp (List.mem_filter.mp inside).1
  rw [columnItem]
  split
  · exact Text.trim_trim raw
  · exact Text.trim_trim _

/-- Join parts with a separator, each in parentheses. -/
def joinWrapped (separator : Text) (parts : List Text) : Text :=
  (separator.intercalate (parts.map fun part => '(' :: part ++ [')']))

/-- A composed predicate: nothing, the only one, or all of them wrapped. -/
def composePredicates (separator : Text) : List Text → Text
  | [] => []
  | [predicate] => predicate
  | predicates => joinWrapped separator predicates

/-- `GrantPolicy`: what one role's grant chain imposes on one object. -/
structure GrantPolicy where
  restricts : Bool := false
  unchecked : Bool := false
  columns : ColumnItems := []
  predicates : List Text := []
deriving DecidableEq, Repr

namespace GrantPolicy

/-- Narrowing a list of columns by another, no field path in either: the narrower level may mask
harder, never un-mask what the wider one computed. -/
def intersectPlain (columns level : ColumnItems) : ColumnItems :=
  columns.filterMap fun column =>
    (level.find? fun narrower => Text.ciEquals column.1 narrower.1).map fun narrower =>
      (column.1, if narrower.2 = [] then column.2 else narrower.2)

/-- `GrantPolicy::Narrow`'s column part, over the level's parsed list. -/
def narrowColumns (policy : GrantPolicy) (level : ColumnItems) : Except BinderException GrantPolicy :=
  if level = [] then .ok policy
  else if policy.restricts = false then .ok { policy with restricts := true, columns := level }
  else if hasFieldPaths policy.columns || hasFieldPaths level then do
    return { policy with columns := ← intersectColumnItems policy.columns level }
  else .ok { policy with columns := intersectPlain policy.columns level }

/-- `GrantPolicy::Narrow`: fold one level of the chain in. -/
def narrow (policy : GrantPolicy) (rls columnCsv : Text) (rlsChecked : Bool) : Except BinderException GrantPolicy :=
  let policy :=
    if rls = [] then policy
    else { policy with predicates := policy.predicates ++ [rls], unchecked := policy.unchecked || !rlsChecked }
  policy.narrowColumns (parseColumnList columnCsv)

/-- `GrantPolicy::Predicate`. -/
def predicate (policy : GrantPolicy) : Text := composePredicates " AND ".toList policy.predicates

end GrantPolicy

/-- One level of a grant chain: what `Narrow` is called with. -/
structure GrantLevel where
  rls : Text
  columnCsv : Text
  rlsChecked : Bool := true

/-- A whole chain, the widest level first. -/
def narrowAll (levels : List GrantLevel) : Except BinderException GrantPolicy :=
  levels.foldlM (fun policy level => policy.narrow level.rls level.columnCsv level.rlsChecked) {}

/-- `GrantUnion`: what a principal's roles are granted on one object. -/
structure GrantUnion where
  any : Bool := false
  unrestrictedRls : Bool := false
  unrestrictedColumns : Bool := false
  unchecked : Bool := false
  predicates : List Text := []
  columns : ColumnItems := []
deriving DecidableEq, Repr

namespace GrantUnion

/-- One column of a role's plain list merged into the union: one role sees it unmasked, so the
principal does; two different masks are refused. -/
def mergeColumn (column : Text × Text) : ColumnItems → Except BinderException ColumnItems
  | [] => .ok [column]
  | existing :: rest =>
    if Text.ciEquals existing.1 column.1 then
      if column.2 = [] ∨ existing.2 = [] then .ok ((existing.1, []) :: rest)
      else if existing.2 ≠ column.2 then .error (maskDiffers column.1 existing.2 column.2)
      else .ok (existing :: rest)
    else do return existing :: (← mergeColumn column rest)

/-- `GrantUnion::Add`. -/
def add (union : GrantUnion) (policy : GrantPolicy) : Except BinderException GrantUnion := do
  let union := { union with any := true }
  let union :=
    if policy.predicate = [] then { union with unrestrictedRls := true }
    else { union with predicates := union.predicates ++ [policy.predicate],
                      unchecked := union.unchecked || policy.unchecked }
  if policy.restricts = false then return { union with unrestrictedColumns := true }
  if hasFieldPaths union.columns || hasFieldPaths policy.columns then
    return { union with columns := ← uniteColumnItems union.columns policy.columns }
  return { union with columns := ← policy.columns.foldlM (fun columns column => mergeColumn column columns) union.columns }

/-- `GrantUnion::Unchecked`. -/
def isUnchecked (union : GrantUnion) : Bool :=
  union.unchecked && !union.unrestrictedRls && !union.predicates.isEmpty

/-- `GrantUnion::Predicate`. -/
def predicate (union : GrantUnion) : Text :=
  if union.unrestrictedRls then [] else composePredicates " OR ".toList union.predicates

/-- `GrantUnion::Restricts`. -/
def restricts (union : GrantUnion) : Bool := union.any && !union.unrestrictedColumns

end GrantUnion

end DuckAcl
