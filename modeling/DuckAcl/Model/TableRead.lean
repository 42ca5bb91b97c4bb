import DuckAcl.Model.Syntax
import DuckAcl.Model.TablePolicy

/-! # Reading a relation through its policy

`RewriteTableRef` replaces a table name by what its policy says: a subquery, a renamed subquery, or
the physical table itself. The model follows which columns the replacement returns; a read the
rewriter denies or the engine does not bind is an error.
-/

namespace DuckAcl

/-- The columns of a physical table: given names, different up to case. -/
structure TableColumns where
  names : List Text
  given : ∀ name ∈ names, name ≠ []
  distinct : names.Pairwise fun a b => Text.ciEquals a b = false

/-- `* REPLACE (… AS name, …)`: every name once, and each of them a column; no clause without names. -/
def starReplace (names columns : List Text) : Except Refusal (List Text) :=
  if (names.map Text.fold).Nodup ∧ ∀ name ∈ names, ciContains columns name then .ok columns
  else .error "a REPLACE entry is no column, or given twice".toList

/-- `* RENAME (phys AS virt, …)`: both names are emitted as they are stored, so both have to read as
a name; every physical name once, and each of them a column; no clause without renames. -/
def starRename (plainWord : Text → Bool) (renames : List (Text × Text)) (columns : List Text) :
    Except Refusal (List Text) :=
  if (renames.map fun rename => Text.fold rename.2).Nodup ∧ ∀ rename ∈ renames,
      plainWord rename.1 ∧ plainWord rename.2 ∧ ciContains columns rename.2 then
    .ok (columns.map fun column =>
      match renames.find? fun rename => Text.ciEquals rename.2 column with
      | some rename => rename.1
      | none => column)
  else .error "a RENAME entry is no column, or given twice".toList

/-- The columns of a select list; a quoted name cannot be empty. -/
def itemColumns (items : List SelectItem) : Except Refusal (List Text) :=
  if items.all (·.name ≠ []) then .ok (items.map SelectItem.name)
  else .error "zero-length delimited identifier".toList

/-- The columns a policy's source offers. -/
def ReadFrom.columns (source : ReadFrom) (phys : List Text) : Except Refusal (List Text) :=
  starReplace (source.casts.map Prod.fst) phys

/-- `COLUMNS(lambda c: fold(c) IN (names))`: an empty list does not parse, and a list that matches
nothing does not bind. -/
def keepMatching (names columns : List Text) : Except Refusal (List Text) :=
  if names = [] then .error "syntax error at or near \")\"".toList
  else
    let kept := columns.filter fun column => names.contains (Text.fold column)
    if kept = [] then .error "no matching columns".toList else .ok kept

/-- The columns a policy's query returns; a view's own columns come with its SQL. -/
def PolicyQuery.columns (view : Text → Except Refusal (List Text)) (phys : List Text) :
    PolicyQuery → Except Refusal (List Text)
  | .view sql => view sql
  | .typed casts query _ => do starReplace (casts.map Prod.fst) (← query.columns view phys)
  | .granted items query _ => do
    let _ ← query.columns view phys
    itemColumns items
  | .filtered query _ => query.columns view phys
  | .matching names replaces source => do
    let columns ← source.columns phys
    let columns ← starReplace (replaces.map SelectItem.name) columns
    keepMatching names columns

/-- The error of a policy that leaves nothing to read. -/
def noReadableColumns (vname : Text) : Refusal :=
  "object \"".toList ++ vname ++ "\" exposes no readable columns".toList

/-- A `WHERE` clause, unless the predicate is empty. -/
def whereClause (predicate : Text) : List Text := if predicate = [] then [] else [predicate]

/-- The row filters of the queries a policy composes, the innermost first; a view's own SQL filters as it
says. -/
def PolicyQuery.filters : PolicyQuery → List Text
  | .view _ => []
  | .typed _ query predicate | .granted _ query predicate | .filtered query predicate =>
    query.filters ++ whereClause predicate
  | .matching _ _ source => whereClause source.rls

/-- The row filters a policy reads a relation through: those of its query, or its own. -/
def TablePolicy.filters (policy : TablePolicy) : List Text :=
  match policy.query with
  | some query => query.filters
  | none => whereClause policy.rls

section

variable (plainWord : Text → Bool) (view : Text → Except Refusal (List Text))

/-- `BuildTableSubquery`: no projection means the grant narrowed only the rows. -/
def buildTableSubquery (vname : Text) (policy : TablePolicy) (phys : List Text) : Except Refusal (List Text) :=
  match policy.query with
  | some query => query.columns view phys
  | none =>
    if policy.projection.isEmpty ∧ policy.rls = [] then .error (noReadableColumns vname)
    else do
      let columns ← policy.readFrom.columns phys
      if policy.projection.isEmpty then starRename plainWord policy.renames columns
      else itemColumns policy.projection

/-- `BuildRenamedSubquery`: the read shape of a renamed or type-cast but writable relation. -/
def buildRenamedSubquery (policy : TablePolicy) (phys : List Text) : Except Refusal (List Text) := do
  starRename plainWord policy.renames (← policy.readFrom.columns phys)

/-- `RewriteTableRef` on a base table the store resolved: the columns the replacement returns. -/
def readTable (vname : Text) (policy : TablePolicy) (phys : List Text) : Except Refusal (List Text) :=
  if ciContains policy.caps "select".toList = false then
    .error ("select on \"".toList ++ vname ++ "\" is not allowed".toList)
  else if policy.subqueryForm then buildTableSubquery plainWord view vname policy phys
  else if policy.renames ≠ [] ∨ policy.casts ≠ [] then buildRenamedSubquery plainWord policy phys
  else .ok phys

/-- A read of an alias-form object under a principal's grants, over a physical table. -/
def AliasObject.read (object : AliasObject) (vname : Text) (grants : GrantUnion) (table : TableColumns) :
    Except Refusal (List Text) := do
  readTable plainWord view vname (← object.lookup vname grants) table.names

end

end DuckAcl
