import DuckAcl.Model.AliasQuery

/-! # Where a CREATE or a DROP lands

`CatalogBackend::DdlTarget` (`acl_policy_catalog.cpp`) sends one query for the schemas a written name's
object may belong to: the name is read as `<catalog>.<schema path>.<object>` and as a path of the MAIN
catalog, and each schema comes once for every role of the principal that is granted on it. The rows are
ordered by the length of the path alone, and the first one that holds the capability decides.
-/

namespace DuckAcl

namespace NamePath

/-- What follows the opening quote of a quoted part reads to its closing quote at the end:
`(?:[^"]|"")*"$`. -/
def closesQuote : Text → Bool
  | [] => false
  | ['"'] => true
  | '"' :: '"' :: rest => closesQuote rest
  | '"' :: _ => false
  | _ :: rest => closesQuote rest

/-- The whole text is one part as a key writes it: `"(?:[^"]|"")*"` or `[^."]*`. -/
def isLeafForm (text : Text) : Bool :=
  (match text with
    | '"' :: rest => closesQuote rest
    | _ => false) || decide ('.' ∉ text ∧ '"' ∉ text)

/-- The match of `KeyLeafSql`'s expression after a dot, the leftmost one; `''` where there is none. -/
def leafAfterDot : Text → Text
  | [] => []
  | c :: rest => if c = '.' ∧ isLeafForm rest = true then rest else leafAfterDot rest

/-- `KeyLeafSql`. -/
def keyLeaf (key : Text) : Text := if isLeafForm key then key else leafAfterDot key

/-- `KeyNestedSql`. -/
def keyNested (key : Text) : Bool := decide ((keyLeaf key).length < key.length)

end NamePath

/-- Where an object is created or dropped: what a statement acts on. -/
structure Landing where
  vcat : Text
  vname : Text
  schemaPath : Text
  physSchema : Text
  needsRecord : Bool
  virtualOnly : Bool
deriving DecidableEq, Repr

/-- `DdlTarget`. -/
structure DdlTarget extends Landing where
  origin : Text
deriving DecidableEq, Repr

/-- A row of the query of `DdlTarget`: a schema, one role's grant on it, and the readings it fits. -/
structure DdlRow where
  vcat : Text
  path : Text
  physPath : Option Text
  origin : Option Text
  caps : Option Text
  into : Option Text
  virtualOnly : Bool
  qualified : Bool
  unqualified : Bool
deriving DecidableEq, Repr

namespace PolicyTables

/-- `prefix_of`: the path is the parent of the name's last part. -/
def prefixOf (name path : Text) : Bool :=
  Text.isUnder name path && !NamePath.keyNested (name.drop (path.length + 1))

/-- The row of a schema for a grant on its catalog and one on itself. -/
def ddlRow (mainOk : Bool) (vname : Text) (schema grant capsRow : Row) : Option DdlRow :=
  match textOf .vcat schema, textOf .path schema with
  | some vcat, some path =>
    let (head, rest) := NamePath.splitHeadKey vname
    let qualified := decide (head ≠ []) && (Text.ciEquals vcat head && prefixOf rest path)
    let unqualified := isMain grant && mainOk && prefixOf vname path
    if grant.is .vcat vcat && capsRow.is .vcat vcat && capsRow.is .schemaPath path && decide (grant .role = capsRow .role) &&
        (unqualified || qualified) then
      some { vcat, path, physPath := textOf .physPath schema, origin := textOf .origin schema, caps := textOf .caps capsRow,
             into := textOf .into capsRow, virtualOnly := decide (capsRow .virtualOnly = .boolean true), qualified, unqualified }
    else none
  | _, _ => none

/-- The rows of the query, in no order. -/
def ddlRows (store : PolicyTables) (roles : List Text) (vname : Text) : List DdlRow :=
  (store.rows .schemas).flatMap fun schema => (store.catalogGrants roles).flatMap fun grant =>
    (store.rows .roleSchemas).filterMap fun capsRow => ddlRow (store.uniqueMain roles) vname schema grant capsRow

end PolicyTables

namespace DdlRow

/-- The physical schema a row's grant creates in: its own choice, or the declaration's. -/
def physSchema (row : DdlRow) : Text := row.into.getD (row.physPath.getD (row.origin.getD []))

/-- The target a row answers. -/
def target (objectName : Text) (row : DdlRow) : DdlTarget where
  vcat := row.vcat
  vname := NamePath.childKey row.path (NamePath.splitLeaf objectName).2
  schemaPath := row.path
  physSchema := row.physSchema
  -- an alias shows the physical schema live, an expansion only its own records
  needsRecord := row.physPath.isNone
  virtualOnly := row.virtualOnly
  origin := row.origin.getD []

/-- One turn of the loop: nothing where the role does not hold the capability, or has nowhere to create. -/
def answer (engine : PolicyEngine) (capability objectName : Text) (row : DdlRow) :
    Option (Except BinderException DdlTarget) :=
  match engine.effectiveCaps row.caps with
  | .error refused => some (.error refused)
  | .ok caps =>
    if ciContains caps capability = false then none
    else if row.physSchema = [] ∧ row.virtualOnly = false then none
    else some (.ok (row.target objectName))

end DdlRow

def ambiguousHome (vname head home : Text) : BinderException :=
  "acl: \"".toList ++ vname ++ "\" is ambiguous - catalog \"".toList ++ head ++ "\" or schema ".toList ++ home ++
    " of the MAIN catalog; prefix the MAIN catalog's name to mean the schema (the catalog reading needs the operator to rename one of them)".toList

def schemaNotAllowed (capability path : Text) : BinderException :=
  "acl: ".toList ++ capability ++ " on schema \"".toList ++ path ++ "\" is not allowed".toList

/-- The rows of the chosen reading: the catalog's where any row fits it. -/
def chosenRows (rows : List DdlRow) : List DdlRow :=
  if rows.any DdlRow.qualified then rows.filter DdlRow.qualified else rows.filter DdlRow.unqualified

/-- The name as the chosen reading has it. -/
def chosenName (vname : Text) (rows : List DdlRow) : Text :=
  if rows.any DdlRow.qualified then (NamePath.splitHeadKey vname).2 else vname

/-- `CatalogBackend::DdlTarget`, over the rows in the order they come back. -/
def ddlTarget (engine : PolicyEngine) (vname capability : Text) (rows : List DdlRow) :
    Except BinderException (Option DdlTarget) :=
  if rows.any DdlRow.qualified && rows.any DdlRow.unqualified then
    let home := ((rows.filter DdlRow.unqualified).getLast?.map fun row => row.vcat ++ '.' :: row.path).getD []
    .error (ambiguousHome vname (NamePath.splitHeadKey vname).1 home)
  else
    match (chosenRows rows).findSome? (DdlRow.answer engine capability (chosenName vname rows)) with
    | some (.error refused) => .error refused
    | some (.ok target) => .ok (some target)
    | none =>
      match chosenRows rows with
      | [] => .ok none
      | first :: _ => .error (schemaNotAllowed capability first.path)

end DuckAcl
