import DuckAcl.Model.Resolution
import DuckAcl.Model.SchemaGrants

/-! # The query of a schema alias

`LookupSchemaAlias` asks the policy database for every alias the written name may lie under, once for
each of the principal's grants on its catalog (`acl_policy_catalog.cpp`). A name is read as a catalog and
a path in it, or as a path in the principal's MAIN catalog. Each row carries the capabilities and the
policy of one role, which the query looks up under a path of its own choosing (`path_case`).
-/

namespace DuckAcl

/-- `trim` of SQL takes away space separators. -/
def Text.isSpaceSeparator (c : Char) : Bool :=
  c == ' ' || c == '\u00a0' || c == '\u1680' || decide ('\u2000' ≤ c ∧ c ≤ '\u200a') || c == '\u202f' || c == '\u205f' ||
    c == '\u3000'

def Text.sqlTrim (text : Text) : Text :=
  ((text.dropWhile isSpaceSeparator).reverse.dropWhile isSpaceSeparator).reverse

namespace PolicyTables

/-- `nullif(trim(caps), '')`. -/
def trimmedCaps (row : Row) : Option Text :=
  (textOf .caps row).bind fun caps => if Text.sqlTrim caps = [] then none else some (Text.sqlTrim caps)

/-- The policy columns of a grant, as one level of a chain. -/
def levelOf (row : Row) : GrantLevel where
  rls := (textOf .rls row).getD []
  columnCsv := (textOf .columns row).getD []
  rlsChecked := decide (row .rlsChecked = .boolean true)

/-- The level of a grant that is not there. -/
def noLevel : GrantLevel := ⟨[], [], false⟩

/-- `grants`: the principal's grants on catalogs. -/
def catalogGrants (store : PolicyTables) (roles : List Text) : List Row :=
  (store.rows .roleCatalogs).filter fun row => roles.any (row.is .role)

def isMain (row : Row) : Bool := decide (row .isMain = .boolean true)

/-- `main_ok`: exactly one catalog is MAIN. -/
def uniqueMain (store : PolicyTables) (roles : List Text) : Bool :=
  decide ((((store.catalogGrants roles).filter isMain).filterMap (textOf .vcat)).dedup.length = 1)

/-- `AliasesSource`: the schemas that are live aliases. -/
def aliases (store : PolicyTables) : List Row :=
  (store.rows .schemas).filter fun row => decide (row .physPath ≠ .null)

/-- The key in a column is the same name. -/
def isKey (cell : Column) (key : Text) (row : Row) : Bool :=
  match row cell with
  | .text held => Text.ciEquals held key
  | _ => false

/-- The name lies under the alias. -/
def liesUnder (name : Text) (schema : Row) : Bool :=
  match schema .path with
  | .text path => Text.isUnder name path
  | _ => false

/-- `qualified_cond`: the first part names the catalog, and the rest lies under the alias. -/
def isQualified (vname : Text) (schema : Row) : Bool :=
  let (head, rest) := NamePath.splitHeadKey vname
  decide (head ≠ []) && isKey .vcat head schema && liesUnder rest schema

/-- `path_case`: the path the grants are looked up under. -/
def pathCase (vname : Text) (schema : Row) : Text :=
  let (head, rest) := NamePath.splitHeadKey vname
  if isKey .vcat head schema then rest else vname

/-- An alias the name may lie under, and one grant on its catalog. -/
structure AliasPair where
  schema : Row
  grant : Row

/-- The rows of `FROM … JOIN grants … WHERE …`. -/
def aliasPairs (store : PolicyTables) (roles : List Text) (vname : Text) : List AliasPair :=
  store.aliases.flatMap fun schema =>
    (((store.catalogGrants roles).filter fun grant => decide (grant .vcat = schema .vcat)).filter fun grant =>
      isQualified vname schema || (isMain grant && store.uniqueMain roles && liesUnder vname schema)).map fun grant =>
        ⟨schema, grant⟩

def AliasPair.path (pair : AliasPair) : Text := (textOf .path pair.schema).getD []

def AliasPair.role (pair : AliasPair) : Text := (textOf .role pair.grant).getD []

/-- `ORDER BY prio, length(alias_path) DESC, role`. -/
def AliasPair.before (vname : Text) (first second : AliasPair) : Prop :=
  let prio (pair : AliasPair) : ℕ := if isQualified vname pair.schema then 1 else 2
  prio first < prio second ∨ prio first = prio second ∧
    (second.path.length < first.path.length ∨ first.path.length = second.path.length ∧ first.role ≤ second.role)

instance (vname : Text) : DecidableRel (AliasPair.before vname) := fun _ _ => inferInstanceAs (Decidable (_ ∨ _))

def orderedPairs (store : PolicyTables) (roles : List Text) (vname : Text) : List AliasPair :=
  (store.aliasPairs roles vname).insertionSort (AliasPair.before vname)

/-- The grant of the role on the object of this name. -/
def objectGrantOn (role vcat : Value) (name : Text) (row : Row) : Bool :=
  decide (row .role = role) && decide (row .vcat = vcat) && isKey .vname name row

/-- `CapsExpr`: the object's capabilities, else those of the longest schema above the name, else the
catalog's. -/
def capsOf (store : PolicyTables) (grant : Row) (object : Option Row) (vcat name : Text) : Option Text :=
  ((object.bind trimmedCaps).or
    ((store.schemaCapsRow ((textOf .role grant).getD []) vcat name).bind trimmedCaps)).or (textOf .caps grant)

/-- The rows of one pair: one for each grant of the role on the object, or one without. -/
def aliasRowsOf (store : PolicyTables) (vname : Text) (pair : AliasPair) : List AliasRow :=
  let vcat := (textOf .vcat pair.schema).getD []
  let name := pathCase vname pair.schema
  let row (object : Option Row) : AliasRow :=
    { role := pair.role
      caps := store.capsOf pair.grant object vcat name
      catalogLevel := levelOf pair.grant
      objectLevel := (object.map levelOf).getD noLevel
      qualified := isQualified vname pair.schema
      vcat := vcat
      aliasPath := pair.path
      physPath := (textOf .physPath pair.schema).getD [] }
  match (store.rows .roleObjectCaps).filter (objectGrantOn (pair.grant .role) (pair.schema .vcat) name) with
  | [] => [row none]
  | objects => objects.map fun object => row (some object)

/-- The rows the query of `LookupSchemaAlias` answers. -/
def aliasQuery (store : PolicyTables) (roles : List Text) (vname : Text) : List AliasRow :=
  (store.orderedPairs roles vname).flatMap (store.aliasRowsOf vname)

/-- The rows of the alias that wins, which are united. -/
def winningRows (first : AliasRow) (rows : List AliasRow) : List AliasRow :=
  rows.filter fun row => row.qualified == first.qualified && decide (row.vcat = first.vcat) &&
    decide (row.aliasPath = first.aliasPath)

end PolicyTables

end DuckAcl
