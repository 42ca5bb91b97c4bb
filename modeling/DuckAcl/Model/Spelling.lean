import Mathlib
import DuckAcl.Library.Outcome
import DuckAcl.Model.NameKeys
import DuckAcl.Model.PolicyTables

/-! # One spelling per name

`CatalogBackend::Spell`, what reads the stored names for it, and the statements that store what it answers
(`acl_catalog_admin.cpp`, `acl_admin_functions.cpp`). A catalog's names are the keys of its relations, functions and
schemas and those that its object and schema grants are written on.
-/

namespace DuckAcl

open NamePath

/-- The spellings that the stored names have for the next part after some parts, in the set's order. -/
def spellings (stored : List (List Text)) (before : List Text) (part : Text) : List Text :=
  ((stored.filter fun name => decide ((name.take (before.length + 1)).map Text.fold = (before ++ [part]).map Text.fold)).filterMap
    (·[before.length]?)).dedup.mergeSort fun a b => decide (a ≤ b)

/-- The loop of `Spell`: the parts before, as the names spell them, and the parts left, as written. -/
def spellFrom (stored : List (List Text)) (creating : Bool) (what key : Text) : List Text → List Text → Except Text (List Text)
  | before, [] => .ok before
  | before, part :: left =>
    match spellings stored before part with
    | [] => .ok (before ++ part :: left)
    | [spelled] =>
      if creating ∧ left = [] ∧ spelled ≠ part then
        .error ("acl admin: ".toList ++ what ++ " \"".toList ++ key ++ "\" differs only by case from the existing \"".toList ++
          toKey (before ++ [spelled]) ++ "\" - names compare case-insensitively, as duckdb's catalog does (spec 116)".toList)
      else spellFrom stored creating what key (before ++ [spelled]) left
    | several => .error ("acl admin: the policy spells \"".toList ++ part ++ "\" several ways (".toList ++
        ", ".toList.intercalate several ++
        ") - names compare case-insensitively (spec 116); drop or rename all but one first".toList)

/-- `CatalogBackend::Spell`. -/
def spell (key : Text) (names : List Text) (creating : Bool) (what : Text) : Except Text Text :=
  match fromKey key with
  | none => .ok key
  | some path => (spellFrom (names.filterMap fromKey) creating what key [] path).map toKey

/-- `NamesUnder`: the names that are a first part, or lie under it. -/
def namesUnder (names : List Text) (first : Text) : List Text :=
  names.filter fun name => Text.ciEquals name first || Text.isUnder name first

/-- `StoredName`. -/
def storedName (names : List Text) (key : Text) (creating : Bool) : Except Text Text :=
  if key = [] then .ok key
  else
    match fromKey key with
    | none => .ok key
    | some path => spell key (namesUnder names (quotePart (path.headD []))) creating "name".toList

/-- `CaseSibling`. -/
def caseSibling (key : Text) (names : List Text) : Bool := (spell key names true "name".toList).toOption.isNone

/-! ## The statements that store names -/

/-- The names of a catalog, by the table they are in, with the sources of expansions. -/
structure CatalogNames where
  relations : List (Text × Option Text) := []
  functions : List Text := []
  schemas : List (Text × Option Text) := []
  objectCaps : List Text := []
  schemaCaps : List Text := []
  dropped : List (Text × Text) := []

namespace CatalogNames

def names (catalog : CatalogNames) : List Text :=
  catalog.relations.map Prod.fst ++ catalog.functions ++ catalog.schemas.map Prod.fst ++ catalog.objectCaps ++ catalog.schemaCaps

/-- A relation's record, in place of one of the same name. -/
def putRelation (relations : List (Text × Option Text)) (vname : Text) (origin : Option Text) : List (Text × Option Text) :=
  relations.filter (fun relation => decide (relation.1 ≠ vname)) ++ [(vname, origin)]

/-- The loop over a source's objects: each one that is no sibling of a stored name, and that the statement's own read does not
find, is recorded and is a stored name from then on. -/
def recordObjects (path origin : Text) (known : Text → Bool) :
    List Text → List Text → List (Text × Option Text) → List (Text × Option Text)
  | [], _, relations => relations
  | name :: objects, stored, relations =>
    let vname := childKey path name
    if caseSibling vname stored ∨ known name then recordObjects path origin known objects stored relations
    else recordObjects path origin known objects (stored ++ [vname]) (putRelation relations vname (some origin))

/-- `CatalogAddSchemaAlias`. -/
def addSchemaAlias (catalog : CatalogNames) (path : Text) (origin : Option Text) : CatalogNames :=
  { catalog with schemas := catalog.schemas.filter (fun schema => decide (schema.1 ≠ path)) ++ [(path, origin)] }

/-- `CatalogExpandSchema`, with the objects that `PhysicalObjects` lists. -/
def expandSchema (catalog : CatalogNames) (path phys : Text) (objects : List Text) : Except Text CatalogNames :=
  let catalog := catalog.addSchemaAlias path (some phys)
  match fromKey path with
  | none => .error ("acl: a name is not a valid name: ".toList ++ path)
  | some parts =>
    .ok { catalog with
      relations := recordObjects path phys (fun name => (catalog.relations.map Prod.fst).contains (childKey path name)) objects
        (namesUnder catalog.names (quotePart (parts.headD []))) catalog.relations
      dropped := catalog.dropped.filter fun gone => decide (gone.1 ≠ path) }

/-- The record comes from the source, lies in the schema, and its object is gone. -/
def isStale (path origin : Text) (objects : List Text) (relation : Text × Option Text) : Bool :=
  decide (relation.2 = some origin) && Text.isUnder relation.1 path && decide ((splitLeaf relation.1).1 = path) &&
    !objects.contains (splitLeaf relation.1).2

/-- `CatalogRefreshSchemaObjects`, with the objects that `PhysicalObjects` lists. -/
def refreshSchemaObjects (catalog : CatalogNames) (path : Text) (prune : Bool) (objects : List Text) : Except Text CatalogNames :=
  match catalog.schemas.find? fun schema => decide (schema.1 = path) with
  | none => .error ("acl admin: schema \"".toList ++ path ++ "\" does not exist".toList)
  | some (_, none) => .error ("acl admin: schema \"".toList ++ path ++
      "\" is a live alias, so it has nothing to refresh - it already shows what the source holds".toList)
  | some (_, some origin) =>
    match fromKey path with
    | none => .error ("acl: a name is not a valid name: ".toList ++ path)
    | some parts =>
      let relations := recordObjects path origin (fun name =>
          (catalog.relations.map Prod.fst).contains (childKey path name) || catalog.dropped.contains (path, name)) objects
        (namesUnder catalog.names (quotePart (parts.headD []))) catalog.relations
      let stale := (catalog.relations.filter (isStale path origin objects)).map Prod.fst
      if prune then
        .ok { catalog with
          relations := relations.filter fun relation => !stale.contains relation.1
          objectCaps := catalog.objectCaps.filter fun name => !stale.contains name }
      else .ok { catalog with relations }

end CatalogNames

/-- A statement that stores a name. Its key is `KeyArg`'s, and whether it creates is its mode; one that its mode skips is none. -/
inductive NameStatement where
  | addRelation (creating : Bool)
  | addFunction (creating : Bool)
  | addSchemaAlias (creating : Bool)
  | grantObject
  | grantSchema
  | expandSchema (creating : Bool) (phys : Text) (objects : List Text)
  | refreshSchemaObjects (prune : Bool) (objects : List Text)

namespace CatalogNames

/-- A statement on a name, from its text to what is stored. -/
def execute (catalog : CatalogNames) (name : Text) (statement : NameStatement) : Except Text CatalogNames :=
  match fromKey name with
  | none => .error ("the name \"".toList ++ name ++ "\" is not a name".toList)
  | some parts => do
    let key := toKey parts
    match statement with
    | .addRelation creating =>
      let vname ← storedName catalog.names key creating
      return { catalog with relations := putRelation catalog.relations vname none }
    | .addFunction creating =>
      let vname ← storedName catalog.names key creating
      return { catalog with functions := catalog.functions ++ [vname] }
    | .addSchemaAlias creating => return catalog.addSchemaAlias (← storedName catalog.names key creating) none
    | .grantObject =>
      let vname ← storedName catalog.names key false
      return { catalog with objectCaps := catalog.objectCaps ++ [vname] }
    | .grantSchema =>
      let path ← storedName catalog.names key false
      return { catalog with schemaCaps := catalog.schemaCaps ++ [path] }
    | .expandSchema creating phys objects => catalog.expandSchema (← storedName catalog.names key creating) phys objects
    | .refreshSchemaObjects prune objects => catalog.refreshSchemaObjects (← storedName catalog.names key false) prune objects

/-- A run of statements; one that throws stores nothing. -/
def run (catalog : CatalogNames) (statements : List (Text × NameStatement)) : CatalogNames :=
  statements.foldl (fun catalog statement => ((catalog.execute statement.1 statement.2).toOption).getD catalog) catalog

end CatalogNames

end DuckAcl
