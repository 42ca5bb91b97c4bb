import DuckAcl.Model.AliasQuery
import DuckAcl.Soundness.RelationRemoval

/-! # The grants of an object below a schema alias

A name below a live alias is an object of the alias's catalog: the alias's path and the tail below it.
The rows a resolution unites should carry what is stated for that object. They carry what is stated for
the path the query looks up, which is the object's in either reading of the name, with one exception:
where the name is read in MAIN although its first part is MAIN's own name, the query drops that part.
-/

namespace DuckAcl

open NamePath

namespace PolicyTables

/-! ## Names up to case -/

private theorem isUnder_congr {name name' : Text} (same : Text.fold name = Text.fold name') (path : Text) :
    Text.isUnder name path = Text.isUnder name' path := by
  have taken : ∀ count, Text.fold (name.take count) = Text.fold (name'.take count) := by
    intro count
    simp only [Text.fold, List.map_take] at same ⊢
    rw [same]
  simp only [Text.isUnder, Text.ciEquals, taken]

private theorem isKey_congr {name name' : Text} (same : Text.fold name = Text.fold name') (cell : Column) (row : Row) :
    isKey cell name row = isKey cell name' row := by
  unfold isKey
  split
  · simp only [Text.ciEquals, same]
  · rfl

private theorem capsOf_congr {name name' : Text} (same : Text.fold name = Text.fold name') (store : PolicyTables)
    (grant : Row) (object : Option Row) (vcat : Text) :
    store.capsOf grant object vcat name = store.capsOf grant object vcat name' := by
  have covers : ∀ role, coversName role vcat name = coversName role vcat name' := by
    intro role
    funext row
    simp only [coversName, isUnder_congr same]
  simp only [capsOf, schemaCapsRow, covers]

/-! ## The object a name means -/

/-- The tail below an alias completes its path to the name. -/
theorem fold_joinKeys_tail {above parts : List Text} (schema : IsName above) (name : IsName parts)
    (under : Text.isUnder (toKey parts) (toKey above) = true) :
    ∃ tail, PolicyEngine.tailBelow (toKey above) (toKey parts) = .ok (some tail) ∧
      Text.fold (joinKeys (toKey above) tail) = Text.fold (toKey parts) := by
  have folded : ∀ {parts : List Text}, IsName parts → IsName (parts.map Text.fold) := by
    rintro parts ⟨some, given⟩
    refine ⟨by simpa using some, fun part member => ?_⟩
    obtain ⟨part, held, rfl⟩ := List.mem_map.mp member
    exact mt Text.fold_eq_nil.mp (given part held)
  obtain ⟨later, some, split⟩ : ∃ later, later ≠ [] ∧ parts.map Text.fold = above.map Text.fold ++ later := by
    rw [Text.isUnder, Text.ciEquals_iff] at under
    have start : (Text.fold (toKey parts)).take ((toKey above).length + 1) = Text.fold (toKey above) ++ ['.'] := by
      simpa [Text.fold, List.map_take, show '.'.toLower = '.' from rfl] using under
    have starts : Text.fold (toKey parts) =
        Text.fold (toKey above) ++ '.' :: (Text.fold (toKey parts)).drop ((toKey above).length + 1) := by
      conv_lhs => rw [← List.take_append_drop ((toKey above).length + 1) (Text.fold (toKey parts)), start]
      simp
    rw [← toKey_fold, ← toKey_fold] at starts
    exact parts_of_starts (folded schema) (folded name) starts
  have lengths : parts.length = above.length + later.length := by
    simpa using congrArg List.length split
  have positive : 0 < later.length := List.length_pos_of_ne_nil some
  have aboveSize : 0 < above.length := List.length_pos_of_ne_nil schema.1
  refine ⟨toKey (parts.drop above.length), ?_, ?_⟩
  · rw [PolicyEngine.tailBelow, fromKey_toKey name, keySize_toKey schema]
    dsimp only
    rw [if_neg (by omega)]
  · have rest : parts.drop above.length ≠ [] := by
      rw [ne_eq, List.drop_eq_nil_iff]
      omega
    have below : IsName (parts.drop above.length) := ⟨rest, fun part member => name.2 part (List.mem_of_mem_drop member)⟩
    rw [joinKeys, if_neg (toKey_ne_nil schema), if_neg (toKey_ne_nil below), ← toKey_append schema.1 rest, ← toKey_fold,
      ← toKey_fold, List.map_append, List.map_drop, split]
    congr 2
    rw [← List.length_map Text.fold, List.drop_left]

/-! ## What is stated for an object -/

/-- The row's capabilities and policy are those stated for its role on the object: the object's grant,
else the longest schema grant above it, else the catalog's. -/
def StatedFor (store : PolicyTables) (row : GrantRow) (vcat name : Text) : Prop :=
  ∃ grant ∈ store.rows .roleCatalogs, grant .role = .text row.role ∧ grant .vcat = .text vcat ∧
    row.catalogLevel = levelOf grant ∧
    ∃ object : Option Row,
      (match object with
        | some held => held ∈ store.rows .roleObjectCaps ∧ objectGrantOn (.text row.role) (.text vcat) name held = true
        | none => ∀ held ∈ store.rows .roleObjectCaps, objectGrantOn (.text row.role) (.text vcat) name held = false) ∧
      row.objectLevel = (object.map levelOf).getD noLevel ∧ row.caps = store.capsOf grant object vcat name

theorem StatedFor.congr {store : PolicyTables} {row : GrantRow} {vcat name name' : Text}
    (same : Text.fold name = Text.fold name') (stated : store.StatedFor row vcat name) : store.StatedFor row vcat name' := by
  obtain ⟨grant, held, role, cat, level, object, on, objectLevel, caps⟩ := stated
  have grants : ∀ row', objectGrantOn (.text row.role) (.text vcat) name row' =
      objectGrantOn (.text row.role) (.text vcat) name' row' := by
    intro row'
    simp only [objectGrantOn, isKey_congr same]
  refine ⟨grant, held, role, cat, level, object, ?_, objectLevel, ?_⟩
  · cases object with
    | none => exact fun other member => (grants other).symm.trans (on other member)
    | some other => exact ⟨on.1, (grants other).symm.trans on.2⟩
  · rw [caps, capsOf_congr same]

/-- Every schema of the store is in a catalog and has a key for its path. -/
def NamedSchemas (store : PolicyTables) : Prop :=
  ∀ row ∈ store.rows .schemas, ∃ vcat parts, row .vcat = .text vcat ∧ IsName parts ∧ row .path = .text (toKey parts)

/-- The rows a resolution unites carry what is stated for the object it resolves. -/
def AppliesOwnGrants (store : PolicyTables) (roles : List Text) (vname : Text) : Prop :=
  ∀ first rest tail, store.aliasQuery roles vname = first :: rest →
    PolicyEngine.tailBelow first.aliasPath (PolicyEngine.writtenPath first vname) = .ok (some tail) →
    ∀ row ∈ winningRows first (first :: rest),
      store.StatedFor row.toGrantRow first.vcat (joinKeys first.aliasPath tail)

/-- The name is read in MAIN, and its first part is MAIN's name. -/
def Misread (store : PolicyTables) (roles : List Text) (vname : Text) : Prop :=
  ∃ pair rest, store.orderedPairs roles vname = pair :: rest ∧ isQualified vname pair.schema = false ∧
    isKey .vcat (splitHeadKey vname).1 pair.schema = true

theorem pathCase_eq (vname : Text) (schema : Row) : pathCase vname schema =
    if isKey .vcat (splitHeadKey vname).1 schema then (splitHeadKey vname).2 else vname := rfl

/-! ## The rows of a pair -/

section Rows

variable {store : PolicyTables} {roles : List Text} {vname : Text} {pair : AliasPair}

private theorem mem_aliasPairs (member : pair ∈ store.aliasPairs roles vname) :
    pair.schema ∈ store.rows .schemas ∧ pair.grant ∈ store.rows .roleCatalogs ∧
      (∃ role, pair.grant .role = .text role) ∧ pair.grant .vcat = pair.schema .vcat ∧
      (isQualified vname pair.schema = true ∨ liesUnder vname pair.schema = true) := by
  simp only [aliasPairs, List.mem_flatMap, List.mem_map, List.mem_filter] at member
  obtain ⟨schema, live, grant, ⟨⟨granted, cat⟩, reads⟩, rfl⟩ := member
  obtain ⟨held, among⟩ := List.mem_filter.mp granted
  obtain ⟨role, _, isRole⟩ := List.any_eq_true.mp among
  refine ⟨(List.mem_filter.mp live).1, held, ⟨role, is_iff.mp isRole⟩, of_decide_eq_true cat, ?_⟩
  rw [Bool.or_eq_true, Bool.and_eq_true] at reads
  exact reads.imp_right fun main => main.2

private theorem mem_orderedPairs : pair ∈ store.orderedPairs roles vname ↔ pair ∈ store.aliasPairs roles vname :=
  (List.perm_insertionSort _ _).mem_iff

/-- What the rows of a pair say of the alias, and of the role on the path they are looked up under. -/
private theorem mem_aliasRowsOf {row : AliasRow} {vcat role : Text} (cat : pair.schema .vcat = .text vcat)
    (granted : pair.grant ∈ store.rows .roleCatalogs) (isRole : pair.grant .role = .text role)
    (sameCat : pair.grant .vcat = pair.schema .vcat) (member : row ∈ store.aliasRowsOf vname pair) :
    row.role = role ∧ row.qualified = isQualified vname pair.schema ∧ row.vcat = vcat ∧ row.aliasPath = pair.path ∧
      store.StatedFor row.toGrantRow vcat (pathCase vname pair.schema) := by
  have catText : (textOf .vcat pair.schema).getD [] = vcat := by
    simp [textOf, cat]
  have roleText : pair.role = role := by
    simp [AliasPair.role, textOf, isRole]
  have stated : ∀ (row : GrantRow) (object : Option Row), row.role = role → row.catalogLevel = levelOf pair.grant →
      row.objectLevel = (object.map levelOf).getD noLevel →
      row.caps = store.capsOf pair.grant object vcat (pathCase vname pair.schema) →
      (match object with
        | some held => held ∈ store.rows .roleObjectCaps ∧
          objectGrantOn (.text role) (.text vcat) (pathCase vname pair.schema) held = true
        | none => ∀ held ∈ store.rows .roleObjectCaps,
          objectGrantOn (.text role) (.text vcat) (pathCase vname pair.schema) held = false) →
      store.StatedFor row vcat (pathCase vname pair.schema) := by
    rintro row object rfl level objectLevel caps on
    exact ⟨pair.grant, granted, isRole, sameCat.trans cat, level, object, on, objectLevel, caps⟩
  simp only [aliasRowsOf, catText, isRole, cat] at member
  cases objects : (store.rows .roleObjectCaps).filter
      (objectGrantOn (.text role) (.text vcat) (pathCase vname pair.schema)) with
  | nil =>
    rw [objects] at member
    rw [List.mem_singleton.mp member]
    refine ⟨roleText, rfl, rfl, rfl, stated _ none roleText rfl rfl rfl ?_⟩
    intro held listed
    simpa using List.filter_eq_nil_iff.mp objects held listed
  | cons object others =>
    rw [objects] at member
    obtain ⟨held, listed, rfl⟩ := List.mem_map.mp member
    rw [← objects, List.mem_filter] at listed
    exact ⟨roleText, rfl, rfl, rfl, stated _ (some held) roleText rfl rfl rfl listed⟩

private theorem aliasRowsOf_ne_nil : store.aliasRowsOf vname pair ≠ [] := by
  unfold aliasRowsOf
  dsimp only
  split
  · simp
  · next some =>
    simpa using some

/-- The first row of the query is one of its first pair's. -/
private theorem aliasQuery_first {first : AliasRow} {rest : List AliasRow}
    (rows : store.aliasQuery roles vname = first :: rest) :
    ∃ pair more, store.orderedPairs roles vname = pair :: more ∧ first ∈ store.aliasRowsOf vname pair := by
  unfold aliasQuery at rows
  cases pairs : store.orderedPairs roles vname with
  | nil =>
    rw [pairs] at rows
    cases rows
  | cons pair more =>
    refine ⟨pair, more, rfl, ?_⟩
    rw [pairs, List.flatMap_cons] at rows
    obtain ⟨head, tail, some⟩ := List.exists_cons_of_ne_nil (@aliasRowsOf_ne_nil store vname pair)
    rw [some, List.cons_append] at rows
    rw [some, ← (List.cons.inj rows).1]
    exact List.mem_cons_self

end Rows

/-! ## When the grants are the object's -/

/-- The same catalogs, schemas and catalog grants, with the object and schema grants of another store. -/
def regranted (store other : PolicyTables) : PolicyTables where
  rows
    | .roleObjectCaps => other.rows .roleObjectCaps
    | .roleSchemas => other.rows .roleSchemas
    | table => store.rows table
  own := by
    rintro (_ | _)
    case roleObjectCaps => exact other.own .roleObjectCaps
    case roleSchemas => exact other.own .roleSchemas
    all_goals exact store.own _

section Grants

variable {store : PolicyTables} {roles parts : List Text}

/-- Which aliases match does not depend on the object and schema grants. -/
private theorem orderedPairs_regranted (store other : PolicyTables) (roles : List Text) (vname : Text) :
    (store.regranted other).orderedPairs roles vname = store.orderedPairs roles vname := rfl

private theorem splitHeadKey_toKey {parts : List Text} (name : IsName parts) :
    (splitHeadKey (toKey parts) = ([], []) ∧ ∃ part, parts = [part]) ∨
      ∃ head rest, parts = head :: rest ∧ IsName rest ∧ splitHeadKey (toKey parts) = (quotePart head, toKey rest) := by
  unfold splitHeadKey
  rw [fromKey_toKey name]
  match parts with
  | [] => exact absurd rfl name.1
  | [part] => exact .inl ⟨rfl, part, rfl⟩
  | head :: second :: rest =>
    exact .inr ⟨head, second :: rest, rfl,
      ⟨by simp, fun part member => name.2 part (List.mem_cons_of_mem _ member)⟩, rfl⟩

/-- The path a name is read as, below the alias it lies under. -/
private theorem reads_under {above : List Text} {schema : Row} (named : IsName above)
    (path : schema .path = .text (toKey above)) (name : IsName parts)
    (reads : isQualified (toKey parts) schema = true ∨ liesUnder (toKey parts) schema = true) {first : AliasRow}
    (qualified : first.qualified = isQualified (toKey parts) schema) (aliasPath : first.aliasPath = toKey above) :
    ∃ tail, PolicyEngine.tailBelow first.aliasPath (PolicyEngine.writtenPath first (toKey parts)) = .ok (some tail) ∧
      Text.fold (joinKeys first.aliasPath tail) = Text.fold (PolicyEngine.writtenPath first (toKey parts)) := by
  rw [PolicyEngine.writtenPath, qualified, aliasPath]
  cases isQual : isQualified (toKey parts) schema with
  | true =>
    rw [if_pos rfl]
    rcases splitHeadKey_toKey name with ⟨single, _⟩ | ⟨head, rest, _, restNamed, split⟩
    · simp [isQualified, single] at isQual
    · have under : Text.isUnder (toKey rest) (toKey above) = true := by
        simp only [isQualified, split, Bool.and_eq_true, liesUnder, path] at isQual
        exact isQual.2
      rw [split]
      exact fold_joinKeys_tail named restNamed under
  | false =>
    have under : Text.isUnder (toKey parts) (toKey above) = true := by
      rcases reads with yes | lies
      · cases isQual.symm.trans yes
      · simpa only [liesUnder, path] using lies
    exact fold_joinKeys_tail named name under

/-- Where the name is not misread, the rows carry the object's grants. -/
theorem applies_of_read (named : NamedSchemas store) (name : IsName parts)
    (reads : ¬ Misread store roles (toKey parts)) (other : PolicyTables) :
    AppliesOwnGrants (store.regranted other) roles (toKey parts) := by
  intro first rest tail rows cut row member
  obtain ⟨pair, more, pairs, firstIn⟩ := aliasQuery_first rows
  obtain ⟨rowIn, same⟩ := List.mem_filter.mp member
  rw [← rows, aliasQuery, List.mem_flatMap] at rowIn
  obtain ⟨pair', pairIn, rowIn⟩ := rowIn
  simp only [Bool.and_eq_true, beq_iff_eq, decide_eq_true_eq] at same
  have facts : ∀ pair ∈ (store.regranted other).orderedPairs roles (toKey parts), ∀ row ∈
      (store.regranted other).aliasRowsOf (toKey parts) pair, ∃ vcat above, pair.schema .vcat = .text vcat ∧ IsName above ∧
        pair.schema .path = .text (toKey above) ∧
        (isQualified (toKey parts) pair.schema = true ∨ liesUnder (toKey parts) pair.schema = true) ∧
        row.qualified = isQualified (toKey parts) pair.schema ∧ row.vcat = vcat ∧ row.aliasPath = toKey above ∧
        (store.regranted other).StatedFor row.toGrantRow vcat (pathCase (toKey parts) pair.schema) := by
    intro pair listed row rowIn
    obtain ⟨schema, granted, ⟨role, isRole⟩, sameCat, reading⟩ := mem_aliasPairs (mem_orderedPairs.mp listed)
    obtain ⟨vcat, above, cat, isName, path⟩ := named pair.schema schema
    obtain ⟨_, qualified, isCat, isPath, stated⟩ := mem_aliasRowsOf cat granted isRole sameCat rowIn
    refine ⟨vcat, above, cat, isName, path, reading, qualified, isCat, isPath.trans ?_, stated⟩
    simp [AliasPair.path, textOf, path]
  obtain ⟨vcat, above, cat, isName, path, reading, qualified, isCat, isPath, _⟩ :=
    facts pair (by rw [pairs]; exact List.mem_cons_self) first firstIn
  obtain ⟨vcat', _, cat', _, _, _, qualified', isCat', _, stated⟩ := facts pair' pairIn row rowIn
  obtain ⟨found, cut', folded⟩ := reads_under isName path name reading qualified isPath
  obtain rfl : found = tail := by
    rw [cut] at cut'
    exact (Option.some.inj (Except.ok.inj cut')).symm
  have sameCat : vcat' = vcat := by
    rw [← isCat, ← isCat', same.1.2]
  subst sameCat
  have sameKey : isKey .vcat (splitHeadKey (toKey parts)).1 pair'.schema =
      isKey .vcat (splitHeadKey (toKey parts)).1 pair.schema := by
    simp only [isKey, cat, cat']
  -- the path the grants are looked up under is the one the name is read as
  have looked : pathCase (toKey parts) pair'.schema = PolicyEngine.writtenPath first (toKey parts) := by
    rw [PolicyEngine.writtenPath, pathCase_eq, qualified, sameKey]
    cases isQual : isQualified (toKey parts) pair.schema with
    | true =>
      simp only [isQualified, Bool.and_eq_true] at isQual
      rw [if_pos isQual.1.2, if_pos rfl]
    | false =>
      have unread : isKey .vcat (splitHeadKey (toKey parts)).1 pair.schema = false := by
        by_contra key
        rw [Bool.not_eq_false] at key
        exact reads ⟨pair, more, pairs, isQual, key⟩
      simp [unread]
  rw [isCat]
  refine StatedFor.congr ?_ stated
  rw [looked, folded]

/-- A grant of the role on an object, with a row filter. -/
def objectGrant (role vcat name rls : Text) : PolicyTables :=
  .of [(.roleObjectCaps, [(.role, .text role), (.vcat, .text vcat), (.vname, .text name), (.rls, .text rls)])]

/-- Where the name is misread, a grant on the object is not applied. -/
theorem misread_fails (named : NamedSchemas store) (name : IsName parts) (misread : Misread store roles (toKey parts)) :
    ∃ other, ¬ AppliesOwnGrants (store.regranted other) roles (toKey parts) := by
  obtain ⟨pair, more, pairs, unqualified, key⟩ := misread
  have listed : pair ∈ store.orderedPairs roles (toKey parts) := by
    rw [pairs]
    exact List.mem_cons_self
  obtain ⟨schema, granted, ⟨role, isRole⟩, sameCat, reading⟩ := mem_aliasPairs (mem_orderedPairs.mp listed)
  obtain ⟨vcat, above, cat, isName, path⟩ := named pair.schema schema
  refine ⟨objectGrant role vcat (toKey parts) "false".toList, fun applies => ?_⟩
  let regrants := store.regranted (objectGrant role vcat (toKey parts) "false".toList)
  obtain ⟨first, later, rowsOf⟩ := List.exists_cons_of_ne_nil (@aliasRowsOf_ne_nil regrants (toKey parts) pair)
  have rows : regrants.aliasQuery roles (toKey parts) =
      first :: (later ++ more.flatMap (regrants.aliasRowsOf (toKey parts))) := by
    rw [aliasQuery, orderedPairs_regranted, pairs, List.flatMap_cons, rowsOf, List.cons_append]
  have firstIn : first ∈ regrants.aliasRowsOf (toKey parts) pair := by
    rw [rowsOf]
    exact List.mem_cons_self
  have grantedThere : pair.grant ∈ regrants.rows .roleCatalogs := granted
  obtain ⟨firstRole, qualified, isCat, isPath, looked⟩ := mem_aliasRowsOf cat grantedThere isRole sameCat firstIn
  have aliasPath : first.aliasPath = toKey above := by
    rw [isPath]
    simp [AliasPair.path, textOf, path]
  obtain ⟨tail, cut, folded⟩ := reads_under isName path name reading qualified aliasPath
  have stated := applies first _ tail rows cut first (by simp [winningRows])
  rw [isCat] at stated
  have written : PolicyEngine.writtenPath first (toKey parts) = toKey parts := by
    rw [PolicyEngine.writtenPath, qualified, unqualified]
    rfl
  rw [written] at folded
  replace stated := StatedFor.congr folded stated
  -- the grant is on the whole name, and the query looks under the name without its first part
  have only : ∀ held ∈ regrants.rows .roleObjectCaps, held = TableName.roleObjectCaps.row
      [(.role, .text role), (.vcat, .text vcat), (.vname, .text (toKey parts)), (.rls, .text "false".toList)] := by
    intro held member
    simpa [regrants, regranted, objectGrant, PolicyTables.of] using member
  have there : TableName.roleObjectCaps.row [(.role, .text role), (.vcat, .text vcat), (.vname, .text (toKey parts)),
      (.rls, .text "false".toList)] ∈ regrants.rows .roleObjectCaps := by
    simp [regrants, regranted, objectGrant, PolicyTables.of]
  have on : ∀ path, objectGrantOn (.text role) (.text vcat) path (TableName.roleObjectCaps.row
      [(.role, .text role), (.vcat, .text vcat), (.vname, .text (toKey parts)), (.rls, .text "false".toList)]) =
      Text.ciEquals (toKey parts) path := by
    intro path
    simp [objectGrantOn, isKey, TableName.row, TableName.columns]
  have filtered : first.objectLevel.rls = "false".toList := by
    obtain ⟨_, _, _, _, _, object, applied, level, _⟩ := stated
    rw [firstRole] at applied
    cases object with
    | none =>
      have missed := applied _ there
      rw [on, Text.ciEquals_refl] at missed
      cases missed
    | some held =>
      rw [level, only held applied.1]
      simp [levelOf, textOf, TableName.row, TableName.columns]
  have open' : first.objectLevel.rls = [] := by
    obtain ⟨_, _, _, _, _, object, applied, level, _⟩ := looked
    rw [firstRole, pathCase_eq, if_pos key] at applied
    cases object with
    | none =>
      rw [level]
      rfl
    | some held =>
      have same := applied.2
      rw [only held applied.1, on, Text.ciEquals_iff] at same
      have lengths := congrArg List.length same
      rw [Text.length_fold, Text.length_fold] at lengths
      have positive := List.length_pos_of_ne_nil (toKey_ne_nil name)
      rcases splitHeadKey_toKey name with ⟨single, _⟩ | ⟨head, rest, rfl, restNamed, split⟩
      · rw [single] at lengths
        simp only [List.length_nil] at lengths
        omega
      · rw [split] at lengths
        dsimp only at lengths
        rw [← List.singleton_append, toKey_append (by simp) restNamed.1, List.length_append, List.length_cons] at lengths
        omega
  rw [filtered] at open'
  cases open'

/-- Whatever is granted on schemas and objects, a name below an alias is read under the grants of the
object it resolves to, unless it is misread. -/
theorem alias_grants_iff (store : PolicyTables) (named : NamedSchemas store) (roles parts : List Text)
    (name : IsName parts) :
    (∀ other, AppliesOwnGrants (store.regranted other) roles (toKey parts)) ↔ ¬ Misread store roles (toKey parts) := by
  constructor
  · intro applies misread
    obtain ⟨other, fails⟩ := misread_fails named name misread
    exact fails (applies other)
  · exact fun reads other => applies_of_read named name reads other

end Grants

/-- A MAIN catalog with an alias that bears its name. -/
def salesAlias : PolicyTables := .of
  [(.roleCatalogs, [(.role, .text "r".toList), (.vcat, .text "sales".toList), (.isMain, .boolean true)]),
   (.schemas, [(.vcat, .text "sales".toList), (.path, .text "sales".toList), (.physPath, .text "db.main".toList)]),
   (.roleObjectCaps, [(.role, .text "r".toList), (.vcat, .text "sales".toList), (.vname, .text "sales.orders".toList),
      (.rls, .text "tenant = 1".toList)])]

theorem alias_grants_iff_sales :
    NamedSchemas salesAlias ∧ IsName ["sales".toList, "sales".toList, "orders".toList] ∧
      ((∀ other, AppliesOwnGrants (salesAlias.regranted other) ["r".toList]
          (toKey ["sales".toList, "sales".toList, "orders".toList])) ↔
        ¬ Misread salesAlias ["r".toList] (toKey ["sales".toList, "sales".toList, "orders".toList])) := by
  have named : NamedSchemas salesAlias := by
    intro row member
    obtain rfl : row = TableName.schemas.row [(.vcat, .text "sales".toList), (.path, .text "sales".toList),
        (.physPath, .text "db.main".toList)] := by
      simpa [salesAlias, PolicyTables.of] using member
    exact ⟨"sales".toList, ["sales".toList], rfl, ⟨by decide, by decide⟩, rfl⟩
  have name : IsName ["sales".toList, "sales".toList, "orders".toList] := ⟨by decide, by decide⟩
  exact ⟨named, name, alias_grants_iff salesAlias named ["r".toList] _ name⟩

/-- The row filter granted on an object is not applied where the name is read in MAIN and starts with
MAIN's name. -/
theorem alias_filter_not_applied : ¬ AppliesOwnGrants salesAlias ["r".toList] "sales.orders".toList := by
  intro applies
  obtain ⟨first, rows, unfiltered, path, role, cat, written⟩ :
      ∃ first, salesAlias.aliasQuery ["r".toList] "sales.orders".toList = [first] ∧ first.objectLevel.rls = [] ∧
        first.aliasPath = "sales".toList ∧ first.role = "r".toList ∧ first.vcat = "sales".toList ∧
        PolicyEngine.writtenPath first "sales.orders".toList = "sales.orders".toList := by
    refine ⟨_, rfl, ?_, ?_, ?_, ?_, ?_⟩ <;> decide
  have cut : PolicyEngine.tailBelow "sales".toList "sales.orders".toList = .ok (some "orders".toList) := by
    rfl
  have stated := applies first [] "orders".toList rows (by rw [path, written, cut]) first (by simp [winningRows])
  obtain ⟨_, _, _, _, _, object, applied, level, _⟩ := stated
  rw [role, cat, path] at applied
  cases object with
  | none =>
    have missed := applied (TableName.roleObjectCaps.row [(.role, .text "r".toList), (.vcat, .text "sales".toList),
      (.vname, .text "sales.orders".toList), (.rls, .text "tenant = 1".toList)]) (by simp [salesAlias, PolicyTables.of])
    revert missed
    decide
  | some held =>
    obtain rfl : held = TableName.roleObjectCaps.row [(.role, .text "r".toList), (.vcat, .text "sales".toList),
        (.vname, .text "sales.orders".toList), (.rls, .text "tenant = 1".toList)] := by
      simpa [salesAlias, PolicyTables.of] using applied.1
    rw [level] at unfiltered
    revert unfiltered
    decide

end PolicyTables

end DuckAcl
