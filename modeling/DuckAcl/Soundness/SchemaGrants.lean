import DuckAcl.Library.Outcome
import DuckAcl.Library.Runs
import DuckAcl.Model.SchemaGrants
import Mathlib.Data.List.Dedup

/-! # Schema capabilities are those of the nearest grant

What a schema inherits is materialised, so it is right only as long as every operation rebuilds the
rows it changes. The invariant says of every role and schema which row it has; each operation keeps
it, but for dropping a schema that others inherit from and for granting to a role whose name differs
from another one's only by case.
-/

namespace DuckAcl

namespace PolicyTables

/-! ## The nearest grant -/

/-- The grant of the longest path above the schema. -/
structure IsNearest (grants : List SchemaGrant) (schema : Text) (grant : SchemaGrant) : Prop where
  stated : grant ∈ grants
  above : isAncestor grant.path schema = true
  longest : ∀ other ∈ grants, isAncestor other.path schema = true → other.path.length ≤ grant.path.length

/-- The rows of a role on a schema. -/
def grantsAt (store : PolicyTables) (role vcat schema : Text) : List Row :=
  (store.rows .roleSchemas).filter (grantAt role vcat schema)

/-- The row of a role on a schema is its own, or the copy of the nearest one above, or absent. -/
def Inherits (store : PolicyTables) (role vcat schema : Text) : Prop :=
  (∃ row, store.grantsAt role vcat schema = [row] ∧ row .inherited = .boolean false) ∨
    (∀ grant ∈ store.stated vcat role, grant.path ≠ schema) ∧
      ((∃ row grant, store.grantsAt role vcat schema = [row] ∧ row .inherited = .boolean true ∧
          IsNearest (store.stated vcat role) schema grant ∧ SchemaGrant.ofRow row = { grant with path := schema }) ∨
        (store.grantsAt role vcat schema = [] ∧
          ∀ grant ∈ store.stated vcat role, isAncestor grant.path schema = false))

/-- A path above another is shorter, and another one. -/
theorem isAncestor_iff {path schema : Text} :
    isAncestor path schema = true ↔ ∃ rest, rest ≠ [] ∧ schema = path ++ '.' :: rest := by
  simp only [isAncestor, Bool.and_eq_true, decide_eq_true_eq, List.isPrefixOf_iff_prefix]
  constructor
  · rintro ⟨longer, rest, rfl⟩
    refine ⟨rest, ?_, by simp⟩
    rintro rfl
    simp at longer
  · rintro ⟨rest, some, rfl⟩
    have length := List.length_pos_iff.mpr some
    refine ⟨?_, rest, by simp⟩
    simp only [List.length_append, List.length_cons]
    omega

/-- The first of a role's grants, longest first, that is the schema's own or lies above it. -/
private theorem inheritedGrant_spec (schema : Text) {grants : List SchemaGrant}
    (sorted : grants.Pairwise fun a b => b.path.length ≤ a.path.length) :
    (∃ own ∈ grants, own.path = schema) ∧ inheritedGrant schema grants = none ∨
      (∀ grant ∈ grants, grant.path ≠ schema) ∧
        ((∃ nearest, IsNearest grants schema nearest ∧ inheritedGrant schema grants = some nearest) ∨
          (∀ grant ∈ grants, isAncestor grant.path schema = false) ∧ inheritedGrant schema grants = none) := by
  induction grants with
  | nil => exact .inr ⟨by simp, .inr ⟨by simp, rfl⟩⟩
  | cons first rest ih =>
    obtain ⟨shorter, sorted⟩ := List.pairwise_cons.mp sorted
    simp only [inheritedGrant]
    by_cases own : first.path = schema
    · rw [if_pos own]
      exact .inl ⟨⟨first, .head _, own⟩, rfl⟩
    · rw [if_neg own]
      by_cases above : isAncestor first.path schema = true
      · rw [if_pos above]
        have longer : first.path.length < schema.length := by
          obtain ⟨tail, _, rfl⟩ := isAncestor_iff.mp above
          simp
        refine .inr ⟨?_, .inl ⟨first, ⟨.head _, above, ?_⟩, rfl⟩⟩
        · -- the rest is no longer than a path above the schema
          intro grant held same
          rcases List.mem_cons.mp held with rfl | held
          · exact own same
          · have short := shorter grant held
            rw [same] at short
            omega
        · intro other held _
          rcases List.mem_cons.mp held with rfl | held
          · exact Nat.le_refl _
          · exact shorter other held
      · rw [if_neg above]
        rw [Bool.not_eq_true] at above
        rcases ih sorted with ⟨⟨grant, held, same⟩, none⟩ | ⟨others, found⟩
        · exact .inl ⟨⟨grant, .tail _ held, same⟩, none⟩
        · refine .inr ⟨?_, ?_⟩
          · intro grant held
            rcases List.mem_cons.mp held with rfl | held
            · exact own
            · exact others grant held
          · rcases found with ⟨nearest, ⟨stated, high, longest⟩, found⟩ | ⟨none, found⟩
            · refine .inl ⟨nearest, ⟨.tail _ stated, high, ?_⟩, found⟩
              intro other held high'
              rcases List.mem_cons.mp held with rfl | held
              · rw [above] at high'
                cases high'
              · exact longest other held high'
            · refine .inr ⟨?_, found⟩
              intro grant held
              rcases List.mem_cons.mp held with rfl | held
              · exact above
              · exact none grant held

/-- The order of the grants does not matter to which one is nearest. -/
private theorem IsNearest.perm {grants grants' : List SchemaGrant} {schema : Text} {grant : SchemaGrant}
    (nearest : IsNearest grants schema grant) (perm : grants.Perm grants') : IsNearest grants' schema grant :=
  ⟨perm.mem_iff.mp nearest.stated, nearest.above, fun other held => nearest.longest other (perm.mem_iff.mpr held)⟩

private theorem statedGrants_sorted (store : PolicyTables) (vcat role : Text) :
    (store.statedGrants vcat role).Pairwise fun a b => b.path.length ≤ a.path.length := by
  have : Std.Total fun a b : SchemaGrant => b.path.length ≤ a.path.length := ⟨fun a b => Nat.le_total _ _⟩
  have : IsTrans SchemaGrant fun a b => b.path.length ≤ a.path.length := ⟨fun a b c ab bc => Nat.le_trans bc ab⟩
  exact List.pairwise_insertionSort _ _

/-! ## The rows the materialisation leaves -/

/-- Rows inserted into a table come after those it has. -/
private theorem rows_inserts (store : PolicyTables) (table : TableName) (rows : List (List (Column × Value))) :
    (store.writeAll (rows.map (.insert table))).rows table = store.rows table ++ rows.map table.row := by
  induction rows generalizing store with
  | nil => simp [writeAll]
  | cons cells rows ih =>
    show ((store.insert table cells).writeAll (rows.map (.insert table))).rows table = _
    rw [ih]
    simp [insert]

/-- Inserts into one table leave the others. -/
private theorem rows_inserts_other (store : PolicyTables) {table other : TableName} (apart : other ≠ table)
    (rows : List (List (Column × Value))) :
    (store.writeAll (rows.map (.insert table))).rows other = store.rows other := by
  induction rows generalizing store with
  | nil => rfl
  | cons cells rows ih =>
    show ((store.insert table cells).writeAll (rows.map (.insert table))).rows other = _
    rw [ih]
    simp [insert, Function.update_of_ne apart]

variable {store : PolicyTables} {vcat path : Text}

private theorem rows_rematerialize :
    (store.rematerializeSchemaCaps vcat path).rows .roleSchemas =
      (store.rows .roleSchemas).filter (fun row => !(inheritedIn vcat row && inSubtree path .schemaPath row)) ++
        (store.inheritedRows vcat path).map TableName.roleSchemas.row := by
  show ((store.deleteAll [_]).writeAll _).rows _ = _
  rw [rows_inserts]
  congr 1

private theorem rows_rematerialize_other {table : TableName} (other : table ≠ .roleSchemas) :
    (store.rematerializeSchemaCaps vcat path).rows table = store.rows table := by
  show ((store.deleteAll [_]).writeAll _).rows _ = _
  rw [rows_inserts_other _ other]
  show store.rows.deleteAll [_] _ = _
  rw [Tables.deleteAll_apply]
  simp [Tables.hitBy, Ne.symm other]

/-- The cells of an inherited row. -/
private theorem inheritedRow_cells (role vcat schema : Text) (grant : SchemaGrant) :
    TableName.roleSchemas.row (inheritedCells role vcat schema grant) .role = .text role ∧
    TableName.roleSchemas.row (inheritedCells role vcat schema grant) .vcat = .text vcat ∧
    TableName.roleSchemas.row (inheritedCells role vcat schema grant) .schemaPath = .text schema ∧
    TableName.roleSchemas.row (inheritedCells role vcat schema grant) .inherited = .boolean true := by
  refine ⟨rfl, rfl, rfl, rfl⟩

/-- A cell written as `NULL` for an empty text reads back as the text. -/
private theorem textOf_textOrNull {row : Row} {cell : Column} {text : Text} (written : row cell = textOrNull text) :
    (textOf cell row).getD [] = text := by
  rw [textOf, written, textOrNull]
  split_ifs with empty
  · rw [empty]
    rfl
  · rfl

/-- An inherited row reads as the grant it copies. -/
private theorem ofRow_inherited (role vcat schema : Text) (grant : SchemaGrant) :
    SchemaGrant.ofRow (TableName.roleSchemas.row (inheritedCells role vcat schema grant)) =
      { grant with path := schema } := by
  have caps : (textOf .caps (TableName.roleSchemas.row (inheritedCells role vcat schema grant))).getD [] =
      grant.caps := textOf_textOrNull rfl
  have into : (textOf .into (TableName.roleSchemas.row (inheritedCells role vcat schema grant))).getD [] =
      grant.into := textOf_textOrNull rfl
  have only : decide (Value.boolean grant.virtualOnly = .boolean true) = grant.virtualOnly := by simp
  unfold SchemaGrant.ofRow
  rw [caps, into]
  congr 1

/-- What is inherited changes nothing that is stated. -/
private theorem filter_rematerialize_stated (vcat' : Text) (test : Row → Bool) :
    ((store.rematerializeSchemaCaps vcat path).rows .roleSchemas).filter (fun row => statedIn vcat' row && test row) =
      (store.rows .roleSchemas).filter (fun row => statedIn vcat' row && test row) := by
  rw [rows_rematerialize, List.filter_append, List.filter_filter]
  have kept : (store.rows .roleSchemas).filter (fun row => (statedIn vcat' row && test row) &&
      !(inheritedIn vcat row && inSubtree path .schemaPath row)) =
      (store.rows .roleSchemas).filter (fun row => statedIn vcat' row && test row) := by
    apply List.filter_congr
    intro row _
    by_cases own : row .inherited = .boolean true
    · simp [statedIn, own]
    · simp [inheritedIn, own]
  have none : ((store.inheritedRows vcat path).map TableName.roleSchemas.row).filter
      (fun row => statedIn vcat' row && test row) = [] := by
    rw [List.filter_eq_nil_iff]
    intro row held
    obtain ⟨cells, listed, rfl⟩ := List.mem_map.mp held
    simp only [inheritedRows, List.mem_flatMap, List.mem_filterMap, Option.map_eq_some_iff] at listed
    obtain ⟨schema, _, role, _, grant, _, rfl⟩ := listed
    simp [statedIn, (inheritedRow_cells role vcat schema grant).2.2.2]
  rw [kept, none, List.append_nil]

private theorem stated_rematerialize (vcat' role : Text) :
    (store.rematerializeSchemaCaps vcat path).stated vcat' role = store.stated vcat' role := by
  unfold stated
  rw [filter_rematerialize_stated]

/-! ## The invariant -/

/-- The schema is the path or lies below it, up to case. -/
def within (path schema : Text) : Bool :=
  decide (path = []) || decide (schema = path) || Text.isUnder schema path

/-- The schemas of a catalog. -/
def schemaPaths (store : PolicyTables) (vcat : Text) : List Text :=
  ((store.rows .schemas).filter (·.is .vcat vcat)).filterMap (textOf .path)

/-- What holds of the rows of `role_schemas` whatever is inherited: they are of roles on schemas, one
stated row for each, and the roles that state capabilities are told apart up to case. -/
structure StatedRows (store : PolicyTables) : Prop where
  typed : ∀ row ∈ store.rows .roleSchemas, (∃ role, row .role = .text role) ∧
    (∃ vcat schema, row .vcat = .text vcat ∧ row .schemaPath = .text schema ∧ schema ∈ store.schemaPaths vcat) ∧
    (row .inherited = .boolean true ∨ row .inherited = .boolean false)
  keyed : ∀ role vcat schema, ((store.grantsAt role vcat schema).filter (statedIn vcat)).length ≤ 1
  distinct : ∀ vcat, (store.schemaPaths vcat).Nodup
  oneCase : ∀ vcat, ∀ row ∈ store.rows .roleSchemas, ∀ row' ∈ store.rows .roleSchemas, statedIn vcat row = true →
    statedIn vcat row' = true → ∀ role role', row .role = .text role → row' .role = .text role' →
    Text.fold role = Text.fold role' → role = role'

/-- Every role has on every schema the row it states or inherits. -/
structure SchemaRows (store : PolicyTables) : Prop extends StatedRows store where
  inherits : ∀ role vcat schema, schema ∈ store.schemaPaths vcat → store.Inherits role vcat schema

theorem grantAt_iff {role vcat schema : Text} {row : Row} :
    grantAt role vcat schema row = true ↔ row .role = .text role ∧ row .vcat = .text vcat ∧ row .schemaPath = .text schema := by
  simp [grantAt, Row.is, and_assoc]

private theorem statedIn_iff {vcat : Text} {row : Row} :
    statedIn vcat row = true ↔ row .vcat = .text vcat ∧ row .inherited = .boolean false := by
  simp [statedIn, Row.is]

private theorem inSubtree_schemaPath {row : Row} {schema : Text} (cell : row .schemaPath = .text schema) :
    inSubtree path .schemaPath row = within path schema := by
  simp [inSubtree, within, Row.is, Row.isUnder, cell]

private theorem textOf_path {row : Row} {schema : Text} : textOf .path row = some schema ↔ row .path = .text schema := by
  unfold textOf
  cases row .path <;> simp

theorem mem_schemaPaths {schema : Text} :
    schema ∈ store.schemaPaths vcat ↔ ∃ row ∈ store.rows .schemas, row .vcat = .text vcat ∧ row .path = .text schema := by
  simp only [schemaPaths, List.mem_filterMap, List.mem_filter, textOf_path, Row.is, decide_eq_true_eq]
  constructor
  · rintro ⟨row, ⟨held, cat⟩, cell⟩
    exact ⟨row, held, cat, cell⟩
  · rintro ⟨row, held, cat, cell⟩
    exact ⟨row, ⟨held, cat⟩, cell⟩

private theorem mem_schemasIn {schema : Text} :
    schema ∈ store.schemasIn vcat path ↔ schema ∈ store.schemaPaths vcat ∧ within path schema = true := by
  simp only [schemasIn, List.mem_insertionSort, List.mem_filterMap, List.mem_filter, textOf_path, Bool.and_eq_true,
    mem_schemaPaths, Row.is, decide_eq_true_eq]
  constructor
  · rintro ⟨row, ⟨held, cat, inside⟩, cell⟩
    refine ⟨⟨row, held, cat, cell⟩, ?_⟩
    simpa [inSubtree, within, Row.is, Row.isUnder, cell] using inside
  · rintro ⟨⟨row, held, cat, cell⟩, inside⟩
    refine ⟨row, ⟨held, cat, ?_⟩, cell⟩
    simpa [inSubtree, within, Row.is, Row.isUnder, cell] using inside

private theorem schemasIn_nodup (distinct : (store.schemaPaths vcat).Nodup) : (store.schemasIn vcat path).Nodup := by
  refine ((List.perm_insertionSort _ _).nodup_iff).mpr ?_
  have sub : ((store.rows .schemas).filter fun row => row.is .vcat vcat && inSubtree path .path row).Sublist
      ((store.rows .schemas).filter (·.is .vcat vcat)) := by
    have split : (store.rows .schemas).filter (fun row => row.is .vcat vcat && inSubtree path .path row) =
        ((store.rows .schemas).filter (·.is .vcat vcat)).filter (inSubtree path .path) := by
      rw [List.filter_filter]
      apply List.filter_congr
      intro row _
      exact Bool.and_comm _ _
    rw [split]
    exact List.filter_sublist
  exact distinct.sublist (sub.filterMap _)

/-- Roles that are told apart up to case are all kept. -/
private theorem firstSpellings_eq {roles : List Text} (nodup : roles.Nodup)
    (oneCase : ∀ role ∈ roles, ∀ role' ∈ roles, Text.fold role = Text.fold role' → role = role') :
    firstSpellings roles = roles := by
  have added : ∀ rest kept : List Text, kept ++ rest = roles →
      rest.foldl (fun kept role => if kept.any (Text.ciEquals · role) then kept else kept ++ [role]) kept = kept ++ rest := by
    intro rest
    induction rest with
    | nil => simp
    | cons role rest ih =>
      intro kept split
      have fresh : kept.any (Text.ciEquals · role) = false := by
        rw [List.any_eq_false]
        intro other held same
        have listed : role ∈ roles := by rw [← split]; simp
        have listed' : other ∈ roles := by rw [← split]; simp [held]
        have equal := oneCase other listed' role listed (Text.ciEquals_iff.mp same)
        rw [← split, List.nodup_append] at nodup
        exact nodup.2.2 other held role (.head _) equal
      rw [List.foldl_cons, if_neg (by simp [fresh]), ih (kept ++ [role]) (by simpa using split)]
      simp
  exact added roles [] rfl

/-- Filtering rows made for each schema and role by one schema and role leaves the one made for them. -/
private theorem filter_made {ρ : Type} {schemas roles : List Text} (nodupSchemas : schemas.Nodup) (nodupRoles : roles.Nodup)
    (make : Text → Text → Option ρ) (key : ρ → Bool) (schema role : Text)
    (hits : ∀ schema' role' made, make schema' role' = some made → (key made = true ↔ schema' = schema ∧ role' = role)) :
    (schemas.flatMap fun schema' => roles.filterMap (make schema')).filter key =
      if schema ∈ schemas ∧ role ∈ roles then (make schema role).toList else [] := by
  have inner : ∀ schema', (roles.filterMap (make schema')).filter key =
      if schema' = schema ∧ role ∈ roles then (make schema role).toList else [] := by
    intro schema'
    induction roles with
    | nil => simp
    | cons first rest ih =>
      obtain ⟨fresh, nodupRest⟩ := List.nodup_cons.mp nodupRoles
      have rest' := ih nodupRest
      cases made : make schema' first with
      | none =>
        rw [List.filterMap_cons_none made, rest']
        by_cases same : schema' = schema ∧ role = first
        · obtain ⟨rfl, rfl⟩ := same
          simp [fresh, made]
        · by_cases schemas : schema' = schema
          · have apart : role ≠ first := fun found => same ⟨schemas, found⟩
            simp [schemas, apart]
          · simp [schemas]
      | some row =>
        rw [List.filterMap_cons_some made]
        by_cases hit : key row = true
        · obtain ⟨rfl, rfl⟩ := (hits _ _ _ made).mp hit
          rw [List.filter_cons_of_pos hit, rest']
          simp [fresh, made]
        · rw [List.filter_cons_of_neg hit, rest']
          by_cases schemas : schema' = schema
          · have apart : role ≠ first := by
              rintro rfl
              exact hit ((hits _ _ _ made).mpr ⟨schemas, rfl⟩)
            simp [schemas, apart]
          · simp [schemas]
  induction schemas with
  | nil => simp
  | cons first rest ih =>
    obtain ⟨fresh, nodupRest⟩ := List.nodup_cons.mp nodupSchemas
    rw [List.flatMap_cons, List.filter_append, inner, ih nodupRest]
    by_cases same : first = schema
    · subst same
      simp [fresh]
    · have apart : schema ≠ first := fun found => same found.symm
      simp [same, apart]

/-! ## Rebuilding a subtree -/

private theorem mem_statedRoles {role : Text} :
    role ∈ store.statedRoles vcat ↔
      ∃ row ∈ store.rows .roleSchemas, statedIn vcat row = true ∧ row .role = .text role := by
  have reads : ∀ row : Row, textOf .role row = some role ↔ row .role = .text role := by
    intro row
    unfold textOf
    cases row .role <;> simp
  simp only [statedRoles, List.mem_insertionSort, List.mem_dedup, List.mem_filterMap, List.mem_filter, reads, and_assoc]

private theorem statedRoles_nodup : (store.statedRoles vcat).Nodup :=
  ((List.perm_insertionSort _ _).nodup_iff).mpr (List.nodup_dedup _)

private theorem StatedRows.oneCaseRoles (holds : StatedRows store) {role role' : Text} (listed : role ∈ store.statedRoles vcat)
    (listed' : role' ∈ store.statedRoles vcat) (same : Text.fold role = Text.fold role') : role = role' := by
  obtain ⟨row, held, states, cell⟩ := mem_statedRoles.mp listed
  obtain ⟨row', held', states', cell'⟩ := mem_statedRoles.mp listed'
  exact holds.oneCase vcat row held row' held' states states' role role' cell cell' same

/-- Where roles are told apart, a role is granted what it states. -/
private theorem StatedRows.granted_eq (holds : StatedRows store) {role : Text} (listed : role ∈ store.statedRoles vcat) :
    store.granted vcat role = store.statedGrants vcat role := by
  have only : (store.statedRoles vcat).filter (fun other => Text.ciEquals other role) = [role] := by
    have same : (store.statedRoles vcat).filter (fun other => Text.ciEquals other role) =
        (store.statedRoles vcat).filter (· == role) := by
      apply List.filter_congr
      intro other held
      rw [Bool.eq_iff_iff, Text.ciEquals_iff, beq_iff_eq]
      refine ⟨holds.oneCaseRoles held listed, ?_⟩
      rintro rfl
      rfl
    rw [same, List.filter_beq, List.count_eq_one_of_mem statedRoles_nodup listed]
    rfl
  unfold granted
  rw [only]
  simp

/-- A role's stated grant on a schema is a stated row there. -/
private theorem StatedRows.stated_path_iff (holds : StatedRows store) {role schema : Text} :
    (∃ own ∈ store.stated vcat role, own.path = schema) ↔
      (store.grantsAt role vcat schema).filter (statedIn vcat) ≠ [] := by
  constructor
  · rintro ⟨own, listed, rfl⟩
    obtain ⟨row, held, rfl⟩ := List.mem_map.mp listed
    obtain ⟨held, passes⟩ := List.mem_filter.mp held
    obtain ⟨states, named⟩ := Bool.and_eq_true_iff.mp passes
    obtain ⟨_, ⟨_, schema, _, cell, _⟩, _⟩ := holds.typed row held
    refine List.ne_nil_of_mem (List.mem_filter.mpr ⟨List.mem_filter.mpr ⟨held, ?_⟩, states⟩)
    refine grantAt_iff.mpr ⟨by simpa [Row.is] using named, (statedIn_iff.mp states).1, ?_⟩
    simp [SchemaGrant.ofRow, textOf, cell]
  · intro some
    obtain ⟨row, listed⟩ := List.exists_mem_of_ne_nil _ some
    obtain ⟨listed, states⟩ := List.mem_filter.mp listed
    obtain ⟨held, at'⟩ := List.mem_filter.mp listed
    obtain ⟨named, _, cell⟩ := grantAt_iff.mp at'
    refine ⟨SchemaGrant.ofRow row, List.mem_map.mpr ⟨row, List.mem_filter.mpr ⟨held, ?_⟩, rfl⟩, ?_⟩
    · simp [states, Row.is, named]
    · simp [SchemaGrant.ofRow, textOf, cell]

/-- A role that states nothing has no grants. -/
private theorem stated_of_not_mem {role : Text} (absent : role ∉ store.statedRoles vcat) : store.stated vcat role = [] := by
  rw [stated, List.map_eq_nil_iff, List.filter_eq_nil_iff]
  intro row held passes
  obtain ⟨states, named⟩ := Bool.and_eq_true_iff.mp passes
  exact absent (mem_statedRoles.mpr ⟨row, held, states, by simpa [Row.is] using named⟩)

/-- The rows inserted for a role and a schema of the subtree. -/
private theorem StatedRows.filter_inherited (holds : StatedRows store) {role schema : Text}
    (listed : schema ∈ store.schemaPaths vcat) (inside : within path schema = true) :
    ((store.inheritedRows vcat path).map TableName.roleSchemas.row).filter (grantAt role vcat schema) =
      ((inheritedGrant schema (store.statedGrants vcat role)).map fun grant =>
        TableName.roleSchemas.row (inheritedCells role vcat schema grant)).toList := by
  have spellings : firstSpellings (store.statedRoles vcat) = store.statedRoles vcat :=
    firstSpellings_eq statedRoles_nodup fun role held role' held' => holds.oneCaseRoles held held'
  have nodupSchemas : (store.schemasIn vcat path).Nodup := schemasIn_nodup (holds.distinct vcat)
  have nodupRoles : (store.statedRoles vcat).Nodup := statedRoles_nodup
  have made := filter_made nodupSchemas nodupRoles
    (fun schema role => (inheritedGrant schema (store.granted vcat role)).map (inheritedCells role vcat schema))
    (fun cells => grantAt role vcat schema (TableName.roleSchemas.row cells)) schema role
    (by
      intro schema' role' cells found
      obtain ⟨grant, _, rfl⟩ := Option.map_eq_some_iff.mp found
      obtain ⟨named, cat, cell, _⟩ := inheritedRow_cells role' vcat schema' grant
      rw [grantAt_iff, named, cat, cell]
      simp [and_comm])
  rw [List.filter_map, inheritedRows, spellings]
  simp only [Function.comp_def]
  rw [made]
  by_cases states : role ∈ store.statedRoles vcat
  · rw [if_pos ⟨mem_schemasIn.mpr ⟨listed, inside⟩, states⟩, holds.granted_eq states]
    cases inheritedGrant schema (store.statedGrants vcat role) <;> rfl
  · rw [if_neg (fun both => states both.2)]
    have none : store.statedGrants vcat role = [] := by
      rw [statedGrants, stated_of_not_mem states, List.insertionSort_nil]
    rw [none]
    rfl

/-- What a role has on a schema of the rebuilt subtree. -/
private theorem StatedRows.grantsAt_rematerialize (holds : StatedRows store) {role schema : Text}
    (listed : schema ∈ store.schemaPaths vcat) (inside : within path schema = true) :
    (store.rematerializeSchemaCaps vcat path).grantsAt role vcat schema =
      (store.grantsAt role vcat schema).filter (statedIn vcat) ++
        ((inheritedGrant schema (store.statedGrants vcat role)).map fun grant =>
          TableName.roleSchemas.row (inheritedCells role vcat schema grant)).toList := by
  rw [grantsAt, rows_rematerialize, List.filter_append, holds.filter_inherited listed inside]
  congr 1
  rw [grantsAt, List.filter_filter, List.filter_filter]
  apply List.filter_congr
  intro row held
  by_cases at' : grantAt role vcat schema row = true
  · obtain ⟨_, cat, cell⟩ := grantAt_iff.mp at'
    obtain ⟨_, _, kind⟩ := holds.typed row held
    rw [inSubtree_schemaPath cell, inside]
    rcases kind with kind | kind <;> simp [at', statedIn, inheritedIn, Row.is, cat, kind]
  · simp [at']

/-- Outside the subtree a rebuild changes nothing. -/
private theorem grantsAt_rematerialize_outside {role vcat' schema : Text} (outside : vcat' ≠ vcat ∨ within path schema = false) :
    (store.rematerializeSchemaCaps vcat path).grantsAt role vcat' schema = store.grantsAt role vcat' schema := by
  rw [grantsAt, rows_rematerialize, List.filter_append, List.filter_filter]
  have none : ((store.inheritedRows vcat path).map TableName.roleSchemas.row).filter (grantAt role vcat' schema) = [] := by
    rw [List.filter_eq_nil_iff]
    intro row held at'
    obtain ⟨cells, made, rfl⟩ := List.mem_map.mp held
    simp only [inheritedRows, List.mem_flatMap, List.mem_filterMap, Option.map_eq_some_iff] at made
    obtain ⟨schema', inside, role', _, grant, _, rfl⟩ := made
    obtain ⟨_, cat, cell, _⟩ := inheritedRow_cells role' vcat schema' grant
    obtain ⟨_, cat', cell'⟩ := grantAt_iff.mp at'
    rw [cat, Value.text.injEq] at cat'
    rw [cell, Value.text.injEq] at cell'
    subst cat' cell'
    have within := (mem_schemasIn.mp inside).2
    rcases outside with apart | outside
    · exact apart rfl
    · rw [within] at outside
      cases outside
  rw [none, List.append_nil]
  apply List.filter_congr
  intro row _
  by_cases at' : grantAt role vcat' schema row = true
  · obtain ⟨_, cat, cell⟩ := grantAt_iff.mp at'
    rw [inSubtree_schemaPath cell]
    rcases outside with apart | outside
    · simp [inheritedIn, Row.is, cat, apart]
    · simp [outside]
  · simp [at']

private theorem schemaPaths_rematerialize (vcat' : Text) :
    (store.rematerializeSchemaCaps vcat path).schemaPaths vcat' = store.schemaPaths vcat' := by
  unfold schemaPaths
  rw [rows_rematerialize_other (by decide)]

/-- A rebuild keeps what holds of the rows. -/
private theorem StatedRows.rematerialize (holds : StatedRows store) : StatedRows (store.rematerializeSchemaCaps vcat path) where
  typed row held := by
    rw [rows_rematerialize, List.mem_append] at held
    rcases held with held | held
    · obtain ⟨role, ⟨cat, schema, inCat, atSchema, listed⟩, kind⟩ := holds.typed row (List.mem_filter.mp held).1
      exact ⟨role, ⟨cat, schema, inCat, atSchema, by rwa [schemaPaths_rematerialize]⟩, kind⟩
    · obtain ⟨cells, made, rfl⟩ := List.mem_map.mp held
      simp only [inheritedRows, List.mem_flatMap, List.mem_filterMap, Option.map_eq_some_iff] at made
      obtain ⟨schema, inside, role, _, grant, _, rfl⟩ := made
      obtain ⟨named, cat, cell, kind⟩ := inheritedRow_cells role vcat schema grant
      refine ⟨⟨role, named⟩, ⟨vcat, schema, cat, cell, ?_⟩, .inl kind⟩
      rw [schemaPaths_rematerialize]
      exact (mem_schemasIn.mp inside).1
  keyed role vcat' schema := by
    have before := holds.keyed role vcat' schema
    rw [grantsAt, List.filter_filter] at before ⊢
    rwa [filter_rematerialize_stated]
  distinct vcat' := by
    rw [schemaPaths_rematerialize]
    exact holds.distinct vcat'
  oneCase vcat' row held row' held' states states' := by
    have kept : ∀ row ∈ (store.rematerializeSchemaCaps vcat path).rows .roleSchemas, statedIn vcat' row = true →
        row ∈ store.rows .roleSchemas := by
      intro row held states
      have listed : row ∈ ((store.rematerializeSchemaCaps vcat path).rows .roleSchemas).filter
          (fun row => statedIn vcat' row && (fun _ => true) row) := List.mem_filter.mpr ⟨held, by simp [states]⟩
      rw [filter_rematerialize_stated] at listed
      exact (List.mem_filter.mp listed).1
    exact holds.oneCase vcat' row (kept row held states) row' (kept row' held' states') states states'

/-- A rebuilt subtree inherits what is nearest. -/
private theorem StatedRows.inherits_rematerialize (holds : StatedRows store) (role : Text) {schema : Text}
    (listed : schema ∈ store.schemaPaths vcat) (inside : within path schema = true) :
    (store.rematerializeSchemaCaps vcat path).Inherits role vcat schema := by
  have perm : (store.statedGrants vcat role).Perm (store.stated vcat role) := List.perm_insertionSort _ _
  unfold Inherits
  rw [holds.grantsAt_rematerialize listed inside, stated_rematerialize]
  rcases inheritedGrant_spec schema (statedGrants_sorted store vcat role) with
    ⟨⟨own, held, same⟩, none⟩ | ⟨others, found⟩
  · left
    have some := holds.stated_path_iff.mp ⟨own, perm.mem_iff.mp held, same⟩
    have one := holds.keyed role vcat schema
    obtain ⟨row, only⟩ : ∃ row, (store.grantsAt role vcat schema).filter (statedIn vcat) = [row] := by
      apply List.length_eq_one_iff.mp
      have := List.length_pos_iff.mpr some
      omega
    have states : statedIn vcat row = true := by
      have member : row ∈ (store.grantsAt role vcat schema).filter (statedIn vcat) := by rw [only]; simp
      exact (List.mem_filter.mp member).2
    exact ⟨row, by rw [only, none]; rfl, (statedIn_iff.mp states).2⟩
  · right
    have apart : ∀ grant ∈ store.stated vcat role, grant.path ≠ schema := fun grant held => others grant (perm.mem_iff.mpr held)
    have noRows : (store.grantsAt role vcat schema).filter (statedIn vcat) = [] := by
      by_contra some
      obtain ⟨own, held, same⟩ := holds.stated_path_iff.mpr some
      exact apart own held same
    refine ⟨apart, ?_⟩
    rw [noRows, List.nil_append]
    rcases found with ⟨nearest, isNearest, found⟩ | ⟨none, found⟩
    · left
      refine ⟨_, nearest, by rw [found]; rfl, ?_, isNearest.perm perm, ofRow_inherited role vcat schema nearest⟩
      exact (inheritedRow_cells role vcat schema nearest).2.2.2
    · exact .inr ⟨by rw [found]; rfl, fun grant held => none grant (perm.mem_iff.mpr held)⟩

/-- After a rebuild of the subtree that changed, every schema inherits what is nearest. -/
private theorem StatedRows.schemaRows_rematerialize (holds : StatedRows store)
    (outside : ∀ role vcat' schema, schema ∈ store.schemaPaths vcat' → vcat' ≠ vcat ∨ within path schema = false →
      store.Inherits role vcat' schema) : SchemaRows (store.rematerializeSchemaCaps vcat path) where
  toStatedRows := holds.rematerialize
  inherits role vcat' schema listed := by
    rw [schemaPaths_rematerialize] at listed
    by_cases inside : vcat' = vcat ∧ within path schema = true
    · obtain ⟨rfl, inside⟩ := inside
      exact holds.inherits_rematerialize role listed inside
    · have out : vcat' ≠ vcat ∨ within path schema = false := by
        rw [not_and_or, Bool.not_eq_true] at inside
        exact inside
      have before := outside role vcat' schema listed out
      unfold Inherits at before ⊢
      rwa [grantsAt_rematerialize_outside out, stated_rematerialize]

/-! ## Where a change reaches -/

/-- A stated grant is a stated row on its own path. -/
private theorem StatedRows.mem_stated (holds : StatedRows store) {role : Text} {grant : SchemaGrant} :
    grant ∈ store.stated vcat role ↔
      ∃ row ∈ store.grantsAt role vcat grant.path, row .inherited = .boolean false ∧ SchemaGrant.ofRow row = grant := by
  constructor
  · intro listed
    obtain ⟨row, held, rfl⟩ := List.mem_map.mp listed
    obtain ⟨held, passes⟩ := List.mem_filter.mp held
    obtain ⟨states, named⟩ := Bool.and_eq_true_iff.mp passes
    obtain ⟨_, ⟨_, schema, _, cell, _⟩, _⟩ := holds.typed row held
    obtain ⟨cat, own⟩ := statedIn_iff.mp states
    refine ⟨row, List.mem_filter.mpr ⟨held, grantAt_iff.mpr ⟨by simpa [Row.is] using named, cat, ?_⟩⟩, own, rfl⟩
    simp [SchemaGrant.ofRow, textOf, cell]
  · rintro ⟨row, listed, own, rfl⟩
    obtain ⟨held, at'⟩ := List.mem_filter.mp listed
    obtain ⟨named, cat, _⟩ := grantAt_iff.mp at'
    refine List.mem_map.mpr ⟨row, List.mem_filter.mpr ⟨held, ?_⟩, rfl⟩
    simp [statedIn_iff.mpr ⟨cat, own⟩, Row.is, named]

/-- A schema inherits the same where neither its rows nor those of the paths above it change. -/
private theorem Inherits.of_same {store' : PolicyTables} {role schema : Text} (holds : StatedRows store)
    (holds' : StatedRows store') (inherits : store.Inherits role vcat schema)
    (here : store'.grantsAt role vcat schema = store.grantsAt role vcat schema)
    (above : ∀ path, isAncestor path schema = true → store'.grantsAt role vcat path = store.grantsAt role vcat path) :
    store'.Inherits role vcat schema := by
  have same : ∀ grant, grant.path = schema ∨ isAncestor grant.path schema = true →
      (grant ∈ store'.stated vcat role ↔ grant ∈ store.stated vcat role) := by
    rintro grant reaches
    rw [holds.mem_stated, holds'.mem_stated]
    rcases reaches with rfl | high
    · rw [here]
    · rw [above _ high]
  have apart' : (∀ grant ∈ store.stated vcat role, grant.path ≠ schema) →
      ∀ grant ∈ store'.stated vcat role, grant.path ≠ schema := by
    intro apart grant held own
    exact apart grant ((same grant (.inl own)).mp held) own
  rcases inherits with ⟨row, only, own⟩ | ⟨apart, ⟨row, grant, only, copied, nearest, reads⟩ | ⟨none, far⟩⟩
  · exact .inl ⟨row, here.trans only, own⟩
  · refine .inr ⟨apart' apart, .inl ⟨row, grant, here.trans only, copied, ⟨?_, nearest.above, ?_⟩, reads⟩⟩
    · exact (same grant (.inr nearest.above)).mpr nearest.stated
    · intro other held high
      exact nearest.longest other ((same other (.inr high)).mp held) high
  · refine .inr ⟨apart' apart, .inr ⟨here.trans none, ?_⟩⟩
    intro grant held
    rw [← Bool.not_eq_true]
    intro high
    rw [far grant ((same grant (.inr high)).mp held)] at high
    cases high

/-- What is outside a subtree does not lie at its path, and the path is not above it. -/
private theorem outside_apart {schema : Text} (outside : within path schema = false) :
    schema ≠ path ∧ isAncestor path schema = false := by
  simp only [within, Bool.or_eq_false_iff, decide_eq_false_iff_not] at outside
  obtain ⟨⟨_, apart⟩, below⟩ := outside
  refine ⟨apart, ?_⟩
  rw [← Bool.not_eq_true]
  intro high
  obtain ⟨rest, _, rfl⟩ := isAncestor_iff.mp high
  have takes : (path ++ '.' :: rest).take (path.length + 1) = path ++ ['.'] := by
    rw [List.take_append, List.take_of_length_le (by omega)]
    simp
  simp [Text.isUnder, takes] at below

/-- A change of the rows at one path, followed by a rebuild of its subtree. -/
private theorem SchemaRows.rebuilt {store' : PolicyTables} (holds : SchemaRows store) (holds' : StatedRows store')
    (grants : ∀ role vcat' schema, vcat' ≠ vcat ∨ schema ≠ path →
      store'.grantsAt role vcat' schema = store.grantsAt role vcat' schema)
    (paths : ∀ vcat' schema, vcat' ≠ vcat ∨ schema ≠ path → schema ∈ store'.schemaPaths vcat' →
      schema ∈ store.schemaPaths vcat') : SchemaRows (store'.rematerializeSchemaCaps vcat path) := by
  apply holds'.schemaRows_rematerialize
  intro role vcat' schema listed outside
  have apart : ∀ path', path' = schema ∨ isAncestor path' schema = true → vcat' ≠ vcat ∨ path' ≠ path := by
    intro path' reaches
    rcases outside with other | outside
    · exact .inl other
    · obtain ⟨apart, far⟩ := outside_apart outside
      right
      rintro rfl
      rcases reaches with rfl | high
      · exact apart rfl
      · rw [far] at high
        cases high
  have here := apart schema (.inl rfl)
  exact (holds.inherits role vcat' schema (paths vcat' schema here listed)).of_same holds.toStatedRows holds'
    (grants role vcat' schema here) fun path' high => grants role vcat' path' (apart path' (.inr high))

/-! ## The statements of the operations -/

/-- Rows that are taken away leave the others as they were, while their schemas stay. -/
private theorem StatedRows.of_filter {store' : PolicyTables} (holds : StatedRows store) (kept : Row → Bool)
    (rows : store'.rows .roleSchemas = (store.rows .roleSchemas).filter kept)
    (paths : ∀ row ∈ store.rows .roleSchemas, kept row = true → ∀ vcat schema, row .vcat = .text vcat →
      row .schemaPath = .text schema → schema ∈ store.schemaPaths vcat → schema ∈ store'.schemaPaths vcat)
    (distinct : ∀ vcat, (store'.schemaPaths vcat).Nodup) : StatedRows store' where
  typed row held := by
    rw [rows] at held
    obtain ⟨held, keeps⟩ := List.mem_filter.mp held
    obtain ⟨role, ⟨cat, schema, inCat, atSchema, listed⟩, kind⟩ := holds.typed row held
    exact ⟨role, ⟨cat, schema, inCat, atSchema, paths row held keeps cat schema inCat atSchema listed⟩, kind⟩
  keyed role vcat schema := by
    have sub : (store'.grantsAt role vcat schema).Sublist (store.grantsAt role vcat schema) := by
      rw [grantsAt, rows]
      exact List.Sublist.filter _ List.filter_sublist
    exact ((sub.filter (statedIn vcat)).length_le).trans (holds.keyed role vcat schema)
  distinct := distinct
  oneCase vcat row held row' held' := by
    rw [rows] at held held'
    exact holds.oneCase vcat row (List.mem_filter.mp held).1 row' (List.mem_filter.mp held').1

/-- Rows that are taken away from one path leave the rows of the others. -/
private theorem grantsAt_of_filter {store' : PolicyTables} {kept : Row → Bool}
    (rows : store'.rows .roleSchemas = (store.rows .roleSchemas).filter kept)
    {role vcat' schema : Text} (keeps : ∀ row, grantAt role vcat' schema row = true → kept row = true) :
    store'.grantsAt role vcat' schema = store.grantsAt role vcat' schema := by
  rw [grantsAt, grantsAt, rows, List.filter_filter]
  apply List.filter_congr
  intro row _
  by_cases at' : grantAt role vcat' schema row = true
  · simp [at', keeps row at']
  · simp [at']

private theorem rows_delete {hits : Row → Bool} {table : TableName} :
    (store.write (.delete ⟨table, hits⟩)).rows table = (store.rows table).filter fun row => !hits row := by
  show store.rows.deleteAll [_] _ = _
  rw [Tables.deleteAll_apply]
  simp [Tables.hitBy]

private theorem rows_insert {table : TableName} {cells : List (Column × Value)} :
    (store.write (.insert table cells)).rows table = store.rows table ++ [table.row cells] := by
  simp [write, insert]

/-- The statement is on another table. -/
private def Elsewhere (table : TableName) : Write → Prop
  | .delete deletion => deletion.table ≠ table
  | .insert other _ | .insertOrIgnore other _ => other ≠ table

/-- Statements on other tables leave a table as it is. -/
private theorem rows_elsewhere {table : TableName} {writes : List Write} (elsewhere : ∀ write ∈ writes, Elsewhere table write) :
    (store.writeAll writes).rows table = store.rows table := by
  have same : ((store.writeAll writes).rows table).filter (fun _ => true) = (store.rows table).filter fun _ => true := by
    apply filter_writeAll
    · intro write member
      have apart := elsewhere write member
      cases write with
      | delete deletion => trivial
      | insert other cells | insertOrIgnore other cells => exact fun same => absurd same apart
    · intro write member
      have apart := elsewhere write member
      cases write with
      | delete deletion => exact fun same => absurd same apart
      | insert other cells | insertOrIgnore other cells => trivial
  simpa using same

private theorem writeAll_append (first second : List Write) :
    store.writeAll (first ++ second) = (store.writeAll first).writeAll second := List.foldl_append

private theorem writeAll_pair (first second : Write) :
    store.writeAll [first, second] = (store.write first).write second := rfl

/-- A statement on another table leaves the table. -/
private theorem rows_write_elsewhere {table : TableName} {write : Write} (elsewhere : Elsewhere table write) :
    (store.write write).rows table = store.rows table :=
  @rows_elsewhere store table [write] (by simpa using elsewhere)

/-- The schemas of a catalog as the rows of a changed table say. -/
private theorem schemaPaths_of_filter {store' : PolicyTables} {kept : Row → Bool} {added : List Row}
    (rows : store'.rows .schemas = (store.rows .schemas).filter kept ++ added) (vcat' : Text) :
    store'.schemaPaths vcat' = (((store.rows .schemas).filter kept).filter (·.is .vcat vcat')).filterMap (textOf .path) ++
      (added.filter (·.is .vcat vcat')).filterMap (textOf .path) := by
  rw [schemaPaths, rows, List.filter_append, List.filterMap_append]

/-- Redefining a schema takes its row away and adds it again. -/
private theorem rows_addSchema (store : PolicyTables) (facts : SchemaFacts) (vcat path phys origin : Text) : ∃ row : Row, row .vcat = .text vcat ∧
    row .path = .text path ∧ (store.writeAll (addSchemaWrites facts store vcat path phys origin)).rows .schemas =
      (store.rows .schemas).filter (fun row => !schemaAt vcat path row) ++ [row] ∧
    (store.writeAll (addSchemaWrites facts store vcat path phys origin)).rows .roleSchemas = store.rows .roleSchemas := by
  obtain ⟨cells, writes, cat, cell⟩ : ∃ cells, addSchemaWrites facts store vcat path phys origin =
      [.delete ⟨.schemas, schemaAt vcat path⟩, .insert .schemas cells] ∧
      TableName.schemas.row cells .vcat = .text vcat ∧ TableName.schemas.row cells .path = .text path :=
    ⟨_, rfl, rfl, rfl⟩
  refine ⟨TableName.schemas.row cells, cat, cell, ?_, ?_⟩
  · rw [writes, writeAll_pair, rows_insert, rows_delete]
  · rw [writes]
    apply rows_elsewhere
    intro write member
    simp only [List.mem_cons, List.not_mem_nil, or_false] at member
    rcases member with rfl | rfl <;> simp [Elsewhere]

/-- What redefining a schema does to the schemas of the catalogs. -/
private theorem mem_schemaPaths_add {store' : PolicyTables} {row : Row} (cat : row .vcat = .text vcat) (cell : row .path = .text path)
    (rows : store'.rows .schemas = (store.rows .schemas).filter (fun row => !schemaAt vcat path row) ++ [row]) {vcat' schema : Text} :
    schema ∈ store'.schemaPaths vcat' ↔
      (schema ∈ store.schemaPaths vcat' ∧ (vcat' ≠ vcat ∨ schema ≠ path)) ∨ vcat' = vcat ∧ schema = path := by
  simp only [mem_schemaPaths, rows, List.mem_append, List.mem_filter, List.mem_singleton, schemaAt, Row.is]
  constructor
  · rintro ⟨row', held | rfl, cat', cell'⟩
    · obtain ⟨held, keeps⟩ := held
      refine .inl ⟨⟨row', held, cat', cell'⟩, ?_⟩
      rw [← not_and_or]
      rintro ⟨rfl, rfl⟩
      simp [cat', cell'] at keeps
    · rw [cat, Value.text.injEq] at cat'
      rw [cell, Value.text.injEq] at cell'
      exact .inr ⟨cat'.symm, cell'.symm⟩
  · rintro (⟨⟨row', held, cat', cell'⟩, apart⟩ | ⟨rfl, rfl⟩)
    · refine ⟨row', .inl ⟨held, ?_⟩, cat', cell'⟩
      rw [cat', cell']
      rcases apart with apart | apart <;> simp [apart]
    · exact ⟨row, .inr rfl, cat, cell⟩

private theorem schemaPaths_nodup_add {store' : PolicyTables} {row : Row} (cat : row .vcat = .text vcat) (cell : row .path = .text path)
    (rows : store'.rows .schemas = (store.rows .schemas).filter (fun row => !schemaAt vcat path row) ++ [row])
    (distinct : ∀ vcat, (store.schemaPaths vcat).Nodup) (vcat' : Text) : (store'.schemaPaths vcat').Nodup := by
  have kept : ((((store.rows .schemas).filter fun row => !schemaAt vcat path row).filter (·.is .vcat vcat')).filterMap
      (textOf .path)).Nodup := by
    exact (distinct vcat').sublist ((List.Sublist.filter _ List.filter_sublist).filterMap _)
  rw [schemaPaths_of_filter rows]
  by_cases same : vcat' = vcat
  · subst same
    have one : ([row].filter (·.is .vcat vcat')).filterMap (textOf .path) = [path] := by
      simp [Row.is, cat, textOf, cell]
    rw [one, List.nodup_append]
    refine ⟨kept, by simp, ?_⟩
    intro schema listed schema' listed' same
    obtain rfl : schema' = path := by simpa using listed'
    subst same
    simp only [List.mem_filterMap, List.mem_filter, textOf_path, schemaAt, Row.is] at listed
    obtain ⟨row', ⟨⟨_, keeps⟩, cat'⟩, cell'⟩ := listed
    simp [of_decide_eq_true cat', cell'] at keeps
  · have none : ([row].filter (·.is .vcat vcat')).filterMap (textOf .path) = [] := by
      have apart : ¬ vcat = vcat' := fun found => same found.symm
      simp [Row.is, cat, apart]
    rw [none, List.append_nil]
    exact kept

/-- `CatalogAddSchemaAlias` keeps the invariant. -/
private theorem SchemaRows.addSchemaAlias {store' : PolicyTables} (holds : SchemaRows store) {facts : SchemaFacts} {phys origin : Text}
    (ran : store.catalogAddSchemaAlias facts vcat path phys origin = .ok store') : SchemaRows store' := by
  unfold catalogAddSchemaAlias at ran
  split at ran
  · cases ran
  · cases ran
    obtain ⟨row, cat, cell, schemas, grants⟩ := rows_addSchema store facts vcat path phys origin
    have mem := @mem_schemaPaths_add store vcat path _ row cat cell schemas
    refine holds.rebuilt (holds.of_filter (fun _ => true) (by simpa using grants) ?_
      (schemaPaths_nodup_add cat cell schemas holds.distinct)) ?_ ?_
    · intro _ _ _ vcat' schema _ _ listed
      rw [mem]
      by_cases here : vcat' = vcat ∧ schema = path
      · exact .inr here
      · exact .inl ⟨listed, not_and_or.mp here⟩
    · intro role vcat' schema _
      rw [grantsAt, grantsAt, grants]
    · intro vcat' schema apart listed
      rcases mem.mp listed with ⟨listed, _⟩ | ⟨rfl, rfl⟩
      · exact listed
      · simp at apart

/-- The invariant is about two tables only. -/
private theorem SchemaRows.of_rows {store' : PolicyTables} (holds : SchemaRows store)
    (grants : store'.rows .roleSchemas = store.rows .roleSchemas) (schemas : store'.rows .schemas = store.rows .schemas) :
    SchemaRows store' := by
  have paths : ∀ vcat, store'.schemaPaths vcat = store.schemaPaths vcat := by
    intro vcat
    rw [schemaPaths, schemaPaths, schemas]
  refine ⟨holds.of_filter (fun _ => true) (by simpa using grants) ?_ ?_, ?_⟩
  · intro _ _ _ vcat schema _ _ listed
    rwa [paths]
  · intro vcat
    rw [paths]
    exact holds.distinct vcat
  · intro role vcat schema listed
    rw [paths] at listed
    have before := holds.inherits role vcat schema listed
    unfold Inherits grantsAt stated at before ⊢
    rwa [grants]

/-- The statements of an expansion touch neither the schemas nor their grants. -/
private theorem expandWrites_elsewhere {facts : SchemaFacts} {head phys : Text} {names : List Text} {table : TableName}
    (apart : table = .roleSchemas ∨ table = .schemas) :
    ∀ write ∈ expandWrites facts store vcat path head phys names, Elsewhere table write := by
  intro write member
  simp only [expandWrites, aliasStatements, List.mem_append, List.mem_flatMap, List.mem_map, List.mem_cons,
    List.not_mem_nil, or_false] at member
  rcases member with ⟨name, _, ((rfl | rfl | rfl | rfl) | ⟨cells, _, rfl⟩) | rfl | rfl⟩ | rfl <;>
    rcases apart with rfl | rfl <;> simp [Elsewhere]

/-- `CatalogExpandSchema` keeps the invariant. -/
private theorem SchemaRows.expandSchema {store' : PolicyTables} (holds : SchemaRows store) {facts : SchemaFacts} {phys : Text}
    (ran : store.catalogExpandSchema facts vcat path phys = .ok store') : SchemaRows store' := by
  unfold catalogExpandSchema at ran
  cases allowed : facts.policyStore phys with
  | some refusal =>
    rw [allowed] at ran
    cases ran
  | none =>
    cases found : facts.physicalObjects phys with
    | none =>
      rw [allowed, found] at ran
      cases ran
    | some names =>
      cases adds : store.catalogAddSchemaAlias facts vcat path [] phys with
      | error message =>
        rw [allowed, found, adds] at ran
        cases ran
      | ok added =>
        rw [allowed, found, adds] at ran
        simp only at ran
        split at ran
        · rename_i head rest _
          cases ran
          have after : SchemaRows (added.writeAll (expandWrites facts added vcat path head phys names)) :=
            (holds.addSchemaAlias adds).of_rows (rows_elsewhere (expandWrites_elsewhere (.inl rfl)))
              (rows_elsewhere (expandWrites_elsewhere (.inr rfl)))
          exact after.toStatedRows.schemaRows_rematerialize fun role vcat' schema listed _ =>
            after.inherits role vcat' schema listed
        · cases ran

/-- A row of a grant takes the place of what the role had there. -/
private theorem StatedRows.of_granted {store' : PolicyTables} (holds : StatedRows store) {role : Text} {row : Row}
    (rows : store'.rows .roleSchemas = (store.rows .roleSchemas).filter (fun row => !grantAt role vcat path row) ++ [row])
    (schemas : store'.rows .schemas = store.rows .schemas) (at' : grantAt role vcat path row = true)
    (own : row .inherited = .boolean false) (listed : path ∈ store.schemaPaths vcat)
    (oneCase : ∀ other ∈ store.rows .roleSchemas, statedIn vcat other = true → ∀ role', other .role = .text role' →
      Text.fold role' = Text.fold role → role' = role) : StatedRows store' := by
  obtain ⟨named, cat, cell⟩ := grantAt_iff.mp at'
  have paths : ∀ vcat, store'.schemaPaths vcat = store.schemaPaths vcat := by
    intro vcat
    rw [schemaPaths, schemaPaths, schemas]
  refine ⟨?_, ?_, ?_, ?_⟩
  · intro row' held
    rw [rows, List.mem_append, List.mem_singleton] at held
    rcases held with held | rfl
    · obtain ⟨role, ⟨cat, schema, inCat, atSchema, listed⟩, kind⟩ := holds.typed row' (List.mem_filter.mp held).1
      exact ⟨role, ⟨cat, schema, inCat, atSchema, by rwa [paths]⟩, kind⟩
    · exact ⟨⟨role, named⟩, ⟨vcat, path, cat, cell, by rwa [paths]⟩, .inr own⟩
  · intro role' vcat' schema
    have before := holds.keyed role' vcat' schema
    by_cases here : grantAt role' vcat' schema row = true
    · obtain ⟨named', cat', cell'⟩ := grantAt_iff.mp here
      obtain rfl : role' = role := by simpa [named] using named'.symm
      obtain rfl : vcat' = vcat := by simpa [cat] using cat'.symm
      obtain rfl : schema = path := by simpa [cell] using cell'.symm
      have only : store'.grantsAt role' vcat' schema = [row] := by
        rw [grantsAt, rows, List.filter_append, List.filter_filter]
        simp [here]
      rw [only]
      exact List.length_filter_le _ _
    · have sub : (store'.grantsAt role' vcat' schema).Sublist (store.grantsAt role' vcat' schema) := by
        rw [grantsAt, rows, List.filter_append, List.filter_cons_of_neg here, List.filter_nil, List.append_nil]
        exact List.Sublist.filter _ List.filter_sublist
      exact ((sub.filter (statedIn vcat')).length_le).trans before
  · intro vcat'
    rw [paths]
    exact holds.distinct vcat'
  · intro vcat' first held second held' states states' role₁ role₂ cell₁ cell₂ same
    rw [rows, List.mem_append, List.mem_singleton] at held held'
    rcases held with held | rfl
    · have held := (List.mem_filter.mp held).1
      rcases held' with held' | rfl
      · exact holds.oneCase vcat' first held second (List.mem_filter.mp held').1 states states' role₁ role₂ cell₁ cell₂ same
      · obtain rfl : role = role₂ := by simpa [named] using cell₂
        obtain rfl : vcat = vcat' := by simpa [cat] using (statedIn_iff.mp states').1
        exact oneCase first held states role₁ cell₁ same
    · obtain rfl : role = role₁ := by simpa [named] using cell₁
      obtain rfl : vcat = vcat' := by simpa [cat] using (statedIn_iff.mp states).1
      rcases held' with held' | rfl
      · exact (oneCase second (List.mem_filter.mp held').1 states' role₂ cell₂ same.symm).symm
      · simpa [named] using cell₂

/-- What `CatalogGrantSchema` that returns has checked and done. -/
private theorem grantSchema_ok {store' : PolicyTables} {facts : SchemaFacts} {request : SchemaGrantRequest}
    (ran : store.catalogGrantSchema facts request = .ok store') :
    request.path ∈ store.schemaPaths request.vcat ∧ store' =
      (store.writeAll (store.grantSchemaWrites request)).rematerializeSchemaCaps request.vcat request.path := by
  unfold catalogGrantSchema at ran
  obtain ⟨manage, -, ran⟩ := Outcome.bind_eq_ok.mp ran
  cases manage with
  | true => cases ran
  | false =>
    by_cases missing : store.has .schemas (schemaAt request.vcat request.path) = false
    · simp only [missing] at ran
      cases ran
    · have there : request.path ∈ store.schemaPaths request.vcat := by
        rw [Bool.not_eq_false, has, List.any_eq_true] at missing
        obtain ⟨row, held, at'⟩ := missing
        simp only [schemaAt, Row.is, Bool.and_eq_true, decide_eq_true_eq] at at'
        exact mem_schemaPaths.mpr ⟨row, held, at'⟩
      refine ⟨there, ?_⟩
      simp only [missing, Bool.false_eq_true, if_false] at ran
      by_cases into : request.into = []
      · simp only [into, ne_eq, not_true_eq_false, and_false, if_false] at ran
        exact (Except.ok.inj ran).symm
      · simp only [into, ne_eq, not_false_eq_true, and_true, if_true] at ran
        cases allowed : facts.policyStore request.into with
        | some refusal =>
          rw [allowed] at ran
          cases ran
        | none =>
          rw [allowed] at ran
          by_cases physical : facts.physicalSchema request.into = false
          · simp only [physical, if_true] at ran
            cases ran
          · by_cases only : request.virtualOnly = true
            · simp only [physical, only, if_true, if_false] at ran
              cases ran
            · simp only [physical, only, if_false] at ran
              exact (Except.ok.inj ran).symm

/-- `CatalogGrantSchema` keeps the invariant where the role's name is no other spelling of one that has grants. -/
private theorem SchemaRows.grantSchema {store' : PolicyTables} (holds : SchemaRows store) {facts : SchemaFacts}
    {request : SchemaGrantRequest} (ran : store.catalogGrantSchema facts request = .ok store')
    (oneCase : ∀ row ∈ store.rows .roleSchemas, statedIn request.vcat row = true → ∀ role', row .role = .text role' →
      Text.fold role' = Text.fold request.role → role' = request.role) : SchemaRows store' := by
  obtain ⟨there, rfl⟩ := grantSchema_ok ran
  obtain ⟨ensured, cells, writes, elsewhere, at', own⟩ : ∃ ensured cells, store.grantSchemaWrites request =
      ensured ++ [.delete ⟨.roleSchemas, grantAt request.role request.vcat request.path⟩, .insert .roleSchemas cells] ∧
      (∀ table, table = TableName.roleSchemas ∨ table = .schemas → ∀ write ∈ ensured, Elsewhere table write) ∧
      grantAt request.role request.vcat request.path (TableName.roleSchemas.row cells) = true ∧
      TableName.roleSchemas.row cells .inherited = .boolean false := by
    refine ⟨_, _, rfl, ?_, grantAt_iff.mpr ⟨rfl, rfl, rfl⟩, rfl⟩
    intro table apart write member
    split_ifs at member
    · rw [List.mem_singleton] at member
      subst member
      rcases apart with rfl | rfl <;> simp [Elsewhere]
    · cases member
  have rows : (store.writeAll (store.grantSchemaWrites request)).rows .roleSchemas =
      (store.rows .roleSchemas).filter (fun row => !grantAt request.role request.vcat request.path row) ++
        [TableName.roleSchemas.row cells] := by
    rw [writes, writeAll_append, writeAll_pair, rows_insert, rows_delete, rows_elsewhere (elsewhere _ (.inl rfl))]
  have schemas : (store.writeAll (store.grantSchemaWrites request)).rows .schemas = store.rows .schemas := by
    rw [writes, writeAll_append, writeAll_pair, rows_write_elsewhere (by simp [Elsewhere]),
      rows_write_elsewhere (by simp [Elsewhere]), rows_elsewhere (elsewhere _ (.inr rfl))]
  refine holds.rebuilt (holds.of_granted rows schemas at' own there oneCase) ?_ ?_
  · intro role vcat schema apart
    have other : grantAt role vcat schema (TableName.roleSchemas.row cells) = false := by
      rw [← Bool.not_eq_true, grantAt_iff]
      rintro ⟨_, cat, cell⟩
      obtain ⟨_, cat', cell'⟩ := grantAt_iff.mp at'
      rw [cat', Value.text.injEq] at cat
      rw [cell', Value.text.injEq] at cell
      rcases apart with apart | apart
      · exact apart cat.symm
      · exact apart cell.symm
    rw [grantsAt, rows, List.filter_append, List.filter_cons_of_neg (by simp [other]), List.filter_nil, List.append_nil,
      List.filter_filter]
    apply List.filter_congr
    intro row _
    by_cases here : grantAt role vcat schema row = true
    · obtain ⟨_, cat, cell⟩ := grantAt_iff.mp here
      have kept : grantAt request.role request.vcat request.path row = false := by
        rw [← Bool.not_eq_true, grantAt_iff, cat, cell]
        rcases apart with apart | apart <;> simp [apart]
      simp [here, kept]
    · simp [here]
  · intro vcat schema _ listed
    rwa [schemaPaths, schemas] at listed

/-- `CatalogRevokeSchema` keeps the invariant. -/
private theorem SchemaRows.revokeSchema {store' : PolicyTables} (holds : SchemaRows store) {role : Text}
    (ran : store.catalogRevokeSchema role vcat path = .ok store') : SchemaRows store' := by
  unfold catalogRevokeSchema at ran
  split_ifs at ran
  cases ran
  have rows : (store.writeAll [.delete ⟨.roleSchemas, grantAt role vcat path⟩]).rows .roleSchemas =
      (store.rows .roleSchemas).filter fun row => !grantAt role vcat path row := rows_delete
  have schemas : (store.writeAll [.delete ⟨.roleSchemas, grantAt role vcat path⟩]).rows .schemas = store.rows .schemas :=
    rows_elsewhere (by simp [Elsewhere])
  have paths : ∀ vcat', (store.writeAll [.delete ⟨.roleSchemas, grantAt role vcat path⟩]).schemaPaths vcat' =
      store.schemaPaths vcat' := by
    intro vcat'
    rw [schemaPaths, schemaPaths, schemas]
  refine holds.rebuilt (holds.of_filter _ rows ?_ ?_) ?_ ?_
  · intro _ _ _ vcat' schema _ _ listed
    rwa [paths]
  · intro vcat'
    rw [paths]
    exact holds.distinct vcat'
  · intro role' vcat' schema apart
    apply grantsAt_of_filter rows
    intro row here
    obtain ⟨_, cat, cell⟩ := grantAt_iff.mp here
    rw [Bool.not_eq_true', ← Bool.not_eq_true, grantAt_iff, cat, cell]
    rcases apart with apart | apart <;> simp [apart]
  · intro vcat' schema _ listed
    rwa [paths] at listed

/-! ## Dropping a schema -/

/-- The role states a grant on the schema, or on a longer path above it than the given one. -/
def StatesNearer (store : PolicyTables) (role vcat path schema : Text) : Prop :=
  ∃ grant ∈ store.stated vcat role, grant.path = schema ∨
    isAncestor grant.path schema = true ∧ path.length < grant.path.length

/-- No role's grant on the path is the one a schema below inherits from. -/
def NoneInherits (store : PolicyTables) (vcat path : Text) : Prop :=
  ∀ role, (∃ grant ∈ store.stated vcat role, grant.path = path) → ∀ schema ∈ store.schemaPaths vcat,
    isAncestor path schema = true → store.StatesNearer role vcat path schema

/-- The tables that are left when a schema is dropped. -/
private theorem rows_dropSchema (cascade : Bool) :
    (store.writeAll (store.dropSchemaWrites vcat path cascade)).rows .roleSchemas =
      (store.rows .roleSchemas).filter (fun row => !(row.is .vcat vcat && row.is .schemaPath path)) ∧
    (store.writeAll (store.dropSchemaWrites vcat path cascade)).rows .schemas =
      (store.rows .schemas).filter fun row => !schemaAt vcat path row := by
  unfold dropSchemaWrites
  generalize records : (if cascade = true then _ else _ : List Write) = first
  have elsewhere : ∀ table, table = TableName.roleSchemas ∨ table = .schemas → ∀ write ∈ first, Elsewhere table write := by
    intro table apart write member
    subst records
    cases cascade with
    | false => cases member
    | true =>
      simp only [if_true, List.map_cons, List.map_nil, List.cons_append, List.nil_append, List.mem_cons,
        List.not_mem_nil, or_false] at member
      rcases apart with rfl | rfl <;> rcases member with
        rfl | rfl | rfl | rfl | rfl | rfl | rfl | rfl | rfl | rfl | rfl <;> simp [Elsewhere]
  rw [writeAll_append, writeAll_pair]
  constructor
  · rw [rows_delete, rows_write_elsewhere (by simp [Elsewhere]), rows_elsewhere (elsewhere _ (.inl rfl))]
  · rw [rows_write_elsewhere (by simp [Elsewhere]), rows_delete, rows_elsewhere (elsewhere _ (.inr rfl))]
    rfl

/-- A schema below a dropped one inherits what it did, from a nearer grant. -/
private theorem Inherits.of_dropped {store' : PolicyTables} {role schema : Text} (holds : StatedRows store)
    (holds' : StatedRows store') (inherits : store.Inherits role vcat schema) (apart : schema ≠ path)
    (grants : ∀ schema, schema ≠ path → store'.grantsAt role vcat schema = store.grantsAt role vcat schema)
    (dropped : store'.grantsAt role vcat path = [])
    (nearer : (∃ grant ∈ store.stated vcat role, grant.path = path) → isAncestor path schema = true →
      store.StatesNearer role vcat path schema) : store'.Inherits role vcat schema := by
  by_cases states : (∃ grant ∈ store.stated vcat role, grant.path = path) ∧ isAncestor path schema = true
  · have fewer : ∀ grant ∈ store'.stated vcat role, grant ∈ store.stated vcat role := by
      intro grant held
      obtain ⟨row, held, own, reads⟩ := holds'.mem_stated.mp held
      by_cases here : grant.path = path
      · rw [here, dropped] at held
        cases held
      · rw [grants _ here] at held
        exact holds.mem_stated.mpr ⟨row, held, own, reads⟩
    obtain ⟨other, stated, reaches⟩ := nearer states.1 states.2
    rcases inherits with ⟨row, only, own⟩ | ⟨others, found⟩
    · exact .inl ⟨row, (grants schema apart).trans only, own⟩
    · obtain ⟨high, longer⟩ := reaches.resolve_left (others other stated)
      refine .inr ⟨fun grant held => others grant (fewer grant held), ?_⟩
      rcases found with ⟨row, grant, only, copied, nearest, reads⟩ | ⟨_, far⟩
      · refine .inl ⟨row, grant, (grants schema apart).trans only, copied, ⟨?_, nearest.above, ?_⟩, reads⟩
        · -- the nearest grant is at least as long as the other one, so it is not the dropped one
          have long := nearest.longest other stated high
          have kept : grant.path ≠ path := by
            intro same
            rw [same] at long
            omega
          obtain ⟨row, held, own, reads⟩ := holds.mem_stated.mp nearest.stated
          rw [← grants _ kept] at held
          exact holds'.mem_stated.mpr ⟨row, held, own, reads⟩
        · exact fun grant held => nearest.longest grant (fewer grant held)
      · rw [far other stated] at high
        cases high
  · by_cases high : isAncestor path schema = true
    · -- the role states nothing on the dropped path: what it has there is inherited and goes
      have none : ∀ grant ∈ store.stated vcat role, grant.path ≠ path := fun grant held here => states ⟨⟨grant, held, here⟩, high⟩
      have same : ∀ grant, grant ∈ store'.stated vcat role ↔ grant ∈ store.stated vcat role := by
        intro grant
        rw [holds.mem_stated, holds'.mem_stated]
        by_cases here : grant.path = path
        · have absent : ¬ ∃ row ∈ store.grantsAt role vcat grant.path, row .inherited = .boolean false ∧
              SchemaGrant.ofRow row = grant := fun found => none grant (holds.mem_stated.mpr found) here
          rw [here] at absent ⊢
          simp [dropped, absent]
        · rw [grants _ here]
      rcases inherits with ⟨row, only, own⟩ | ⟨others, ⟨row, grant, only, copied, nearest, reads⟩ | ⟨none, far⟩⟩
      · exact .inl ⟨row, (grants schema apart).trans only, own⟩
      · refine .inr ⟨fun grant held => others grant ((same grant).mp held), .inl ⟨row, grant, (grants schema apart).trans only,
          copied, ⟨(same grant).mpr nearest.stated, nearest.above, ?_⟩, reads⟩⟩
        exact fun grant held => nearest.longest grant ((same grant).mp held)
      · exact .inr ⟨fun grant held => others grant ((same grant).mp held), .inr ⟨(grants schema apart).trans none,
          fun grant held => far grant ((same grant).mp held)⟩⟩
    · refine inherits.of_same holds holds' (grants schema apart) ?_
      intro path' high'
      refine grants path' ?_
      rintro rfl
      exact high high'

/-- `CatalogDropSchemaAlias` keeps the invariant where nothing inherits from what it drops. -/
private theorem SchemaRows.dropSchemaAlias {store' : PolicyTables} (holds : SchemaRows store) {cascade : Bool}
    (ran : store.catalogDropSchemaAlias vcat path cascade = .ok store') (none : store.NoneInherits vcat path) :
    SchemaRows store' := by
  unfold catalogDropSchemaAlias at ran
  split_ifs at ran
  cases ran
  obtain ⟨rows, schemas⟩ := @rows_dropSchema store vcat path cascade
  set after := store.writeAll (store.dropSchemaWrites vcat path cascade)
  have mem : ∀ vcat' schema, schema ∈ after.schemaPaths vcat' ↔
      schema ∈ store.schemaPaths vcat' ∧ (vcat' ≠ vcat ∨ schema ≠ path) := by
    intro vcat' schema
    simp only [mem_schemaPaths, schemas, List.mem_filter, schemaAt, Row.is]
    constructor
    · rintro ⟨row, ⟨held, keeps⟩, cat, cell⟩
      refine ⟨⟨row, held, cat, cell⟩, ?_⟩
      rw [cat, cell] at keeps
      rw [← not_and_or]
      rintro ⟨rfl, rfl⟩
      simp at keeps
    · rintro ⟨⟨row, held, cat, cell⟩, apart⟩
      refine ⟨row, ⟨held, ?_⟩, cat, cell⟩
      rw [cat, cell]
      rcases apart with apart | apart <;> simp [apart]
  have holds' : StatedRows after := by
    refine holds.of_filter _ rows ?_ ?_
    · intro row _ keeps vcat' schema cat cell listed
      refine (mem vcat' schema).mpr ⟨listed, ?_⟩
      simp only [Row.is, cat, cell] at keeps
      rw [← not_and_or]
      rintro ⟨rfl, rfl⟩
      simp at keeps
    · intro vcat'
      rw [schemaPaths, schemas]
      exact (holds.distinct vcat').sublist ((List.Sublist.filter _ List.filter_sublist).filterMap _)
  have grants : ∀ role vcat' schema, vcat' ≠ vcat ∨ schema ≠ path →
      after.grantsAt role vcat' schema = store.grantsAt role vcat' schema := by
    intro role vcat' schema apart
    apply grantsAt_of_filter rows
    intro row here
    obtain ⟨_, cat, cell⟩ := grantAt_iff.mp here
    simp only [Row.is, cat, cell]
    rcases apart with apart | apart <;> simp [apart]
  have dropped : ∀ role, after.grantsAt role vcat path = [] := by
    intro role
    rw [grantsAt, rows, List.filter_filter, List.filter_eq_nil_iff]
    intro row _ both
    obtain ⟨here, keeps⟩ := Bool.and_eq_true_iff.mp both
    obtain ⟨_, cat, cell⟩ := grantAt_iff.mp here
    simp [Row.is, cat, cell] at keeps
  refine ⟨holds', ?_⟩
  intro role vcat' schema left
  obtain ⟨listed, apart⟩ := (mem vcat' schema).mp left
  have before := holds.inherits role vcat' schema listed
  by_cases same : vcat' = vcat
  · subst same
    refine before.of_dropped holds.toStatedRows holds' (apart.resolve_left (by simp)) ?_ (dropped role) ?_
    · exact fun schema other => grants role vcat' schema (.inr other)
    · exact fun states high => none role states schema listed high
  · exact before.of_same holds.toStatedRows holds' (grants role vcat' schema (.inl same)) fun path' _ =>
      grants role vcat' path' (.inl same)

/-! ## What a name is decided by -/

/-- Paths that agree up to case agree: a schema of the catalog that is above another one or above the
name is so as it is spelled. -/
structure OneSpelling (store : PolicyTables) (vcat name : Text) : Prop where
  schemas : ∀ path ∈ store.schemaPaths vcat, ∀ schema ∈ store.schemaPaths vcat,
    Text.isUnder schema path = true → isAncestor path schema = true
  name : ∀ path ∈ store.schemaPaths vcat, Text.isUnder name path = true → isAncestor path name = true

/-- The row that decides a name says what the role's nearest grant above the name does. -/
def PicksNearest (store : PolicyTables) (role vcat name : Text) : Prop :=
  match store.schemaCapsRow role vcat name with
  | none => ∀ grant ∈ store.stated vcat role, isAncestor grant.path name = false
  | some row => ∃ grant, IsNearest (store.stated vcat role) name grant ∧
      SchemaGrant.ofRow row = { grant with path := (SchemaGrant.ofRow row).path }

private theorem isUnder_of_isAncestor {schema : Text} (above : isAncestor path schema = true) :
    Text.isUnder schema path = true := by
  obtain ⟨rest, _, rfl⟩ := isAncestor_iff.mp above
  have takes : (path ++ '.' :: rest).take (path.length + 1) = path ++ ['.'] := by
    rw [List.take_append, List.take_of_length_le (by omega)]
    simp
  simp [Text.isUnder, takes]

/-- What is above a path above the name is above the name. -/
private theorem isAncestor_trans {schema name : Text} (first : isAncestor path schema = true)
    (second : isAncestor schema name = true) : isAncestor path name = true := by
  obtain ⟨rest, some, rfl⟩ := isAncestor_iff.mp first
  obtain ⟨rest', _, rfl⟩ := isAncestor_iff.mp second
  exact isAncestor_iff.mpr ⟨rest ++ '.' :: rest', by simp, by simp⟩

/-- Of two paths above a name the shorter is the longer one or above it, up to case at least. -/
private theorem above_shorter {other name : Text} (first : isAncestor other name = true) (second : isAncestor path name = true)
    (shorter : other.length ≤ path.length) : other = path ∨ Text.isUnder path other = true := by
  obtain ⟨rest, _, split⟩ := isAncestor_iff.mp first
  obtain ⟨rest', _, split'⟩ := isAncestor_iff.mp second
  rw [split] at split'
  rcases Nat.lt_or_ge other.length path.length with less | more
  · right
    have takes : path.take (other.length + 1) = other ++ ['.'] := by
      have whole := congrArg (List.take (other.length + 1)) split'
      rw [List.take_append, List.take_of_length_le (by omega), List.take_append_of_le_length (by omega)] at whole
      rw [← whole]
      simp
    simp [Text.isUnder, takes]
  · exact .inl (List.append_inj_left split' (by omega))

/-- The first of a list in the order of a size is among the largest. -/
private theorem head_insertionSort {α : Type} (size : α → ℕ) (list : List α) :
    match (list.insertionSort fun a b => size b ≤ size a).head? with
    | none => list = []
    | some first => first ∈ list ∧ ∀ other ∈ list, size other ≤ size first := by
  have : Std.Total fun a b => size b ≤ size a := ⟨fun a b => Nat.le_total _ _⟩
  have : IsTrans α fun a b => size b ≤ size a := ⟨fun a b c ab bc => Nat.le_trans bc ab⟩
  have order := List.pairwise_insertionSort (fun a b => size b ≤ size a) list
  have perm := List.perm_insertionSort (fun a b => size b ≤ size a) list
  generalize (list.insertionSort fun a b => size b ≤ size a) = sorted at order perm
  cases sorted with
  | nil => exact perm.nil_eq.symm
  | cons first rest =>
    refine ⟨perm.mem_iff.mp List.mem_cons_self, ?_⟩
    intro other held
    rcases List.mem_cons.mp (perm.mem_iff.mpr held) with rfl | later
    · exact Nat.le_refl _
    · exact (List.pairwise_cons.mp order).1 other later

private theorem coversName_iff {role name : Text} {row : Row} : coversName role vcat name row = true ↔
    row .role = .text role ∧ row .vcat = .text vcat ∧ ∃ path, row .schemaPath = .text path ∧ Text.isUnder name path = true := by
  simp only [coversName, Row.is, Bool.and_eq_true, decide_eq_true_eq, and_assoc]
  cases row .schemaPath <;> simp

private theorem pathLength_eq {row : Row} (cell : row .schemaPath = .text path) : pathLength row = path.length := by
  simp [pathLength, textOf, cell]

/-- A stated grant above the name is a row that `SchemaCapsExpr` sees. -/
private theorem SchemaRows.grant_row (holds : SchemaRows store) {role : Text} {grant : SchemaGrant}
    (held : grant ∈ store.stated vcat role) : ∃ row ∈ store.rows .roleSchemas, row .role = .text role ∧
      row .vcat = .text vcat ∧ row .schemaPath = .text grant.path ∧ grant.path ∈ store.schemaPaths vcat := by
  obtain ⟨row, listed, _, _⟩ := holds.mem_stated.mp held
  obtain ⟨listed, at'⟩ := List.mem_filter.mp listed
  obtain ⟨named, cat, cell⟩ := grantAt_iff.mp at'
  obtain ⟨_, ⟨vcat', schema, inCat, atSchema, member⟩, _⟩ := holds.typed row listed
  rw [cat, Value.text.injEq] at inCat
  rw [cell, Value.text.injEq] at atSchema
  subst inCat atSchema
  exact ⟨row, listed, named, cat, cell, member⟩

/-- The row picked for a name is the nearest grant, or a copy of it. -/
private theorem SchemaRows.picksNearest (holds : SchemaRows store) (role : Text) {name : Text}
    (spelling : OneSpelling store vcat name) : store.PicksNearest role vcat name := by
  unfold PicksNearest
  split
  · rename_i picked
    intro grant held
    rw [← Bool.not_eq_true]
    intro high
    obtain ⟨row, listed, named, cat, cell, _⟩ := holds.grant_row held
    have none := head_insertionSort pathLength ((store.rows .roleSchemas).filter (coversName role vcat name))
    unfold schemaCapsRow at picked
    rw [picked] at none
    refine List.filter_eq_nil_iff.mp none row listed ?_
    exact coversName_iff.mpr ⟨named, cat, grant.path, cell, isUnder_of_isAncestor high⟩
  · rename_i row picked
    have first := head_insertionSort pathLength ((store.rows .roleSchemas).filter (coversName role vcat name))
    unfold schemaCapsRow at picked
    rw [picked] at first
    obtain ⟨among, longest⟩ := first
    obtain ⟨held, covers⟩ := List.mem_filter.mp among
    obtain ⟨named, cat, path, cell, under⟩ := coversName_iff.mp covers
    rw [pathLength_eq cell] at longest
    obtain ⟨_, ⟨vcat', schema, inCat, atSchema, listed⟩, kind⟩ := holds.typed row held
    obtain rfl : vcat = vcat' := by simpa [cat] using inCat
    obtain rfl : path = schema := by simpa [cell] using atSchema
    have high : isAncestor path name = true := spelling.name path listed under
    have among : row ∈ store.grantsAt role vcat path := List.mem_filter.mpr ⟨held, grantAt_iff.mpr ⟨named, cat, cell⟩⟩
    have short : ∀ grant ∈ store.stated vcat role, isAncestor grant.path name = true → grant.path.length ≤ path.length := by
      intro grant held' above
      obtain ⟨row', listed', named', cat', cell', _⟩ := holds.grant_row held'
      rw [← pathLength_eq cell']
      exact longest row' (List.mem_filter.mpr ⟨listed', coversName_iff.mpr ⟨named', cat', grant.path, cell',
        isUnder_of_isAncestor above⟩⟩)
    rcases holds.inherits role vcat path listed with
      ⟨own, only, states⟩ | ⟨apart, ⟨copy, grant, only, _, nearest, copies⟩ | ⟨none, _⟩⟩
    · -- the role's own row
      obtain rfl : row = own := by simpa [only] using among
      have path' : (SchemaGrant.ofRow row).path = path := by simp [SchemaGrant.ofRow, textOf, cell]
      refine ⟨SchemaGrant.ofRow row, ⟨?_, by rwa [path'], ?_⟩, rfl⟩
      · refine holds.mem_stated.mpr ⟨row, ?_, states, rfl⟩
        rwa [path']
      · intro other held' above
        rw [path']
        exact short other held' above
    · -- a copy: a nearer grant would be the schema's own or nearer to it than the one it copies
      obtain rfl : row = copy := by simpa [only] using among
      refine ⟨grant, ⟨nearest.stated, isAncestor_trans nearest.above high, ?_⟩, ?_⟩
      · intro other held' above
        rcases above_shorter above high (short other held' above) with same | under'
        · exact absurd same (apart other held')
        · obtain ⟨_, _, _, _, _, listed'⟩ := holds.grant_row held'
          exact nearest.longest other held' (spelling.schemas other.path listed' path listed under')
      · rw [copies]
    · rw [none] at among
      cases among

/-! ## Runs -/

/-- The operation leaves what is inherited right: a grant is to a role that no other role with grants
in the catalog is a spelling of, and nothing inherits from a schema that is dropped. -/
def Meets (store : PolicyTables) : SchemaOperation → Prop
  | .grantSchema request =>
    ∀ role ∈ store.statedRoles request.vcat, Text.fold role = Text.fold request.role → role = request.role
  | .dropSchemaAlias vcat path _ => store.NoneInherits vcat path
  | _ => True

private theorem toOption_ok {result : Except Text PolicyTables} {store : PolicyTables} (ran : result.toOption = some store) :
    result = .ok store := by
  cases result with
  | error message => cases ran
  | ok found =>
    cases ran
    rfl

/-- One operation keeps the invariant. -/
private theorem SchemaRows.step {store' : PolicyTables} (holds : SchemaRows store) {facts : SchemaFacts}
    {operation : SchemaOperation} (meets : store.Meets operation) (stepped : schemaStep facts store operation = some store') :
    SchemaRows store' := by
  have ran := toOption_ok stepped
  cases operation with
  | addSchemaAlias vcat path phys origin => exact holds.addSchemaAlias ran
  | alterSchemaAlias vcat path phys =>
    simp only [catalogAlterSchemaAlias] at ran
    split_ifs at ran
    exact holds.addSchemaAlias ran
  | expandSchema vcat path phys => exact holds.expandSchema ran
  | grantSchema request =>
    refine holds.grantSchema ran ?_
    intro row held states role' cell same
    exact meets role' (mem_statedRoles.mpr ⟨row, held, states, cell⟩) same
  | revokeSchema role vcat path => exact holds.revokeSchema ran
  | dropSchemaAlias vcat path cascade => exact holds.dropSchemaAlias ran meets

/-- After a run of operations that all leave what is inherited right, every role has on every schema its
own row, or the copy of the nearest one above, or none, and a name is decided by the nearest grant. -/
theorem schema_grants_nearest (facts : SchemaFacts) (store last : PolicyTables) (operations : List SchemaOperation)
    (holds : SchemaRows store) (along : Runs.Along (schemaStep facts) Meets store operations)
    (ran : Runs.run (schemaStep facts) store operations = some last) :
    (∀ role vcat schema, schema ∈ last.schemaPaths vcat → last.Inherits role vcat schema) ∧
      (∀ row ∈ last.rows .roleSchemas, ∃ vcat schema, row .vcat = .text vcat ∧ row .schemaPath = .text schema ∧
        schema ∈ last.schemaPaths vcat) ∧
      ∀ role vcat name, OneSpelling last vcat name → last.PicksNearest role vcat name := by
  have kept : SchemaRows last :=
    Runs.run_keeps (schemaStep facts) Meets (fun holds meets stepped => holds.step meets stepped) holds along ran
  refine ⟨kept.inherits, ?_, fun role vcat name => kept.picksNearest role⟩
  intro row held
  exact (kept.typed row held).2.1

/-- A store without schemas has nothing to inherit. -/
theorem schemaRows_empty : SchemaRows (.of []) where
  typed row held := by cases held
  keyed _ _ _ := Nat.zero_le _
  distinct _ := List.nodup_nil
  oneCase _ row held := by cases held
  inherits _ _ _ listed := by cases listed

/-- No physical schema is a policy store, and capabilities never name `manage`. -/
def plainSchemas : SchemaFacts where
  physicalObjects _ := none
  typeFacts _ := []
  createdBy := .null
  createdRoles := .null
  policyStore _ := none
  namesManage _ := .ok false
  physicalSchema _ := true

/-- A schema, one below it, and a grant on the one above. -/
def grantAbove : List SchemaOperation :=
  [.addSchemaAlias "hr".toList "staff".toList [] [], .addSchemaAlias "hr".toList "staff.pay".toList [] [],
   .grantSchema { role := "clerk".toList, vcat := "hr".toList, path := "staff".toList, capsJson := "select".toList }]

theorem schema_grants_nearest_staff :
    ∃ last, Runs.run (schemaStep plainSchemas) (.of []) grantAbove = some last ∧
      last.Inherits "clerk".toList "hr".toList "staff.pay".toList := by
  refine ⟨_, rfl, (schema_grants_nearest plainSchemas (.of []) _ grantAbove schemaRows_empty ?_ rfl).1 _ _ _ ?_⟩
  · refine ⟨trivial, trivial, ?_, trivial⟩
    intro role held
    cases held
  · decide

/-- The schema an operation is about. -/
def SchemaOperation.about : SchemaOperation → Text
  | addSchemaAlias _ path _ _ | alterSchemaAlias _ path _ | expandSchema _ path _ | revokeSchema _ _ path
  | dropSchemaAlias _ path _ => path
  | grantSchema request => request.path

/-- The operations spell each name in one way. -/
def SpelledAlike (operations : List SchemaOperation) : Prop :=
  ∀ first ∈ operations.map SchemaOperation.about, ∀ second ∈ operations.map SchemaOperation.about,
    (Text.fold first = Text.fold second → first = second) ∧
      (Text.isUnder second first = true → isAncestor first second = true)

/-- Dropping a schema leaves what the schema below it inherited from the grant that goes with it. -/
theorem drop_leaves_inherited :
    ¬ ∀ (facts : SchemaFacts) (operations : List SchemaOperation) (last : PolicyTables), SpelledAlike operations →
      Runs.run (schemaStep facts) (.of []) operations = some last →
      ∀ role vcat schema, schema ∈ last.schemaPaths vcat → last.Inherits role vcat schema := by
  intro always
  have inherits := always plainSchemas (grantAbove ++ [.dropSchemaAlias "hr".toList "staff".toList false]) _
    (by unfold SpelledAlike; decide) rfl
    "clerk".toList "hr".toList "staff.pay".toList (by decide)
  rcases inherits with ⟨row, only, own⟩ | ⟨_, ⟨_, grant, _, _, nearest, _⟩ | ⟨none, _⟩⟩
  · have copied := congrArg (List.map fun row : Row => row .inherited) only
    rw [List.map_singleton, own] at copied
    exact absurd copied (by decide)
  · exact absurd (List.length_pos_of_mem nearest.stated) (by decide)
  · have rows := congrArg List.length none
    exact absurd rows (by decide)

end PolicyTables

end DuckAcl
