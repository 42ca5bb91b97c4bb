import DuckAcl.Model.FunctionCategories
import DuckAcl.Model.RelationRemoval

/-! # Removing all of a relation and nothing else

Three operations remove relations, each with its own list of tables. A removal is whole when no table
keeps a row of the relation, grants apart where a function of the same name remains; it is confined
when every other relation and every remaining function has the rows it had. The theorem says for each
operation exactly when its list is right.
-/

namespace DuckAcl

namespace PolicyTables

/-- The rows a resolution of the relation reads: its record, its columns, its object grants. -/
def relationRecord (vcat vname : Text) : List (TableName × (Row → Bool)) :=
  [(.relations, named vcat vname), (.relationColumns, named vcat vname), (.relationTypes, named vcat vname),
   (.objectColumns, namedKind vcat vname "relation".toList), (.roleObjectCaps, named vcat vname),
   (.grantColumns, named vcat vname)]

/-- The rows a resolution of the function reads. -/
def functionRecord (vcat vname : Text) (kind : FunctionKind) : List (TableName × (Row → Bool)) :=
  [(.functions, namedKind vcat vname kind.text), (.objectColumns, namedKind vcat vname kind.text),
   (.roleObjectCaps, named vcat vname), (.grantColumns, named vcat vname)]

/-- The rows that pass a test are the same in both stores. -/
def SameRows (before after : PolicyTables) (table : TableName) (test : Row → Bool) : Prop :=
  (after.rows table).filter test = (before.rows table).filter test

/-- Every relation that was there and is gone is gone from every table, the mark of a deliberate drop
apart; grants stay only with a function of the same name. -/
def RemovesWhole (before after : PolicyTables) : Prop :=
  ∀ vcat vname, before.has .relations (named vcat vname) = true → after.has .relations (named vcat vname) = false →
    ∀ source ∈ before.relationRowSources vcat vname, source.mark = false →
      (source.grants = true → after.has .functions (named vcat vname) = false) →
      ∀ row ∈ after.rows source.table, source.hits row = false

/-- Every other relation and every remaining function has the rows it had. -/
def Confined (before after : PolicyTables) : Prop :=
  (∀ vcat vname, before.has .relations (named vcat vname) = true → after.has .relations (named vcat vname) = true →
    ∀ part ∈ relationRecord vcat vname, SameRows before after part.1 part.2) ∧
  ∀ vcat vname (kind : FunctionKind), after.has .functions (namedKind vcat vname kind.text) = true →
    ∀ part ∈ functionRecord vcat vname kind, SameRows before after part.1 part.2

/-! ## Names -/

theorem is_iff {row : Row} {cell : Column} {text : Text} : row.is cell text = true ↔ row cell = .text text := by
  simp [Row.is]

theorem named_iff {vcat vname : Text} {row : Row} :
    named vcat vname row = true ↔ row .vcat = .text vcat ∧ row .vname = .text vname := by
  simp [named, is_iff]

/-- A row has one name. -/
theorem named_unique {vcat vname vcat' vname' : Text} {row : Row} (one : named vcat vname row = true)
    (other : named vcat' vname' row = true) : vcat = vcat' ∧ vname = vname' := by
  obtain ⟨cat, name⟩ := named_iff.mp one
  obtain ⟨cat', name'⟩ := named_iff.mp other
  rw [cat] at cat'
  rw [name] at name'
  exact ⟨Value.text.inj cat', Value.text.inj name'⟩

theorem namedKind_iff {vcat vname kind : Text} {row : Row} :
    namedKind vcat vname kind row = true ↔ named vcat vname row = true ∧ row .kind = .text kind := by
  simp [namedKind, is_iff]

/-- A row under a path has a name under it. -/
theorem under_named {vcat path vcat' vname : Text} {row : Row} (name : named vcat' vname row = true) :
    under vcat path row = true ↔ vcat' = vcat ∧ Text.isUnder vname path = true := by
  obtain ⟨cat, key⟩ := named_iff.mp name
  simp [under, Row.isUnder, Row.is, cat, key]

variable {before after : PolicyTables}

theorem has_iff {store : PolicyTables} {table : TableName} {test : Row → Bool} :
    store.has table test = true ↔ ∃ row ∈ store.rows table, test row = true := by
  simp [has]

theorem SameRows.has_eq {table : TableName} {test : Row → Bool} (same : SameRows before after table test) :
    after.has table test = before.has table test := by
  rw [Bool.eq_iff_iff, has_iff, has_iff]
  have member : ∀ row, row ∈ (after.rows table).filter test ↔ row ∈ (before.rows table).filter test := by
    intro row
    rw [same]
  simp only [List.mem_filter] at member
  constructor
  · rintro ⟨row, held, passes⟩
    exact ⟨row, ((member row).mp ⟨held, passes⟩).1, passes⟩
  · rintro ⟨row, held, passes⟩
    exact ⟨row, ((member row).mpr ⟨held, passes⟩).1, passes⟩

/-- Rows that all went are the same only if there were none. -/
theorem SameRows.of_cleared {table : TableName} {test : Row → Bool} (same : SameRows before after table test)
    (cleared : ∀ row ∈ after.rows table, test row = false) : before.has table test = false := by
  rw [← same.has_eq]
  exact has_eq_false.mpr cleared

/-! ## `CatalogDropRelation` -/

variable {vcat vname : Text}

/-- The rows of a relation bear its name, references and the mark apart. -/
theorem source_named {store : PolicyTables} {source : RelationRowSource}
    (member : source ∈ store.relationRowSources vcat vname)
    (table : source.table ∉ [TableName.referenceColumns, .references, .schemaDropped]) {row : Row}
    (hit : source.hits row = true) : named vcat vname row = true := by
  simp only [relationRowSources, List.mem_cons, List.not_mem_nil, or_false] at member
  rcases member with rfl | rfl | rfl | rfl | rfl | rfl | rfl | rfl | rfl | rfl | rfl
  · exact hit
  · exact (namedKind_iff.mp hit).1
  · exact hit
  · exact hit
  · exact hit
  · exact (namedKind_iff.mp hit).1
  · exact hit
  · exact hit
  · simp at table
  · simp at table
  · simp at table

/-- The columns of a relation are those of its kind. -/
theorem source_columns {store : PolicyTables} {source : RelationRowSource}
    (member : source ∈ store.relationRowSources vcat vname) (table : source.table = .objectColumns) {row : Row}
    (hit : source.hits row = true) : row .kind = .text "relation".toList := by
  simp only [relationRowSources, List.mem_cons, List.not_mem_nil, or_false] at member
  rcases member with rfl | rfl | rfl | rfl | rfl | rfl | rfl | rfl | rfl | rfl | rfl
  · cases table
  · exact (namedKind_iff.mp hit).2
  all_goals cases table

theorem source_grants {store : PolicyTables} {source : RelationRowSource}
    (member : source ∈ store.relationRowSources vcat vname) :
    source.grants = true ↔ source.table = .roleObjectCaps ∨ source.table = .grantColumns := by
  simp only [relationRowSources, List.mem_cons, List.not_mem_nil, or_false] at member
  rcases member with rfl | rfl | rfl | rfl | rfl | rfl | rfl | rfl | rfl | rfl | rfl <;> simp

theorem source_not_functions {store : PolicyTables} {source : RelationRowSource}
    (member : source ∈ store.relationRowSources vcat vname) : source.table ≠ .functions := by
  simp only [relationRowSources, List.mem_cons, List.not_mem_nil, or_false] at member
  rcases member with rfl | rfl | rfl | rfl | rfl | rfl | rfl | rfl | rfl | rfl | rfl <;> simp

/-- The statement deletes what one source lists. -/
theorem mem_dropRelationWrites {store : PolicyTables} {write : Write}
    (member : write ∈ store.dropRelationWrites vcat vname) :
    (∃ source ∈ store.relationRowSources vcat vname, source.mark = false ∧
      (source.grants = true → store.has .functions (named vcat vname) = false) ∧
      write = .delete ⟨source.table, source.hits⟩) ∨ ∃ cells, write = .insertOrIgnore .schemaDropped cells := by
  simp only [dropRelationWrites, List.mem_append, List.mem_map, List.mem_filter] at member
  rcases member with ⟨source, ⟨listed, chosen⟩, rfl⟩ | marked
  · simp only [Bool.and_eq_true, Bool.not_eq_true', Bool.and_eq_false_iff] at chosen
    refine .inl ⟨source, listed, chosen.1, ?_, rfl⟩
    intro grants
    rcases chosen.2 with none | none
    · simp [grants] at none
    · exact none
  · split_ifs at marked
    · exact .inr ⟨_, List.mem_singleton.mp marked⟩
    · cases marked

theorem dropRelation_adds {store : PolicyTables} {table : TableName} (other : table ≠ .schemaDropped)
    (test : Row → Bool) : ∀ write ∈ store.dropRelationWrites vcat vname, write.AddsNone table test := by
  intro write member
  rcases mem_dropRelationWrites member with ⟨source, _, _, _, rfl⟩ | ⟨cells, rfl⟩
  · trivial
  · exact fun same => absurd same.symm other

/-- Rows no source of the relation hits stay as they are. -/
private theorem dropRelation_same {table : TableName} {test : Row → Bool} (other : table ≠ .schemaDropped)
    (spared : ∀ source ∈ before.relationRowSources vcat vname, source.table = table →
      (source.grants = true → before.has .functions (named vcat vname) = false) →
      ∀ row, test row = true → source.hits row = false) :
    SameRows before (before.writeAll (before.dropRelationWrites vcat vname)) table test := by
  apply filter_writeAll (dropRelation_adds other test)
  intro write member
  rcases mem_dropRelationWrites member with ⟨source, listed, _, grants, rfl⟩ | ⟨cells, rfl⟩
  · exact fun same => spared source listed same grants
  · trivial

theorem dropRelation_clears {source : RelationRowSource}
    (listed : source ∈ before.relationRowSources vcat vname) (unmarked : source.mark = false)
    (grants : source.grants = true → before.has .functions (named vcat vname) = false) :
    ∀ row ∈ (before.writeAll (before.dropRelationWrites vcat vname)).rows source.table, source.hits row = false := by
  have other : source.table ≠ .schemaDropped := by
    simp only [relationRowSources, List.mem_cons, List.not_mem_nil, or_false] at listed
    rcases listed with rfl | rfl | rfl | rfl | rfl | rfl | rfl | rfl | rfl | rfl | rfl
    all_goals first | (cases unmarked; done) | simp
  have among : Write.delete ⟨source.table, source.hits⟩ ∈ before.dropRelationWrites vcat vname := by
    simp only [dropRelationWrites, List.mem_append, List.mem_map, List.mem_filter]
    refine .inl ⟨source, ⟨listed, ?_⟩, rfl⟩
    cases isGrant : source.grants with
    | false => simp [unmarked]
    | true => simp [unmarked, grants isGrant]
  exact cleared_writeAll (dropRelation_adds other source.hits) among rfl (fun _ hit => hit)

/-- Rows that bear another name stay as they are. -/
private theorem dropRelation_same_named {table : TableName} {test : Row → Bool} {vcat' vname' : Text}
    (record : table ∉ [TableName.referenceColumns, .references, .schemaDropped])
    (different : ¬ (vcat' = vcat ∧ vname' = vname)) (named' : ∀ row, test row = true → named vcat' vname' row = true) :
    SameRows before (before.writeAll (before.dropRelationWrites vcat vname)) table test := by
  have other : table ≠ .schemaDropped := by
    rintro rfl
    simp at record
  apply dropRelation_same other
  rintro source listed rfl _ row passes
  by_contra hit
  rw [Bool.not_eq_false] at hit
  exact different (named_unique (named' row passes) (source_named listed record hit))

/-- Dropping a relation removes all of it and nothing else. -/
theorem dropRelation_whole (ran : before.catalogDropRelation vcat vname = .ok after) :
    RemovesWhole before after ∧ Confined before after := by
  obtain rfl : after = before.writeAll (before.dropRelationWrites vcat vname) := by
    unfold catalogDropRelation at ran
    split_ifs at ran
    exact (Except.ok.inj ran).symm
  have functions : ∀ test, SameRows before (before.writeAll (before.dropRelationWrites vcat vname)) .functions test := by
    intro test
    apply dropRelation_same (by simp)
    intro source listed same
    exact absurd same (source_not_functions listed)
  have gone : ∀ {cat name}, before.has .relations (named cat name) = true →
      (before.writeAll (before.dropRelationWrites vcat vname)).has .relations (named cat name) = false →
      cat = vcat ∧ name = vname := by
    intro cat name had lost
    by_contra different
    have same : SameRows before (before.writeAll (before.dropRelationWrites vcat vname)) .relations (named cat name) :=
      dropRelation_same_named (by simp) different fun _ passes => passes
    rw [same.has_eq, had] at lost
    cases lost
  have cleared : (before.writeAll (before.dropRelationWrites vcat vname)).has .relations (named vcat vname) = false := by
    apply has_eq_false.mpr
    have first : (⟨.relations, named vcat vname, false, false⟩ : RelationRowSource) ∈
        before.relationRowSources vcat vname := by
      simp [relationRowSources]
    exact dropRelation_clears first rfl (by simp)
  refine ⟨?_, ?_, ?_⟩
  · intro cat name had lost source listed unmarked grants
    obtain ⟨rfl, rfl⟩ := gone had lost
    apply dropRelation_clears listed unmarked
    intro isGrant
    rw [← (functions (named cat name)).has_eq]
    exact grants isGrant
  · intro cat name had kept part member
    have different : ¬ (cat = vcat ∧ name = vname) := by
      rintro ⟨rfl, rfl⟩
      rw [cleared] at kept
      cases kept
    simp only [relationRecord, List.mem_cons, List.not_mem_nil, or_false] at member
    rcases member with rfl | rfl | rfl | rfl | rfl | rfl
    · exact dropRelation_same_named (by simp) different fun _ passes => passes
    · exact dropRelation_same_named (by simp) different fun _ passes => passes
    · exact dropRelation_same_named (by simp) different fun _ passes => passes
    · exact dropRelation_same_named (by simp) different fun _ passes => (namedKind_iff.mp passes).1
    · exact dropRelation_same_named (by simp) different fun _ passes => passes
    · exact dropRelation_same_named (by simp) different fun _ passes => passes
  · intro cat name kind kept part member
    have function : before.has .functions (named cat name) = true := by
      obtain ⟨row, held, passes⟩ := has_iff.mp ((functions _).has_eq ▸ kept)
      exact has_iff.mpr ⟨row, held, (namedKind_iff.mp passes).1⟩
    -- the grants of the name go only when no function bears it
    have granted : ∀ {table}, table = .roleObjectCaps ∨ table = .grantColumns →
        SameRows before (before.writeAll (before.dropRelationWrites vcat vname)) table (named cat name) := by
      intro table isGrant
      apply dropRelation_same (by rcases isGrant with rfl | rfl <;> simp)
      rintro source listed rfl grants row passes
      by_contra hit
      rw [Bool.not_eq_false] at hit
      have record : source.table ∉ [TableName.referenceColumns, .references, .schemaDropped] := by
        rcases isGrant with same | same <;> simp [same]
      obtain ⟨rfl, rfl⟩ := named_unique passes (source_named listed record hit)
      rw [grants ((source_grants listed).mpr isGrant)] at function
      cases function
    simp only [functionRecord, List.mem_cons, List.not_mem_nil, or_false] at member
    rcases member with rfl | rfl | rfl | rfl
    · exact functions _
    · apply dropRelation_same (by simp)
      intro source listed same _ row passes
      by_contra hit
      rw [Bool.not_eq_false] at hit
      have relation := source_columns listed same hit
      have function := (namedKind_iff.mp passes).2
      rw [relation] at function
      cases kind <;> exact absurd (Value.text.inj function) (by decide)
    · exact granted (.inl rfl)
    · exact granted (.inr rfl)

/-! ## `CatalogDropSchemaAlias` -/

variable {path : Text} {cascade : Bool}

/-- The tables a cascading drop clears of what lies under the schema. -/
def clearedUnder : List TableName :=
  [.relations, .relationColumns, .relationTypes, .objectColumns, .functions, .keys, .roleObjectCaps, .grantColumns]

/-- What a statement of the drop is. -/
private theorem mem_dropSchemaWrites {store : PolicyTables} {write : Write}
    (member : write ∈ store.dropSchemaWrites vcat path cascade) :
    (cascade = true ∧ ∃ table ∈ clearedUnder, write = .delete ⟨table, under vcat path⟩) ∨
      ∃ deletion : Delete, write = .delete deletion ∧ deletion.table ∈
        [TableName.referenceColumns, .references, .schemaDropped, .schemas, .roleSchemas] := by
  simp only [dropSchemaWrites, List.mem_append, List.mem_cons, List.not_mem_nil, or_false] at member
  rcases member with cascading | rfl | rfl
  · split_ifs at cascading with all
    · rcases List.mem_append.mp cascading with cleared | rest
      · obtain ⟨table, listed, rfl⟩ := List.mem_map.mp cleared
        exact .inl ⟨all, table, listed, rfl⟩
      · simp only [List.mem_cons, List.not_mem_nil, or_false] at rest
        rcases rest with rfl | rfl | rfl
        · exact .inr ⟨_, rfl, by simp⟩
        · exact .inr ⟨_, rfl, by simp⟩
        · exact .inr ⟨_, rfl, by simp⟩
    · cases cascading
  · exact .inr ⟨_, rfl, by simp⟩
  · exact .inr ⟨_, rfl, by simp⟩

private theorem dropSchema_adds {store : PolicyTables} (table : TableName) (test : Row → Bool) :
    ∀ write ∈ store.dropSchemaWrites vcat path cascade, write.AddsNone table test := by
  intro write member
  rcases mem_dropSchemaWrites member with ⟨_, table', _, rfl⟩ | ⟨deletion, rfl, _⟩ <;> trivial

/-- Rows that do not lie under the schema stay as they are. -/
private theorem dropSchema_same {table : TableName} {test : Row → Bool}
    (record : table ∉ [TableName.referenceColumns, .references, .schemaDropped, .schemas, .roleSchemas])
    (outside : cascade = true → table ∈ clearedUnder → ∀ row, test row = true → under vcat path row = false) :
    SameRows before (before.writeAll (before.dropSchemaWrites vcat path cascade)) table test := by
  apply filter_writeAll (dropSchema_adds table test)
  intro write member
  rcases mem_dropSchemaWrites member with ⟨all, table', listed, rfl⟩ | ⟨deletion, rfl, listed⟩
  · intro same row passes
    obtain rfl : table' = table := same
    exact outside all listed row passes
  · intro same
    exact absurd (same ▸ listed) record

private theorem dropSchema_clears {table : TableName} {test : Row → Bool} (listed : table ∈ clearedUnder)
    (inside : ∀ row, test row = true → under vcat path row = true) :
    ∀ row ∈ (before.writeAll (before.dropSchemaWrites vcat path true)).rows table, test row = false := by
  have among : Write.delete ⟨table, under vcat path⟩ ∈ before.dropSchemaWrites vcat path true := by
    simp only [dropSchemaWrites, ↓reduceIte, List.mem_append]
    exact .inl (.inl (List.mem_map.mpr ⟨table, listed, rfl⟩))
  exact cleared_writeAll (dropSchema_adds table test) among rfl inside

/-- A row whose name does not lie under the schema is outside. -/
private theorem outside_of {cat name : Text} (not : ¬ (cat = vcat ∧ Text.isUnder name path = true)) {row : Row}
    (name' : named cat name row = true) : under vcat path row = false := by
  by_contra inside
  rw [Bool.not_eq_false] at inside
  exact not ((under_named name').mp inside)

/-- What a cascading drop misses: the comments on the columns of what it removes. -/
def dropSchemaMisses (store : PolicyTables) (vcat path : Text) : Prop :=
  ∃ name, Text.isUnder name path = true ∧ store.has .relations (named vcat name) = true ∧
    store.has .columnComments (named vcat name) = true

/-- The references of a relation under the schema are references that end under it. -/
private theorem endsUnder_of_endsAt {name : Text} (inside : Text.isUnder name path = true) {row : Row}
    (ends : endsAt vcat name row = true) : endsUnder vcat path row = true := by
  simp only [endsAt, Bool.and_eq_true, Bool.or_eq_true] at ends
  obtain ⟨cat, ends⟩ := ends
  simp only [endsUnder, Bool.and_eq_true, Bool.or_eq_true]
  refine ⟨cat, ends.imp ?_ ?_⟩
  · intro source
    simp [Row.isUnder, is_iff.mp source, inside]
  · rintro ⟨target, _⟩
    simp [Row.isUnder, is_iff.mp target, inside]

private theorem dropSchema_references {table : TableName} {test : Row → Bool} (hits : Row → Bool)
    (among : Write.delete ⟨table, hits⟩ ∈ before.dropSchemaWrites vcat path true)
    (inside : ∀ row, test row = true → hits row = true) :
    ∀ row ∈ (before.writeAll (before.dropSchemaWrites vcat path true)).rows table, test row = false :=
  cleared_writeAll (dropSchema_adds table test) among rfl inside

/-- A cascading drop clears every table of a relation under the schema but its column comments. -/
private theorem dropSchema_clears_source {name : Text} (inside : Text.isUnder name path = true) {source : RelationRowSource}
    (listed : source ∈ before.relationRowSources vcat name) (unmarked : source.mark = false)
    (comments : source.table ≠ .columnComments) :
    ∀ row ∈ (before.writeAll (before.dropSchemaWrites vcat path true)).rows source.table, source.hits row = false := by
  have inUnder : ∀ row, named vcat name row = true → under vcat path row = true :=
    fun row passes => (under_named passes).mpr ⟨rfl, inside⟩
  simp only [relationRowSources, List.mem_cons, List.not_mem_nil, or_false] at listed
  rcases listed with rfl | rfl | rfl | rfl | rfl | rfl | rfl | rfl | rfl | rfl | rfl
  · exact dropSchema_clears (by simp [clearedUnder]) inUnder
  · exact dropSchema_clears (by simp [clearedUnder]) fun row passes => inUnder row (namedKind_iff.mp passes).1
  · exact dropSchema_clears (by simp [clearedUnder]) inUnder
  · exact dropSchema_clears (by simp [clearedUnder]) inUnder
  · exact absurd rfl comments
  · exact dropSchema_clears (by simp [clearedUnder]) fun row passes => inUnder row (namedKind_iff.mp passes).1
  · exact dropSchema_clears (by simp [clearedUnder]) inUnder
  · exact dropSchema_clears (by simp [clearedUnder]) inUnder
  · refine dropSchema_references (before.ofReference (endsUnder vcat path) vcat) (by simp [dropSchemaWrites]) ?_
    intro row passes
    simp only [ofReference, Bool.and_eq_true, List.any_eq_true] at passes ⊢
    obtain ⟨belongs, reference, held, ends, same⟩ := passes
    exact ⟨belongs, reference, held, endsUnder_of_endsAt inside ends, same⟩
  · exact dropSchema_references (endsUnder vcat path) (by simp [dropSchemaWrites])
      fun row passes => endsUnder_of_endsAt inside passes
  · cases unmarked

/-- Dropping a schema removes all of its relations and nothing else, unless it cascades over a relation
with column comments. -/
theorem dropSchema_whole_iff (ran : before.catalogDropSchemaAlias vcat path cascade = .ok after) :
    (RemovesWhole before after ∧ Confined before after) ↔ ¬ (cascade = true ∧ before.dropSchemaMisses vcat path) := by
  obtain rfl : after = before.writeAll (before.dropSchemaWrites vcat path cascade) := by
    unfold catalogDropSchemaAlias at ran
    split at ran
    · cases ran
    · split at ran
      · cases ran
      · exact (Except.ok.inj ran).symm
  have comments : ∀ test, SameRows before (before.writeAll (before.dropSchemaWrites vcat path cascade))
      .columnComments test := by
    intro test
    apply dropSchema_same (by simp)
    intro _ listed
    simp [clearedUnder] at listed
  have apart : ∀ {cat name table test}, ¬ (cascade = true ∧ cat = vcat ∧ Text.isUnder name path = true) →
      table ∉ [TableName.referenceColumns, .references, .schemaDropped, .schemas, .roleSchemas] →
      (∀ row, test row = true → named cat name row = true) →
      SameRows before (before.writeAll (before.dropSchemaWrites vcat path cascade)) table test := by
    intro cat name table test outside record named'
    apply dropSchema_same record
    intro all _ row passes
    exact outside_of (fun inside => outside ⟨all, inside⟩) (named' row passes)
  have gone : ∀ {cat name}, before.has .relations (named cat name) = true →
      (before.writeAll (before.dropSchemaWrites vcat path cascade)).has .relations (named cat name) = false →
      cascade = true ∧ cat = vcat ∧ Text.isUnder name path = true := by
    intro cat name had lost
    by_contra outside
    rw [(apart outside (by simp) fun _ passes => passes).has_eq, had] at lost
    cases lost
  constructor
  · rintro ⟨whole, _⟩ ⟨rfl, name, inside, had, commented⟩
    have lost : (before.writeAll (before.dropSchemaWrites vcat path true)).has .relations (named vcat name) = false :=
      has_eq_false.mpr (dropSchema_clears (by simp [clearedUnder])
        fun row passes => (under_named passes).mpr ⟨rfl, inside⟩)
    have none := whole vcat name had lost ⟨.columnComments, named vcat name, false, false⟩
      (by simp [relationRowSources]) rfl (by simp)
    have kept := (comments (named vcat name)).has_eq
    rw [has_eq_false.mpr none, commented] at kept
    cases kept
  · intro noted
    refine ⟨?_, ?_, ?_⟩
    · intro cat name had lost source listed unmarked _
      obtain ⟨rfl, rfl, inside⟩ := gone had lost
      by_cases comment : source.table = .columnComments
      · have uncommented : before.has .columnComments (named cat name) = false := by
          by_contra commented
          rw [Bool.not_eq_false] at commented
          exact noted ⟨rfl, name, inside, had, commented⟩
        rw [← (comments (named cat name)).has_eq] at uncommented
        intro row held
        by_contra hit
        rw [Bool.not_eq_false] at hit
        have named' := source_named listed (by simp [comment]) hit
        rw [comment] at held
        rw [has_eq_false.mp uncommented row held] at named'
        cases named'
      · exact dropSchema_clears_source inside listed unmarked comment
    · intro cat name had kept part member
      have outside : ¬ (cascade = true ∧ cat = vcat ∧ Text.isUnder name path = true) := by
        rintro ⟨rfl, rfl, inside⟩
        rw [has_eq_false.mpr (dropSchema_clears (by simp [clearedUnder])
          fun row passes => (under_named passes).mpr ⟨rfl, inside⟩)] at kept
        cases kept
      simp only [relationRecord, List.mem_cons, List.not_mem_nil, or_false] at member
      rcases member with rfl | rfl | rfl | rfl | rfl | rfl
      · exact apart outside (by simp) fun _ passes => passes
      · exact apart outside (by simp) fun _ passes => passes
      · exact apart outside (by simp) fun _ passes => passes
      · exact apart outside (by simp) fun _ passes => (namedKind_iff.mp passes).1
      · exact apart outside (by simp) fun _ passes => passes
      · exact apart outside (by simp) fun _ passes => passes
    · intro cat name kind kept part member
      have outside : ¬ (cascade = true ∧ cat = vcat ∧ Text.isUnder name path = true) := by
        rintro ⟨rfl, rfl, inside⟩
        rw [has_eq_false.mpr (dropSchema_clears (by simp [clearedUnder])
          fun row passes => (under_named (namedKind_iff.mp passes).1).mpr ⟨rfl, inside⟩)] at kept
        cases kept
      simp only [functionRecord, List.mem_cons, List.not_mem_nil, or_false] at member
      rcases member with rfl | rfl | rfl | rfl
      · exact apart outside (by simp) fun _ passes => (namedKind_iff.mp passes).1
      · exact apart outside (by simp) fun _ passes => (namedKind_iff.mp passes).1
      · exact apart outside (by simp) fun _ passes => passes
      · exact apart outside (by simp) fun _ passes => passes

/-! ## `CatalogRefreshSchemaObjects` -/

variable {facts : RecordFacts} {head origin : Text} {names : List Text} {prune : Bool}

/-- The statement deletes or adds rows of one relation only: its record, or what a prune lists. -/
def About (vcat vname : Text) : Write → Prop
  | .delete deletion =>
    deletion.table ∈ [TableName.relations, .relationColumns, .relationTypes, .columnComments, .roleObjectCaps, .keys,
        .objectColumns] ∧
      ∀ row, deletion.hits row = true →
        named vcat vname row = true ∧ (deletion.table = .objectColumns → row .kind = .text "relation".toList)
  | .insert table cells => table ∈ [TableName.relations, .relationTypes] ∧ named vcat vname (table.row cells) = true
  | .insertOrIgnore _ _ => False

private theorem about_delete {table : TableName} {vname : Text}
    (listed : table ∈ [TableName.relations, .relationColumns, .relationTypes, .columnComments, .roleObjectCaps]) :
    About vcat vname (.delete ⟨table, named vcat vname⟩) := by
  refine ⟨?_, ?_⟩
  · simp only [List.mem_cons, List.not_mem_nil, or_false] at listed ⊢
    tauto
  · intro row hit
    refine ⟨hit, ?_⟩
    rintro rfl
    simp at listed

private theorem about_deleteKind {table : TableName} {vname : Text} (listed : table ∈ [TableName.keys, .objectColumns]) :
    About vcat vname (.delete ⟨table, namedKind vcat vname "relation".toList⟩) := by
  refine ⟨?_, ?_⟩
  · simp only [List.mem_cons, List.not_mem_nil, or_false] at listed ⊢
    tauto
  · intro row hit
    exact ⟨(namedKind_iff.mp hit).1, fun _ => (namedKind_iff.mp hit).2⟩

/-- A new record writes its own rows, and no grants. -/
private theorem about_alias {phys : Text} {write : Write} {vname : Text}
    (member : write ∈ aliasStatements facts vcat vname phys origin) :
    About vcat vname write ∧ ∀ deletion, write = .delete deletion → deletion.table ≠ .roleObjectCaps := by
  simp only [aliasStatements, List.mem_append, List.mem_cons, List.not_mem_nil, or_false, List.mem_map] at member
  rcases member with ((rfl | rfl | rfl | rfl) | ⟨cells, _, rfl⟩) | rfl | rfl
  · exact ⟨about_delete (by simp), by rintro _ ⟨⟩; simp⟩
  · exact ⟨about_delete (by simp), by rintro _ ⟨⟩; simp⟩
  · refine ⟨⟨by simp, named_iff.mpr ⟨rfl, rfl⟩⟩, by rintro _ ⟨⟩⟩
  · exact ⟨about_delete (by simp), by rintro _ ⟨⟩; simp⟩
  · refine ⟨⟨by simp, named_iff.mpr ⟨rfl, rfl⟩⟩, by rintro _ ⟨⟩⟩
  · exact ⟨about_deleteKind (by simp), by rintro _ ⟨⟩; simp⟩
  · exact ⟨about_deleteKind (by simp), by rintro _ ⟨⟩; simp⟩

private theorem about_prune {write : Write} {vname : Text} (member : write ∈ pruneWrites vcat vname) :
    About vcat vname write ∧ ∃ deletion, write = .delete deletion := by
  simp only [pruneWrites, List.mem_append, List.mem_map, List.mem_cons, List.not_mem_nil, or_false] at member
  rcases member with ⟨table, listed, rfl⟩ | rfl | rfl
  · exact ⟨about_delete (by simpa using listed), _, rfl⟩
  · exact ⟨about_deleteKind (by simp), _, rfl⟩
  · exact ⟨about_deleteKind (by simp), _, rfl⟩

/-- A name that is added had no record. -/
private theorem addedNames_new {store : PolicyTables} {name : Text} :
    ∀ {names stored : List Text}, name ∈ store.addedNames vcat path names stored →
      store.has .relations (named vcat (NamePath.childKey path name)) = false
  | [], _, member => by cases member
  | first :: rest, stored, member => by
    simp only [addedNames] at member
    split_ifs at member with sibling held
    · exact addedNames_new member
    · exact addedNames_new member
    · rcases List.mem_cons.mp member with rfl | later
      · simp only [not_or, Bool.not_eq_true] at held
        exact held.1
      · exact addedNames_new later

/-- A name that is pruned has a record. -/
private theorem staleNames_held {store : PolicyTables} {name : Text}
    (member : name ∈ store.staleNames vcat path origin names) : store.has .relations (named vcat name) = true := by
  simp only [staleNames, List.mem_filter, List.mem_filterMap] at member
  obtain ⟨⟨row, ⟨held, passes⟩, text⟩, _⟩ := member
  simp only [Bool.and_eq_true] at passes
  have key : row .vname = .text name := by
    unfold textOf at text
    split at text
    · next found => rw [found, Option.some.inj text]
    · cases text
  exact has_iff.mpr ⟨row, held, named_iff.mpr ⟨is_iff.mp passes.1.1, key⟩⟩

/-- What a statement of a refresh is about: a name without a record, or one that is pruned. -/
private theorem mem_refreshWrites {store : PolicyTables} {write : Write}
    (member : write ∈ refreshWrites facts store vcat path head origin names prune) :
    ∃ vname, About vcat vname write ∧
      ((store.has .relations (named vcat vname) = false ∧
        ∀ deletion, write = .delete deletion → deletion.table ≠ .roleObjectCaps) ∨
      (prune = true ∧ vname ∈ store.staleNames vcat path origin names ∧ ∃ deletion, write = .delete deletion)) := by
  simp only [refreshWrites, List.mem_append, List.mem_flatMap] at member
  rcases member with ⟨name, added, written⟩ | pruned
  · obtain ⟨about, grants⟩ := about_alias written
    exact ⟨_, about, .inl ⟨addedNames_new added, grants⟩⟩
  · split_ifs at pruned with all
    · obtain ⟨name, stale, written⟩ := List.mem_flatMap.mp pruned
      obtain ⟨about, deletes⟩ := about_prune written
      exact ⟨name, about, .inr ⟨all, stale, deletes⟩⟩
    · cases pruned

/-- Rows of tables a refresh does not write stay as they are. -/
private theorem refresh_same_table {table : TableName} (test : Row → Bool)
    (unwritten : table ∉ [TableName.relations, .relationColumns, .relationTypes, .columnComments, .roleObjectCaps, .keys,
      .objectColumns]) :
    SameRows before (before.writeAll (refreshWrites facts before vcat path head origin names prune)) table test := by
  apply filter_writeAll
  · intro write member
    obtain ⟨vname, about, _⟩ := mem_refreshWrites member
    cases write with
    | delete deletion => trivial
    | insert other cells =>
      rintro rfl
      have listed := about.1
      simp only [List.mem_cons, List.not_mem_nil, or_false] at listed unwritten
      rcases listed with rfl | rfl <;> simp at unwritten
    | insertOrIgnore other cells => exact about.elim
  · intro write member
    obtain ⟨vname, about, _⟩ := mem_refreshWrites member
    cases write with
    | delete deletion =>
      intro same
      exact absurd (same ▸ about.1) unwritten
    | insert other cells => trivial
    | insertOrIgnore other cells => trivial

/-- Rows of a relation that had a record and is not pruned stay as they are. -/
private theorem refresh_same_named {cat name : Text} (had : before.has .relations (named cat name) = true)
    (kept : ¬ (prune = true ∧ cat = vcat ∧ name ∈ before.staleNames vcat path origin names)) {table : TableName}
    {test : Row → Bool} (named' : ∀ row, test row = true → named cat name row = true) :
    SameRows before (before.writeAll (refreshWrites facts before vcat path head origin names prune)) table test := by
  -- no statement is about the relation's name
  have apart : ∀ write ∈ refreshWrites facts before vcat path head origin names prune, ∀ {vname},
      About vcat vname write → ((before.has .relations (named vcat vname) = false) ∨
        (prune = true ∧ vname ∈ before.staleNames vcat path origin names)) → ¬ (cat = vcat ∧ name = vname) := by
    rintro write _ vname _ target ⟨rfl, rfl⟩
    rcases target with new | ⟨all, stale⟩
    · rw [new] at had
      cases had
    · exact kept ⟨all, rfl, stale⟩
  apply filter_writeAll
  · intro write member
    obtain ⟨vname, about, target⟩ := mem_refreshWrites member
    have other := apart write member about (target.imp (·.1) fun pruned => ⟨pruned.1, pruned.2.1⟩)
    cases write with
    | delete deletion => trivial
    | insert table' cells =>
      rintro rfl
      by_contra passes
      rw [Bool.not_eq_false] at passes
      exact other (named_unique (named' _ passes) about.2)
    | insertOrIgnore table' cells => exact about.elim
  · intro write member
    obtain ⟨vname, about, target⟩ := mem_refreshWrites member
    have other := apart write member about (target.imp (·.1) fun pruned => ⟨pruned.1, pruned.2.1⟩)
    cases write with
    | delete deletion =>
      intro _ row passes
      by_contra hit
      rw [Bool.not_eq_false] at hit
      exact other (named_unique (named' row passes) (about.2 row hit).1)
    | insert table' cells => trivial
    | insertOrIgnore table' cells => trivial

/-- The columns of a function stay as they are. -/
private theorem refresh_same_columns {cat name : Text} (kind : FunctionKind) :
    SameRows before (before.writeAll (refreshWrites facts before vcat path head origin names prune)) .objectColumns
      (namedKind cat name kind.text) := by
  have notRelation : kind.text ≠ "relation".toList := by cases kind <;> decide
  apply filter_writeAll
  · intro write member
    obtain ⟨vname, about, _⟩ := mem_refreshWrites member
    cases write with
    | delete deletion => trivial
    | insert table cells =>
      rintro rfl
      have listed := about.1
      simp at listed
    | insertOrIgnore table cells => exact about.elim
  · intro write member
    obtain ⟨vname, about, _⟩ := mem_refreshWrites member
    cases write with
    | delete deletion =>
      intro same row passes
      by_contra hit
      rw [Bool.not_eq_false] at hit
      have relation := (about.2 row hit).2 same
      rw [(namedKind_iff.mp passes).2] at relation
      exact notRelation (Value.text.inj relation)
    | insert table cells => trivial
    | insertOrIgnore table cells => trivial

/-- The object grants of a name that is not pruned stay as they are. -/
private theorem refresh_same_grants {cat name : Text}
    (kept : ¬ (prune = true ∧ cat = vcat ∧ name ∈ before.staleNames vcat path origin names)) :
    SameRows before (before.writeAll (refreshWrites facts before vcat path head origin names prune)) .roleObjectCaps
      (named cat name) := by
  apply filter_writeAll
  · intro write member
    obtain ⟨vname, about, _⟩ := mem_refreshWrites member
    cases write with
    | delete deletion => trivial
    | insert table cells =>
      rintro rfl
      have listed := about.1
      simp at listed
    | insertOrIgnore table cells => exact about.elim
  · intro write member
    obtain ⟨vname, about, target⟩ := mem_refreshWrites member
    cases write with
    | delete deletion =>
      intro same row passes
      by_contra hit
      rw [Bool.not_eq_false] at hit
      obtain ⟨rfl, rfl⟩ := named_unique passes (about.2 row hit).1
      rcases target with ⟨_, untouched⟩ | ⟨all, stale, _⟩
      · exact untouched deletion rfl same
      · exact kept ⟨all, rfl, stale⟩
    | insert table cells => trivial
    | insertOrIgnore table cells => trivial

/-- What a prune deletes of a name is gone. -/
private theorem refresh_clears {vname : Text} (deletion : Delete)
    (stale : vname ∈ before.staleNames vcat path origin names) (among : .delete deletion ∈ pruneWrites vcat vname)
    (named' : ∀ row, deletion.hits row = true → named vcat vname row = true) :
    ∀ row ∈ (before.writeAll (refreshWrites facts before vcat path head origin names true)).rows deletion.table,
      deletion.hits row = false := by
  have held := staleNames_held stale
  have written : Write.delete deletion ∈ refreshWrites facts before vcat path head origin names true := by
    simp only [refreshWrites, ↓reduceIte, List.mem_append, List.mem_flatMap]
    exact .inr ⟨vname, stale, among⟩
  refine cleared_writeAll ?_ written rfl fun _ hit => hit
  intro write member
  obtain ⟨vname', about, target⟩ := mem_refreshWrites member
  cases write with
  | delete deletion => trivial
  | insert table cells =>
    rintro rfl
    by_contra passes
    rw [Bool.not_eq_false] at passes
    obtain ⟨_, rfl⟩ := named_unique (named' _ passes) about.2
    rcases target with ⟨new, _⟩ | ⟨_, _, deletion, same⟩
    · rw [new] at held
      cases held
    · cases same
  | insertOrIgnore table cells => exact about.elim

/-- What a prune misses of a relation: its columns under grants, unless a function keeps them, and its
references; and what it takes that is a function's. -/
def pruneMisses (store : PolicyTables) (vcat vname : Text) : Prop :=
  (store.has .functions (named vcat vname) = false ∧ store.has .grantColumns (named vcat vname) = true) ∨
    store.has .references (endsAt vcat vname) = true ∨
    ((∃ kind : FunctionKind, store.has .functions (namedKind vcat vname kind.text) = true) ∧
      store.has .roleObjectCaps (named vcat vname) = true)

/-- A prune clears every table of a relation but its grant columns and references. -/
private theorem refresh_clears_source {vname : Text} (stale : vname ∈ before.staleNames vcat path origin names)
    {source : RelationRowSource} (listed : source ∈ before.relationRowSources vcat vname)
    (missed : source.table ∉ [TableName.grantColumns, .referenceColumns, .references, .schemaDropped]) :
    ∀ row ∈ (before.writeAll (refreshWrites facts before vcat path head origin names true)).rows source.table,
      source.hits row = false := by
  simp only [relationRowSources, List.mem_cons, List.not_mem_nil, or_false] at listed
  rcases listed with rfl | rfl | rfl | rfl | rfl | rfl | rfl | rfl | rfl | rfl | rfl
  · exact refresh_clears ⟨.relations, named vcat vname⟩ stale (by simp [pruneWrites]) fun _ hit => hit
  · exact refresh_clears ⟨.objectColumns, namedKind vcat vname "relation".toList⟩ stale
      (by simp [pruneWrites]) fun _ hit => (namedKind_iff.mp hit).1
  · exact refresh_clears ⟨.relationColumns, named vcat vname⟩ stale (by simp [pruneWrites]) fun _ hit => hit
  · exact refresh_clears ⟨.relationTypes, named vcat vname⟩ stale (by simp [pruneWrites]) fun _ hit => hit
  · exact refresh_clears ⟨.columnComments, named vcat vname⟩ stale (by simp [pruneWrites]) fun _ hit => hit
  · exact refresh_clears ⟨.keys, namedKind vcat vname "relation".toList⟩ stale
      (by simp [pruneWrites]) fun _ hit => (namedKind_iff.mp hit).1
  · exact refresh_clears ⟨.roleObjectCaps, named vcat vname⟩ stale (by simp [pruneWrites]) fun _ hit => hit
  · simp at missed
  · simp at missed
  · simp at missed
  · simp at missed

/-- A refresh removes all of what it prunes and nothing else, unless it misses something of it. -/
theorem refresh_whole_iff :
    (RemovesWhole before (before.writeAll (refreshWrites facts before vcat path head origin names prune)) ∧
      Confined before (before.writeAll (refreshWrites facts before vcat path head origin names prune))) ↔
      ¬ (prune = true ∧ ∃ vname ∈ before.staleNames vcat path origin names, before.pruneMisses vcat vname) := by
  have functions : ∀ test, SameRows before
      (before.writeAll (refreshWrites facts before vcat path head origin names prune)) .functions test :=
    fun test => refresh_same_table test (by simp)
  have grantColumns : ∀ test, SameRows before
      (before.writeAll (refreshWrites facts before vcat path head origin names prune)) .grantColumns test :=
    fun test => refresh_same_table test (by simp)
  have references : ∀ test, SameRows before
      (before.writeAll (refreshWrites facts before vcat path head origin names prune)) .references test :=
    fun test => refresh_same_table test (by simp)
  have gone : ∀ {cat name}, before.has .relations (named cat name) = true →
      (before.writeAll (refreshWrites facts before vcat path head origin names prune)).has .relations (named cat name)
        = false → prune = true ∧ cat = vcat ∧ name ∈ before.staleNames vcat path origin names := by
    intro cat name had lost
    by_contra kept
    rw [(refresh_same_named had kept fun _ passes => passes).has_eq, had] at lost
    cases lost
  have pruned : ∀ {name}, prune = true → name ∈ before.staleNames vcat path origin names →
      ∀ {source}, source ∈ before.relationRowSources vcat name →
      source.table ∉ [TableName.grantColumns, .referenceColumns, .references, .schemaDropped] →
      ∀ row ∈ (before.writeAll (refreshWrites facts before vcat path head origin names prune)).rows source.table,
        source.hits row = false := by
    intro name all stale source listed missed
    subst all
    exact refresh_clears_source stale listed missed
  have lost : ∀ {name}, prune = true → name ∈ before.staleNames vcat path origin names →
      (before.writeAll (refreshWrites facts before vcat path head origin names prune)).has .relations (named vcat name)
        = false := by
    intro name all stale
    have listed : (⟨.relations, named vcat name, false, false⟩ : RelationRowSource) ∈
        before.relationRowSources vcat name := by simp [relationRowSources]
    exact has_eq_false.mpr (pruned all stale listed (by simp))
  have grants : ∀ {name}, prune = true → name ∈ before.staleNames vcat path origin names →
      ∀ row ∈ (before.writeAll (refreshWrites facts before vcat path head origin names prune)).rows .roleObjectCaps,
        named vcat name row = false := by
    intro name all stale
    have listed : (⟨.roleObjectCaps, named vcat name, true, false⟩ : RelationRowSource) ∈
        before.relationRowSources vcat name := by simp [relationRowSources]
    exact pruned all stale listed (by simp)
  constructor
  · rintro ⟨whole, _, confined⟩ ⟨all, name, stale, missed⟩
    have removed := whole vcat name (staleNames_held stale) (lost all stale)
    rcases missed with ⟨unshared, columns⟩ | referenced | ⟨⟨kind, function⟩, granted⟩
    · have none := removed ⟨.grantColumns, named vcat name, true, false⟩ (by simp [relationRowSources]) rfl
        fun _ => (functions _).has_eq.trans unshared
      rw [(grantColumns _).of_cleared none] at columns
      cases columns
    · have none := removed ⟨.references, endsAt vcat name, false, false⟩ (by simp [relationRowSources]) rfl (by simp)
      rw [(references _).of_cleared none] at referenced
      cases referenced
    · have same := confined vcat name kind ((functions _).has_eq.trans function) (.roleObjectCaps, named vcat name)
        (by simp [functionRecord])
      rw [same.of_cleared (grants all stale)] at granted
      cases granted
  · intro noted
    refine ⟨?_, ?_, ?_⟩
    · intro cat name had gone_ source listed unmarked shared
      obtain ⟨all, rfl, stale⟩ := gone had gone_
      have unnoted : ¬ before.pruneMisses cat name := fun missed => noted ⟨all, name, stale, missed⟩
      have unreferenced : before.has .references (endsAt cat name) = false := by
        by_contra referenced
        rw [Bool.not_eq_false] at referenced
        exact unnoted (.inr (.inl referenced))
      by_cases missed : source.table ∉ [TableName.grantColumns, .referenceColumns, .references, .schemaDropped]
      · exact pruned all stale listed missed
      · simp only [relationRowSources, List.mem_cons, List.not_mem_nil, or_false] at listed
        rcases listed with rfl | rfl | rfl | rfl | rfl | rfl | rfl | rfl | rfl | rfl | rfl
        · simp at missed
        · simp at missed
        · simp at missed
        · simp at missed
        · simp at missed
        · simp at missed
        · simp at missed
        · apply has_eq_false.mp
          rw [(grantColumns _).has_eq]
          by_contra columns
          rw [Bool.not_eq_false] at columns
          exact unnoted (.inl ⟨(functions _).has_eq ▸ shared rfl, columns⟩)
        · intro row _
          by_contra hit
          rw [Bool.not_eq_false] at hit
          simp only [ofReference, Bool.and_eq_true, List.any_eq_true] at hit
          obtain ⟨_, reference, held, ends, _⟩ := hit
          rw [has_eq_false.mp unreferenced reference held] at ends
          cases ends
        · apply has_eq_false.mp
          rw [(references _).has_eq]
          exact unreferenced
        · cases unmarked
    · intro cat name had kept part member
      have unpruned : ¬ (prune = true ∧ cat = vcat ∧ name ∈ before.staleNames vcat path origin names) := by
        rintro ⟨all, rfl, stale⟩
        rw [lost all stale] at kept
        cases kept
      simp only [relationRecord, List.mem_cons, List.not_mem_nil, or_false] at member
      rcases member with rfl | rfl | rfl | rfl | rfl | rfl
      · exact refresh_same_named had unpruned fun _ passes => passes
      · exact refresh_same_named had unpruned fun _ passes => passes
      · exact refresh_same_named had unpruned fun _ passes => passes
      · exact refresh_same_named had unpruned fun _ passes => (namedKind_iff.mp passes).1
      · exact refresh_same_named had unpruned fun _ passes => passes
      · exact refresh_same_named had unpruned fun _ passes => passes
    · intro cat name kind kept part member
      simp only [functionRecord, List.mem_cons, List.not_mem_nil, or_false] at member
      rcases member with rfl | rfl | rfl | rfl
      · exact functions _
      · exact refresh_same_columns kind
      · by_cases unpruned : prune = true ∧ cat = vcat ∧ name ∈ before.staleNames vcat path origin names
        · -- the prune takes the grants of the name, a function's too: there are none
          obtain ⟨all, rfl, stale⟩ := unpruned
          have ungranted : before.has .roleObjectCaps (named cat name) = false := by
            by_contra granted
            rw [Bool.not_eq_false] at granted
            exact noted ⟨all, name, stale, .inr (.inr ⟨⟨kind, (functions _).has_eq ▸ kept⟩, granted⟩)⟩
          unfold SameRows
          rw [List.filter_eq_nil_iff.mpr, List.filter_eq_nil_iff.mpr]
          · intro row held
            simp [has_eq_false.mp ungranted row held]
          · intro row held
            simp [grants all stale row held]
        · exact refresh_same_grants unpruned
      · exact grantColumns _

end PolicyTables

/-! ## The three removals -/

/-- The operations that remove relations. -/
inductive RelationRemoval where
  | dropRelation (vcat vname : Text)
  | refreshSchemaObjects (vcat path : Text) (prune : Bool)
  | dropSchemaAlias (vcat path : Text) (cascade : Bool)

namespace RelationRemoval

open PolicyTables (RecordFacts)

def run (facts : RecordFacts) (store : PolicyTables) : RelationRemoval → Except Text PolicyTables
  | dropRelation vcat vname => store.catalogDropRelation vcat vname
  | refreshSchemaObjects vcat path prune => store.catalogRefreshSchemaObjects facts vcat path prune
  | dropSchemaAlias vcat path cascade => store.catalogDropSchemaAlias vcat path cascade

/-- The removal meets rows its own list of tables is wrong about: a prune of a relation with columns
under grants or references, or of one whose name a granted function bears; a cascade over a relation
with column comments. -/
def Misses (facts : RecordFacts) (store : PolicyTables) : RelationRemoval → Prop
  | dropRelation _ _ => False
  | refreshSchemaObjects vcat path prune =>
    prune = true ∧ ∃ schema origin names,
      (store.rows .schemas).find? (fun row => row.is .vcat vcat && row.is .path path) = some schema ∧
      PolicyTables.textOf .origin schema = some origin ∧ facts.physicalObjects origin = some names ∧
      ∃ vname ∈ store.staleNames vcat path origin names, store.pruneMisses vcat vname
  | dropSchemaAlias vcat path cascade => cascade = true ∧ store.dropSchemaMisses vcat path

variable {facts : RecordFacts} {before after : PolicyTables}

/-- What a refresh that runs has read. -/
private theorem refresh_reads {vcat path : Text} {prune : Bool}
    (ran : before.catalogRefreshSchemaObjects facts vcat path prune = .ok after) :
    ∃ schema origin names head,
      (before.rows .schemas).find? (fun row => row.is .vcat vcat && row.is .path path) = some schema ∧
      PolicyTables.textOf .origin schema = some origin ∧ facts.physicalObjects origin = some names ∧
      after = before.writeAll (PolicyTables.refreshWrites facts before vcat path head origin names prune) := by
  unfold PolicyTables.catalogRefreshSchemaObjects at ran
  split at ran
  · cases ran
  rename_i schema found
  split at ran
  · cases ran
  rename_i origin expanded
  split at ran
  · cases ran
  rename_i names listed
  split at ran
  · rename_i head _ _
    exact ⟨schema, origin, names, head, found, expanded, listed, (Except.ok.inj ran).symm⟩
  · cases ran

/-- A removal of relations removes all of them and nothing else exactly when it misses nothing. -/
theorem removes_whole_iff (removal : RelationRemoval) (facts : RecordFacts) (before after : PolicyTables)
    (ran : removal.run facts before = .ok after) :
    (before.RemovesWhole after ∧ before.Confined after) ↔ ¬ removal.Misses facts before := by
  cases removal with
  | dropRelation vcat vname => exact iff_of_true (PolicyTables.dropRelation_whole ran) id
  | refreshSchemaObjects vcat path prune =>
    obtain ⟨schema, origin, names, head, found, expanded, listed, rfl⟩ := refresh_reads ran
    rw [PolicyTables.refresh_whole_iff, not_iff_not]
    constructor
    · rintro ⟨all, missed⟩
      exact ⟨all, schema, origin, names, found, expanded, listed, missed⟩
    · rintro ⟨all, schema', origin', names', found', expanded', listed', missed⟩
      rw [found] at found'
      cases found'
      rw [expanded] at expanded'
      cases expanded'
      rw [listed] at listed'
      cases listed'
      exact ⟨all, missed⟩
  | dropSchemaAlias vcat path cascade => exact PolicyTables.dropSchema_whole_iff ran

/-- A schema over a relation and a function of one name, with a grant and a comment on a column. -/
def staffSchema : PolicyTables := .of
  [(.schemas, [(.vcat, .text "hr".toList), (.path, .text "staff".toList)]),
   (.relations, [(.vcat, .text "hr".toList), (.vname, .text "staff.people".toList)]),
   (.functions, [(.vcat, .text "hr".toList), (.vname, .text "staff.people".toList), (.kind, .text "table".toList)]),
   (.columnComments, [(.vcat, .text "hr".toList), (.vname, .text "staff.people".toList),
     (.columnName, .text "salary".toList), (.comment, .text "yearly".toList)]),
   (.roleObjectCaps, [(.role, .text "clerk".toList), (.vcat, .text "hr".toList), (.vname, .text "staff.people".toList),
     (.caps, .text "EXECUTE".toList)])]

def noFacts : RecordFacts := ⟨fun _ => none, fun _ => [], .null, .null⟩

theorem removes_whole_iff_staff :
    ∃ after, (dropRelation "hr".toList "staff.people".toList).run noFacts staffSchema = .ok after ∧
      staffSchema.RemovesWhole after ∧ staffSchema.Confined after := by
  have known : staffSchema.has .relations (PolicyTables.named "hr".toList "staff.people".toList) = true := by decide
  obtain ⟨after, ran⟩ :
      ∃ after, (dropRelation "hr".toList "staff.people".toList).run noFacts staffSchema = .ok after := by
    simp only [run, PolicyTables.catalogDropRelation, known, ↓reduceIte, Except.ok.injEq, exists_eq']
  exact ⟨after, ran, (removes_whole_iff _ noFacts staffSchema after ran).mpr id⟩

/-- A cascading drop of the schema leaves the comments on the columns of its relations. -/
theorem cascade_leaves_column_comments :
    ¬ ∀ (removal : RelationRemoval) (facts : RecordFacts) (before after : PolicyTables),
      removal.run facts before = .ok after → before.RemovesWhole after ∧ before.Confined after := by
  intro always
  have known : staffSchema.has .schemas (fun row => row.is .vcat "hr".toList && row.is .path "staff".toList) = true := by
    decide
  obtain ⟨after, ran, rfl⟩ : ∃ after, (dropSchemaAlias "hr".toList "staff".toList true).run noFacts staffSchema = .ok after ∧
      after = staffSchema.writeAll (staffSchema.dropSchemaWrites "hr".toList "staff".toList true) := by
    simp only [run, PolicyTables.catalogDropSchemaAlias, known, Bool.true_eq_false, and_false, ↓reduceIte,
      Except.ok.injEq, exists_eq_left']
  have whole := (always _ noFacts staffSchema _ ran).1 "hr".toList "staff.people".toList (by decide) (by decide)
    ⟨.columnComments, PolicyTables.named "hr".toList "staff.people".toList, false, false⟩
    (by simp [PolicyTables.relationRowSources]) rfl (by simp)
  exact absurd whole (by decide)

end RelationRemoval

end DuckAcl
