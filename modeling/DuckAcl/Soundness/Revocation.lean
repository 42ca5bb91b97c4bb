import DuckAcl.Model.PolicyRevocation

/-! # What a revocation leaves behind

A name's rights are spread over many tables, and each removal lists the ones it clears. The theorem
says for each removal which tables its list misses, and that nothing else stands in the way: the store
is then the one in which the name never was.
-/

namespace DuckAcl

/-- The three removals. -/
inductive Removal where
  | revoke (role vcat : Text)
  | dropRole (role : Text)
  | dropCatalog (vcat : Text) (cascade : Bool)
deriving DecidableEq, Repr

namespace Removal

def run (store : PolicyTables) : Removal → Except Text PolicyTables
  | revoke role vcat => store.catalogRevoke role vcat
  | dropRole role => store.catalogDropRole role
  | dropCatalog vcat cascade => store.catalogDropCatalog vcat cascade

/-- The row names what is removed: the pair, the role, or the catalog. -/
def names : Removal → Row → Bool
  | revoke role vcat => fun row => row.is .role role && row.is .vcat vcat
  | dropRole role => fun row => row.is .role role
  | dropCatalog vcat _ => fun row => row.is .vcat vcat

/-- The tables the removal clears. -/
def cleared : Removal → List TableName
  | revoke _ _ => PolicyTables.revokedTables
  | dropRole _ => PolicyTables.droppedWithRole
  | dropCatalog _ cascade =>
    PolicyTables.droppedWithCatalog ++ (if cascade then PolicyTables.droppedByCascade else []) ++ [.catalogs]

/-- The tables that can name what is removed and that the removal neither clears nor asks. -/
def missed : Removal → List TableName
  | revoke _ _ => [.roleSchemas, .admins]
  | dropRole _ => [.functionGrants, .platformGrants]
  | dropCatalog _ true => [.admins]
  | dropCatalog _ false => [.roleObjectCaps, .grantColumns, .roleSchemas, .admins]

end Removal

/-- The tables a resolution reads rights from. -/
def resolutionTables : List TableName :=
  [.roleCatalogs, .roleSchemas, .roleObjectCaps, .grantColumns, .roleClaims, .admins, .platformGrants, .functionGrants,
    .roleMappings, .roleResourceGroups]

namespace PolicyTables

/-- The store in which no row ever named it. -/
def without (store : PolicyTables) (names : Row → Bool) : PolicyTables where
  rows table := (store.rows table).filter fun row => !names row
  own table row member := store.own table row (List.mem_filter.mp member).1

/-- Nothing that a resolution reads names it. -/
def NoneNamed (store : PolicyTables) (names : Row → Bool) : Prop :=
  ∀ table ∈ resolutionTables, ∀ row ∈ store.rows table, names row = false

end PolicyTables

namespace Removal

variable {removal : Removal} {store after : PolicyTables}

private theorem hitBy_map (tables : List TableName) (test : Row → Bool) (table : TableName) (row : Row) :
    Tables.hitBy (tables.map fun cleared => (⟨cleared, test⟩ : Delete)) table row =
      (decide (table ∈ tables) && test row) := by
  induction tables with
  | nil => rfl
  | cons first rest ih =>
    have step : Tables.hitBy ((first :: rest).map fun cleared => (⟨cleared, test⟩ : Delete)) table row =
        ((decide (first = table) && test row) ||
          Tables.hitBy (rest.map fun cleared => (⟨cleared, test⟩ : Delete)) table row) := rfl
    rw [step, ih, ← Bool.and_or_distrib_right]
    congr 1
    simp only [List.mem_cons, Bool.decide_or]
    congr 1
    exact decide_eq_decide.mpr eq_comm

/-- A removal that returns has cleared its tables of what it names. -/
theorem run_eq (ran : removal.run store = .ok after) :
    after = store.deleteAll (removal.cleared.map fun table => ⟨table, removal.names⟩) := by
  cases removal with
  | revoke role vcat =>
    simp only [run, PolicyTables.catalogRevoke] at ran
    split_ifs at ran
    exact (Except.ok.inj ran).symm
  | dropRole role =>
    simp only [run, PolicyTables.catalogDropRole] at ran
    split_ifs at ran
    exact (Except.ok.inj ran).symm
  | dropCatalog vcat cascade =>
    unfold run PolicyTables.catalogDropCatalog at ran
    dsimp only at ran
    split at ran
    · cases ran
    · split at ran
      · cases ran
      · exact (Except.ok.inj ran).symm

/-- What a removal leaves of one table. -/
theorem rows_of_run (ran : removal.run store = .ok after) (table : TableName) :
    after.rows table = (store.rows table).filter fun row => !(decide (table ∈ removal.cleared) && removal.names row) := by
  rw [run_eq ran]
  show store.rows.deleteAll _ table = _
  rw [Tables.deleteAll_apply]
  apply List.filter_congr
  intro row _
  rw [hitBy_map]

/-- A row holds no role where its table has no such column. -/
private theorem is_of_absent {table : TableName} {row : Row} (member : row ∈ store.rows table) {cell : Column}
    (absent : cell ∉ table.columns) (text : Text) : row.is cell text = false := by
  have nothing := store.own table row member cell absent
  simp [Row.is, nothing]

/-- A table that is neither cleared nor missed names nothing that is removed. -/
theorem unnamed_elsewhere (ran : removal.run store = .ok after) {table : TableName} (kept : table ∉ removal.cleared)
    (seen : table ∉ removal.missed) : ∀ row ∈ store.rows table, removal.names row = false := by
  intro row member
  cases removal with
  | revoke role vcat =>
    have absent : Column.role ∉ table.columns ∨ Column.vcat ∉ table.columns := by
      revert kept seen
      cases table <;> simp [cleared, missed, PolicyTables.revokedTables, TableName.columns]
    simp only [names, Bool.and_eq_false_iff]
    exact absent.imp (fun none => is_of_absent member none role) (fun none => is_of_absent member none vcat)
  | dropRole role =>
    have absent : Column.role ∉ table.columns := by
      revert kept seen
      cases table <;> simp [cleared, missed, PolicyTables.droppedWithRole, TableName.columns]
    exact is_of_absent member absent role
  | dropCatalog vcat cascade =>
    cases cascade with
    | true =>
      have absent : Column.vcat ∉ table.columns := by
        revert kept seen
        cases table <;>
          simp [cleared, missed, PolicyTables.droppedWithCatalog, PolicyTables.droppedByCascade, TableName.columns]
      exact is_of_absent member absent vcat
    | false =>
      by_cases grants : table = .roleCatalogs
      · -- without CASCADE a catalog that is still granted is not dropped
        subst grants
        unfold run PolicyTables.catalogDropCatalog at ran
        dsimp only at ran
        split at ran
        · cases ran
        · split at ran
          · cases ran
          · next held =>
            simp only [and_true, Bool.not_eq_true] at held
            exact PolicyTables.has_eq_false.mp held row member
      · have absent : Column.vcat ∉ table.columns := by
          revert kept seen grants
          cases table <;> simp [cleared, missed, PolicyTables.droppedWithCatalog, TableName.columns]
        exact is_of_absent member absent vcat

private theorem missed_resolved (removal : Removal) :
    ∀ table ∈ removal.missed, table ∈ resolutionTables ∧ table ∉ removal.cleared := by
  cases removal with
  | revoke role vcat => simp [missed, cleared, resolutionTables, PolicyTables.revokedTables]
  | dropRole role => simp [missed, cleared, resolutionTables, PolicyTables.droppedWithRole]
  | dropCatalog vcat cascade =>
    cases cascade <;>
      simp [missed, cleared, resolutionTables, PolicyTables.droppedWithCatalog, PolicyTables.droppedByCascade]

/-- A removal leaves nothing behind, and the store is the one in which the name never was, exactly
when the tables it misses hold nothing of it. -/
theorem leaves_nothing_iff (removal : Removal) (store after : PolicyTables) (ran : removal.run store = .ok after) :
    (after.NoneNamed removal.names ∧ after = store.without removal.names) ↔
      ∀ table ∈ removal.missed, store.has table removal.names = false := by
  constructor
  · rintro ⟨none, _⟩ table member
    obtain ⟨resolved, kept⟩ := missed_resolved removal table member
    refine PolicyTables.has_eq_false.mpr fun row held => none table resolved row ?_
    rw [rows_of_run ran, List.mem_filter]
    exact ⟨held, by simp [kept]⟩
  · intro missed
    have whole : ∀ table, after.rows table = (store.without removal.names).rows table := by
      intro table
      rw [rows_of_run ran]
      show _ = (store.rows table).filter _
      by_cases gone : table ∈ removal.cleared
      · simp [gone]
      · have unnamed : ∀ row ∈ store.rows table, removal.names row = false := by
          by_cases unseen : table ∈ removal.missed
          · exact PolicyTables.has_eq_false.mp (missed table unseen)
          · exact unnamed_elsewhere ran gone unseen
        apply List.filter_congr
        intro row held
        simp [gone, unnamed row held]
    refine ⟨?_, PolicyTables.ext_rows whole⟩
    intro table _ row held
    rw [whole table] at held
    simpa using (List.mem_filter.mp held).2

/-- A role with a catalog, claims and an object grant. -/
def plainRole : PolicyTables := .of
  [(.roles, [(.role, .text "analyst".toList)]),
   (.roleCatalogs, [(.role, .text "analyst".toList), (.vcat, .text "sales".toList)]),
   (.roleObjectCaps, [(.role, .text "analyst".toList), (.vcat, .text "sales".toList), (.vname, .text "orders".toList)]),
   (.roleClaims, [(.role, .text "analyst".toList), (.claim, .text "tenant".toList), (.value, .text "1".toList)]),
   (.roleClaims, [(.role, .text "other".toList), (.claim, .text "tenant".toList), (.value, .text "2".toList)])]

theorem leaves_nothing_iff_plainRole :
    ∃ after, (dropRole "analyst".toList).run plainRole = .ok after ∧ after.NoneNamed (dropRole "analyst".toList).names ∧
      after = plainRole.without (dropRole "analyst".toList).names := by
  have known : (plainRole.has .roles fun row => row.is .role "analyst".toList) = true := by decide
  obtain ⟨after, ran⟩ : ∃ after, (dropRole "analyst".toList).run plainRole = .ok after := by
    simp only [run, PolicyTables.catalogDropRole, known, ↓reduceIte, Except.ok.injEq, exists_eq']
  exact ⟨after, ran, (leaves_nothing_iff _ plainRole after ran).mpr (by decide)⟩

/-- A role granted a catalog, and capabilities on one of its schemas. -/
def schemaGrant : PolicyTables := .of
  [(.roleCatalogs, [(.role, .text "analyst".toList), (.vcat, .text "sales".toList)]),
   (.roleSchemas, [(.role, .text "analyst".toList), (.vcat, .text "sales".toList), (.schemaPath, .text "staff".toList)])]

/-- The schema grant outlives the revocation of the catalog, and is there when it is granted again. -/
theorem revoke_leaves_schema_grant :
    ¬ ∀ (removal : Removal) (store after : PolicyTables), removal.run store = .ok after →
      after.NoneNamed removal.names ∧ after = store.without removal.names := by
  intro always
  have held : (PolicyTables.revokedTables.any fun table =>
      schemaGrant.has table fun row => row.is .role "analyst".toList && row.is .vcat "sales".toList) = true := by decide
  obtain ⟨after, ran⟩ : ∃ after, (revoke "analyst".toList "sales".toList).run schemaGrant = .ok after := by
    simp only [run, PolicyTables.catalogRevoke, held, ↓reduceIte, Except.ok.injEq, exists_eq']
  have gone := (always _ schemaGrant after ran).1 .roleSchemas (by decide)
  rw [rows_of_run ran] at gone
  exact absurd gone (by decide)

end Removal

end DuckAcl
