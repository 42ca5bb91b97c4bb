import Mathlib
import DuckAcl.Model.AdminWrites

/-! # What a call of administration can do to the store

Each operation writes the tables that hold rights in one of a few ways, and says so here once: what later
holds of a batch or of a run is derived from this list.
-/

namespace DuckAcl

/-- The operations that only a passthrough scope calls. -/
def AdminOperation.escalates : AdminOperation → Bool
  | .grantAdmin | .revokeAdmin | .grantPlatform | .revokePlatform => true
  | _ => false

/-- The operations that edit the identity model. -/
def AdminOperation.edits : AdminOperation → Bool
  | .defineIssuer | .alterIssuer | .dropIssuer | .defineClient | .alterClient | .dropClient | .mapRole
  | .dropRoleMapping => true
  | _ => false

namespace AdminNode

variable {node : AdminNode} {store next : AdminStore} {values : Values}

open PolicyTables (isGrant deleteRole droppedWithRole)

/-- What an operation that does not escalate leaves. -/
inductive Wrote (node : AdminNode) (store : AdminStore) (values : Values) : AdminOperation → AdminStore → Prop
  | nothing (operation : AdminOperation) : Wrote node store values operation store
  | cleared {operation : AdminOperation} (which : operation = .revokeCatalog ∨ operation = .dropCatalog)
      (deletions : List Delete) (keeps : ∀ deletion ∈ deletions, deletion.table ≠ .platformGrants) :
      Wrote node store values operation { store with tables := store.tables.deleteAll deletions }
  | roleDropped (role : Text) :
      Wrote node store values .dropRole
        { tables := store.tables.deleteAll (droppedWithRole.map (deleteRole role))
          identity := { store.identity with mappings := store.identity.mappings.filter (decide <| ·.role ≠ role) } }
  | granted (request : GrantRequest) (named : values 0 = some request.role)
      (told : request.capsJson = values.optional 2 "")
      (parsed : ∃ caps, parseCaps true request.capsJson node.yyjsonRead = .ok caps) :
      Wrote node store values .grantCatalog { store with tables := node.writeGrant store.tables request }
  | recapped (request : GrantRequest) {field : Text} (named : values 0 = some request.role)
      (asked : values 2 = some field) (which : Text.fold field = "caps".toList)
      (told : request.capsJson = values.optional 3 "")
      (parsed : ∃ caps, parseCaps true request.capsJson node.yyjsonRead = .ok caps) :
      Wrote node store values .alterGrant { store with tables := node.writeGrant store.tables request }
  | kept (request : GrantRequest) {row : Row} (held : row ∈ store.tables.rows .roleCatalogs)
      (here : isGrant request.role request.vcat row = true) (same : request.capsJson = columnText row .caps) :
      Wrote node store values .alterGrant { store with tables := node.writeGrant store.tables request }
  | ensured {operation : AdminOperation} (which : operation = .grantObject ∨ operation = .grantSchema) (role vcat : Text) :
      Wrote node store values operation { store with tables := store.tables.ensureGrant role vcat }
  | rechecked (vcat : Text) :
      Wrote node store values .refreshSchema { store with tables := node.recheckGrants store.tables vcat }
  | sourced {operation : AdminOperation} (which : operation = .grantSource ∨ operation = .revokeSource) {role source : Text}
      {allowed : Option Bool} {tables : PolicyTables}
      (wrote : store.tables.catalogWritePlatformGrant role "source".toList source allowed = .ok tables) :
      Wrote node store values operation { store with tables }
  | edited {operation : AdminOperation} {model identity : IdentityModel} (edits : operation.edits = true)
      (edit : node.edit values operation store.identity = .ok model)
      (settled : (({ node.services with
          privileged := fun role => (node.rolePrivileged store role).toOption.getD false } : IdentityNode).editIdentity
        store.identity model) = .ok identity) :
      Wrote node store values operation { store with identity }

/-- A role that is read is the argument, and names a role. -/
theorem role_eq_ok {index : ℕ} {function : String} {role : Text} :
    values.role index function = .ok role ↔ values index = some role ∧ role ≠ [] := by
  unfold Values.role Values.required
  cases values index with
  | none => simp [Except.bind]
  | some value =>
    by_cases empty : value = []
    · simp only [Except.bind, empty, if_true, reduceCtorEq, Option.some.injEq, false_iff]
      rintro ⟨rfl, named⟩
      exact named rfl
    · simp only [Except.bind, empty, if_false, Except.ok.injEq, Option.some.injEq]
      constructor
      · rintro rfl
        exact ⟨rfl, empty⟩
      · exact fun same => same.1

theorem required_eq_ok {index : ℕ} {function what : String} {value : Text} :
    values.required index function what = .ok value ↔ values index = some value := by
  unfold Values.required
  cases values index <;> simp

theorem catalogGrant_eq_ok {tables after : PolicyTables} {request : GrantRequest}
    (granted : node.catalogGrant tables request = .ok after) :
    (∃ caps, parseCaps request.judgeCaps request.capsJson node.yyjsonRead = .ok caps) ∧
      after = node.writeGrant tables request := by
  unfold catalogGrant at granted
  split_ifs at granted
  cases parsed : parseCaps request.judgeCaps request.capsJson node.yyjsonRead with
  | error refusal => rw [parsed] at granted; cases granted
  | ok caps =>
    rw [parsed] at granted
    exact ⟨⟨caps, rfl⟩, (Except.ok.inj granted).symm⟩

private theorem alterGrant_wrote {tables : PolicyTables} {role vcat field : Text} (same : store.tables = tables)
    (named : values 0 = some role) (asked : values 2 = some field) {after : PolicyTables}
    (altered : node.catalogAlterGrant tables role vcat (Text.fold field) (values.optional 3 "") = .ok after) :
    Wrote node store values .alterGrant { store with tables := after } := by
  subst same
  unfold catalogAlterGrant at altered
  cases found : (store.tables.rows .roleCatalogs).find? (isGrant role vcat) with
  | none => rw [found] at altered; cases altered
  | some row =>
    rw [found] at altered
    have held := List.mem_of_find?_eq_some found
    have here := List.find?_some found
    dsimp only at altered
    split_ifs at altered with caps rls columns main truth
    · obtain ⟨parsed, rfl⟩ := catalogGrant_eq_ok altered
      exact .recapped _ named asked caps rfl parsed
    all_goals
      obtain ⟨_, rfl⟩ := catalogGrant_eq_ok altered
      exact .kept _ held here rfl

private theorem removal_wrote {operation : AdminOperation} (which : operation = .revokeCatalog ∨ operation = .dropCatalog)
    {tables : List TableName} (test : Row → Bool) (apart : TableName.platformGrants ∉ tables) :
    Wrote node store values operation
      { store with tables := store.tables.deleteAll (tables.map fun table => ⟨table, test⟩) } := by
  refine .cleared which _ fun deletion member there => apart ?_
  obtain ⟨table, inside, rfl⟩ := List.mem_map.mp member
  exact there ▸ inside

/-- What an operation leaves, unless it escalates. -/
theorem effect_wrote {operation : AdminOperation} (plain : operation.escalates = false)
    (ran : node.effect store values operation = .ok next) : Wrote node store values operation next := by
  cases operation with
  | grantCatalog =>
    simp only [effect, Outcome.bind_eq_ok, Outcome.pure_eq_ok, role_eq_ok] at ran
    obtain ⟨role, ⟨named, _⟩, vcat, _, tables, granted, rfl⟩ := ran
    obtain ⟨parsed, rfl⟩ := catalogGrant_eq_ok granted
    exact .granted _ named rfl parsed
  | revokeCatalog =>
    simp only [effect, Outcome.bind_eq_ok, Outcome.pure_eq_ok] at ran
    obtain ⟨role, _, vcat, _, tables, revoked, rfl⟩ := ran
    unfold PolicyTables.catalogRevoke at revoked
    split_ifs at revoked
    obtain rfl := Except.ok.inj revoked
    exact removal_wrote (.inl rfl) _ (by decide)
  | alterGrant =>
    simp only [effect, Outcome.bind_eq_ok, Outcome.pure_eq_ok, role_eq_ok, required_eq_ok] at ran
    obtain ⟨role, ⟨named, _⟩, vcat, _, field, asked, tables, altered, rfl⟩ := ran
    exact alterGrant_wrote rfl named asked altered
  | dropCatalog =>
    simp only [effect, Outcome.bind_eq_ok] at ran
    obtain ⟨vcat, _, ran⟩ := ran
    split_ifs at ran
    · obtain rfl := Outcome.pure_eq_ok.mp ran
      exact .nothing _
    · simp only [Outcome.bind_eq_ok, Outcome.pure_eq_ok] at ran
      obtain ⟨tables, dropped, rfl⟩ := ran
      unfold PolicyTables.catalogDropCatalog at dropped
      split_ifs at dropped
      · obtain rfl := Except.ok.inj dropped
        exact removal_wrote (.inr rfl) _ (by decide)
      · obtain rfl := Except.ok.inj dropped
        exact removal_wrote (.inr rfl) _ (by decide)
  | grantObject | grantSchema =>
    simp only [effect, Outcome.bind_eq_ok, Outcome.pure_eq_ok] at ran
    obtain ⟨role, _, vcat, _, rfl⟩ := ran
    exact .ensured (by simp) role vcat
  | refreshSchema =>
    simp only [effect, Outcome.bind_eq_ok, Outcome.pure_eq_ok] at ran
    obtain ⟨vcat, _, rfl⟩ := ran
    split_ifs
    · exact .rechecked vcat
    · exact .nothing _
  | dropRole =>
    simp only [effect, Outcome.bind_eq_ok] at ran
    obtain ⟨role, _, ran⟩ := ran
    split_ifs at ran
    · obtain rfl := Outcome.pure_eq_ok.mp ran
      exact .nothing _
    · simp only [Outcome.bind_eq_ok, Outcome.pure_eq_ok] at ran
      obtain ⟨tables, dropped, rfl⟩ := ran
      unfold PolicyTables.catalogDropRole at dropped
      split_ifs at dropped
      obtain rfl := Except.ok.inj dropped
      exact .roleDropped role
  | grantAdmin | revokeAdmin | grantPlatform | revokePlatform => cases plain
  | grantSource | revokeSource =>
    simp only [effect, Outcome.bind_eq_ok, Outcome.pure_eq_ok] at ran
    obtain ⟨target, _, tables, wrote, rfl⟩ := ran
    exact .sourced (by simp) wrote
  | defineIssuer | alterIssuer | dropIssuer | defineClient | alterClient | dropClient | mapRole | dropRoleMapping =>
    simp only [effect, editIdentity, Outcome.bind_eq_ok, Outcome.pure_eq_ok] at ran
    obtain ⟨model, edit, identity, settled, rfl⟩ := ran
    exact .edited rfl edit settled

/-! ## What is left of the tables that hold rights -/

private theorem rows_writeAll {store : PolicyTables} {table : TableName} {writes : List Write}
    (adds : ∀ write ∈ writes, write.AddsNone table fun _ => true)
    (takes : ∀ write ∈ writes, write.TakesNone table fun _ => true) :
    (store.writeAll writes).rows table = store.rows table := by
  have same : ((store.writeAll writes).rows table).filter (fun _ => true) = (store.rows table).filter fun _ => true :=
    PolicyTables.filter_writeAll adds takes
  simpa only [List.filter_true] using same

theorem rows_insert (store : PolicyTables) (table : TableName) (cells : List (Column × Value)) :
    (store.insert table cells).rows table = store.rows table ++ [table.row cells] :=
  Function.update_self _ _ _

/-- A row after a change of one column is there before, but for that column. -/
theorem mem_mapRows {store : PolicyTables} {table : TableName} {cell : Column} (held : cell ∈ table.columns)
    {value : Row → Option Value} {row : Row} (member : row ∈ (store.mapRows table cell held value).rows table) :
    ∃ before ∈ store.rows table, row = before ∨ ∃ given, row = Function.update before cell given := by
  unfold PolicyTables.mapRows at member
  dsimp only at member
  rw [Function.update_self] at member
  obtain ⟨before, inside, rfl⟩ := List.mem_map.mp member
  refine ⟨before, inside, ?_⟩
  cases value before with
  | none => exact .inl rfl
  | some given => exact .inr ⟨given, rfl⟩

/-- A grant of a catalog writes its own table only. -/
theorem rows_writeGrant {tables : PolicyTables} {request : GrantRequest} {table : TableName} (apart : table ≠ .roleCatalogs) :
    (node.writeGrant tables request).rows table = tables.rows table := by
  refine rows_writeAll ?_ ?_
  · rintro write member
    rcases List.mem_pair.mp member with rfl | rfl
    · trivial
    · exact fun same => absurd same.symm apart
  · rintro write member
    rcases List.mem_pair.mp member with rfl | rfl
    · exact fun same => absurd same.symm apart
    · trivial

theorem rows_ensureGrant {tables : PolicyTables} {role vcat : Text} {table : TableName} (apart : table ≠ .roleCatalogs) :
    (tables.ensureGrant role vcat).rows table = tables.rows table := by
  unfold PolicyTables.ensureGrant
  split_ifs
  · rfl
  · exact Function.update_of_ne apart _ _

theorem rows_recheckGrants {tables : PolicyTables} {vcat : Text} {table : TableName} (apart : table ≠ .roleCatalogs) :
    (node.recheckGrants tables vcat).rows table = tables.rows table :=
  Function.update_of_ne apart _ _

/-- A point grant that is written is its own table's, of its own kind. -/
theorem filter_writePlatformGrant {store after : PolicyTables} {role kind object : Text} {allowed : Option Bool}
    (wrote : store.catalogWritePlatformGrant role kind object allowed = .ok after) (table : TableName) {test : Row → Bool}
    (apart : ∀ row, test row = true → table = .platformGrants →
      Text.ciEquals (FixedPolicy.cellText (row .kind)) kind = false) :
    (after.rows table).filter test = (store.rows table).filter test := by
  have missed : ∀ row, test row = true → TableName.platformGrants = table →
      PolicyTables.isPlatformGrant role kind object row = false := by
    intro row passes same
    rw [PolicyTables.isPlatformGrant, apart row passes same.symm, Bool.and_false]
  unfold PolicyTables.catalogWritePlatformGrant at wrote
  cases allowed with
  | some allowed =>
    obtain rfl := Except.ok.inj wrote
    refine PolicyTables.filter_writeAll ?_ ?_
    · rintro write member
      rcases List.mem_pair.mp member with rfl | rfl
      · trivial
      · intro same
        by_contra passes
        rw [Bool.not_eq_false] at passes
        have other := apart _ passes same.symm
        subst same
        have is : TableName.platformGrants.row [(.role, .text role), (.object, .text object), (.kind, .text kind),
            (.allowed, .boolean allowed)] .kind = .text kind := rfl
        rw [is] at other
        exact absurd (Text.ciEquals_iff.mpr rfl) (Bool.eq_false_iff.mp other)
    · rintro write member
      rcases List.mem_pair.mp member with rfl | rfl
      · exact fun same row passes => missed row passes same
      · trivial
  | none =>
    dsimp only at wrote
    split_ifs at wrote
    obtain rfl := Except.ok.inj wrote
    show (store.rows.deleteAll _ table).filter test = _
    rw [Tables.deleteAll_apply, List.filter_filter]
    refine List.filter_congr fun row _ => ?_
    cases passes : test row with
    | false => simp
    | true =>
      by_cases same : TableName.platformGrants = table
      · simp [Tables.hitBy, same, missed row passes same]
      · simp [Tables.hitBy, same]

/-- A grant on a view or a function of the system catalog, and not on a source. -/
def notSource (row : Row) : Bool := !Text.ciEquals (FixedPolicy.cellText (row .kind)) "source".toList

/-- No operation but those that escalate adds a row of `admins`. -/
theorem Wrote.admins {operation : AdminOperation} (wrote : Wrote node store values operation next) :
    ∀ row ∈ next.tables.rows .admins, row ∈ store.tables.rows .admins := by
  intro row member
  cases wrote with
  | nothing | edited => exact member
  | cleared | roleDropped => exact (Tables.mem_deleteAll.mp member).1
  | granted | recapped | kept => rwa [rows_writeGrant (by decide)] at member
  | ensured => rwa [rows_ensureGrant (by decide)] at member
  | rechecked => rwa [rows_recheckGrants (by decide)] at member
  | sourced _ wrote =>
    have same := filter_writePlatformGrant wrote .admins (fun (_ : Row) (_ : true = true) is => by cases is)
    rw [List.filter_true, List.filter_true] at same
    rwa [same] at member

/-- No operation but those that escalate touches a grant on a view or a function. -/
theorem Wrote.platform {operation : AdminOperation} (wrote : Wrote node store values operation next) :
    (next.tables.rows .platformGrants).filter notSource = (store.tables.rows .platformGrants).filter notSource := by
  have cleared : ∀ {deletions : List Delete}, (∀ deletion ∈ deletions, deletion.table ≠ .platformGrants) →
      (store.tables.deleteAll deletions).rows .platformGrants = store.tables.rows .platformGrants := by
    intro deletions keeps
    show store.tables.rows.deleteAll _ _ = _
    rw [Tables.deleteAll_apply, List.filter_eq_self]
    intro row _
    rw [Bool.not_eq_true', Tables.hitBy, List.any_eq_false]
    intro deletion member
    simp [keeps deletion member]
  cases wrote with
  | nothing | edited => rfl
  | cleared _ _ keeps => rw [cleared keeps]
  | roleDropped role =>
    rw [cleared]
    intro deletion member
    obtain ⟨table, inside, rfl⟩ := List.mem_map.mp member
    rintro rfl
    exact absurd inside (by decide)
  | granted | recapped | kept => rw [rows_writeGrant (by decide)]
  | ensured => rw [rows_ensureGrant (by decide)]
  | rechecked => rw [rows_recheckGrants (by decide)]
  | sourced _ wrote =>
    refine filter_writePlatformGrant wrote .platformGrants fun row passes _ => ?_
    rwa [notSource, Bool.not_eq_true'] at passes

/-! ## A call that runs -/

/-- A call that runs does what its operation does, if it is one of these, and the tables without rights change besides. -/
theorem execute_cases {function : Text} (ran : node.execute store function values = .ok next) :
    ∃ effected rest, ((AdminOperation.of function = none ∧ effected = store) ∨
        ∃ operation, AdminOperation.of function = some operation ∧ node.effect store values operation = .ok effected) ∧
      next = { effected with tables := effected.tables.overlay rest } := by
  unfold execute at ran
  cases refused : node.refusesCall store function values with
  | some refusal => rw [refused] at ran; cases ran
  | none =>
    rw [refused] at ran
    dsimp only at ran
    cases of : AdminOperation.of function with
    | none =>
      rw [of] at ran
      exact ⟨store, _, .inl ⟨rfl, rfl⟩, (Except.ok.inj ran).symm⟩
    | some operation =>
      rw [of] at ran
      dsimp only at ran
      cases effected : node.effect store values operation with
      | error refusal => rw [effected] at ran; cases ran
      | ok after =>
        rw [effected] at ran
        exact ⟨after, _, .inr ⟨operation, rfl, effected⟩, (Except.ok.inj ran).symm⟩

theorem rows_overlay {rights rest : PolicyTables} {table : TableName} (holds : table.holdsRights = true) :
    (rights.overlay rest).rows table = rights.rows table := by
  show (if table.holdsRights then rights.rows table else rest.rows table) = _
  rw [if_pos holds]

end AdminNode

end DuckAcl
