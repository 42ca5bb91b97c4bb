import Mathlib
import DuckAcl.Library.Runs
import DuckAcl.Soundness.AdminRuns
import DuckAcl.Soundness.IdentityEdits

/-! # Administration reached through a claim

A mapping hands a role to whoever holds a claim. Only passthrough decides who administers, so a batch of any other
caller may neither map a claim to a role that holds administration, nor give administration to a role that is mapped,
nor change the records such a mapping stands on: what claims reach of administration after any sequence of batches
they reached before it, on the same records. A grant of a source is no administration here.
-/

namespace DuckAcl

namespace AdminRights

/-- The key of a point grant on a source. -/
def ofSource (key : Text) : Bool := "source:".toList.isPrefixOf key

/-- The rights administer something; a grant of a source alone does not. -/
def administers (rights : AdminRights) : Bool :=
  ({ rights with platform := rights.platform.filter fun grant => !ofSource grant.1 } : AdminRights).privileged

/-- What the rights hold besides point grants. -/
private def flags (rights : AdminRights) : Bool := ({ rights with platform := [] } : AdminRights).privileged

private theorem administers_eq (rights : AdminRights) :
    rights.administers = (flags rights || rights.platform.any fun grant => !ofSource grant.1) := by
  have some' : (!(rights.platform.filter fun grant => !ofSource grant.1).isEmpty) =
      rights.platform.any fun grant => !ofSource grant.1 := by
    rw [Bool.eq_iff_iff, Bool.not_eq_true', List.isEmpty_eq_false_iff_exists_mem, List.any_eq_true]
    simp only [List.mem_filter]
  unfold administers flags privileged
  dsimp only
  rw [some', List.isEmpty_nil, Bool.not_true, Bool.or_false]

theorem privileged_of_administers {rights : AdminRights} (held : rights.administers = true) : rights.privileged = true := by
  rw [administers_eq, Bool.or_eq_true] at held
  unfold privileged
  rcases held with flag | point
  · unfold flags privileged at flag
    rw [List.isEmpty_nil, Bool.not_true, Bool.or_false] at flag
    rw [flag, Bool.true_or]
  · have some' : rights.platform.isEmpty = false := by
      obtain ⟨grant, member, _⟩ := List.any_eq_true.mp point
      exact List.isEmpty_eq_false_iff_exists_mem.mpr ⟨grant, member⟩
    rw [some', Bool.not_false, Bool.or_true]

variable {clusterRegistered : Bool}

/-- Every row of `admins` gives something. -/
private theorem flags_applyAdminRow (rights : AdminRights) (scope vcat : Text) :
    flags (rights.applyAdminRow clusterRegistered scope vcat) = true := by
  unfold applyAdminRow flags privileged
  have some' : (rights.catalogs.insert vcat).isEmpty = false :=
    List.isEmpty_eq_false_iff_exists_mem.mpr ⟨vcat, List.mem_insert_self⟩
  cases tryParseAdminScope clusterRegistered scope with
  | none => simp
  | some scope => cases scope <;> by_cases whole : vcat = [] <;> simp [whole, some']

/-- What the rows must hold for rights that administer. -/
theorem administers_ofRows (rows : RightsRows) :
    (ofRows clusterRegistered rows).administers =
      (!rows.scopes.isEmpty || !rows.catalogs.isEmpty || rows.platform.any fun row => !ofSource row.1) := by
  have given : flags (ofRows clusterRegistered rows) = (!rows.scopes.isEmpty || !rows.catalogs.isEmpty) := by
    obtain ⟨catalogs, scopes, platform⟩ := rows
    induction scopes using List.reverseRecOn with
    | nil => simp [ofRows, flags, privileged]
    | append_singleton scopes last ih =>
      have last' : flags (ofRows clusterRegistered ⟨catalogs, scopes ++ [last], platform⟩) = true := by
        unfold ofRows
        dsimp only
        rw [List.foldl_append, List.foldl_cons, List.foldl_nil]
        exact flags_applyAdminRow _ last.1 last.2
      rw [last']
      simp
  have points : ((ofRows clusterRegistered rows).platform.any fun grant => !ofSource grant.1) =
      rows.platform.any fun row => !ofSource row.1 := by
    have key : ∀ key, ((ofRows clusterRegistered rows).platform.any fun grant => decide (grant.1 = key)) =
        rows.platform.any fun row => decide (row.1 = key) := by
      intro key
      have found := congrArg Option.isSome (find_points rows.platform key)
      rw [Option.isSome_map, Bool.eq_iff_iff, List.find?_isSome, ← List.any_eq_true] at found
      rw [Bool.eq_iff_iff]
      refine found.trans ?_
      split_ifs with named <;> simp [named]
    have either : ∀ {first second : List (Text × Bool)},
        (∀ key, (first.any fun grant => decide (grant.1 = key)) = second.any fun grant => decide (grant.1 = key)) →
          (first.any fun grant => !ofSource grant.1) = true → (second.any fun grant => !ofSource grant.1) = true := by
      intro first second same some'
      obtain ⟨grant, member, other⟩ := List.any_eq_true.mp some'
      have there := same grant.1
      rw [List.any_eq_true.mpr ⟨grant, member, by simp⟩] at there
      obtain ⟨row, inside, named⟩ := List.any_eq_true.mp there.symm
      exact List.any_eq_true.mpr ⟨row, inside, by rwa [decide_eq_true_eq.mp named]⟩
    rw [Bool.eq_iff_iff]
    exact ⟨either key, either fun each => (key each).symm⟩
  rw [administers_eq, given, points]

end AdminRights

namespace AdminNode

variable {node : AdminNode} {store next : AdminStore} {values : Values}

open PolicyTables (isGrant)
open FixedPolicy (cellText roleIn)

/-! ## The roles that administer -/

/-- The role holds administration. -/
def Administers (node : AdminNode) (store : AdminStore) (role : Text) : Prop :=
  ∃ rights, node.adminRightsOf store [role] = .ok rights ∧ rights.administers = true

/-- What a grant of a catalog manages; the store besides does not matter. -/
def managedBy (node : AdminNode) (row : Row) : Except BinderException (Option Text) :=
  (node.policy { tables := .of [], identity := {} }).managed row

/-- The capabilities of every grant of a catalog are read. -/
def CapsRead (node : AdminNode) (store : AdminStore) : Prop :=
  ∀ row ∈ store.tables.rows .roleCatalogs, ∃ managed, node.managedBy row = .ok managed

/-- A row of the role that makes it administer, in each of the tables. -/
def AdministersBy (node : AdminNode) (store : AdminStore) (role : Text) : Prop :=
  (∃ row ∈ store.tables.rows .admins, row.is .role role = true) ∨
    (∃ row ∈ store.tables.rows .roleCatalogs, row.is .role role = true ∧ ∃ vcat, node.managedBy row = .ok (some vcat)) ∨
      ∃ row ∈ (store.tables.rows .platformGrants).filter notSource, row.is .role role = true ∧
        AdminRights.ofSource (Text.fold (cellText (row .kind)) ++ ':' :: Text.fold (cellText (row .object))) = false

private theorem roleIn_singleton (role : Text) (row : Row) : roleIn [role] row = row.is .role role := by
  unfold roleIn Row.is
  cases row .role with
  | text value => simp
  | null | integer | boolean => simp

private theorem mapM_managed {rows : List Row} (read : ∀ row ∈ rows, ∃ managed, node.managedBy row = .ok managed) :
    ∃ managed, rows.mapM node.managedBy = .ok managed ∧
      ∀ vcat, some vcat ∈ managed ↔ ∃ row ∈ rows, node.managedBy row = .ok (some vcat) := by
  induction rows with
  | nil => exact ⟨[], rfl, fun vcat => by simp⟩
  | cons row rest ih =>
    obtain ⟨here, is⟩ := read row List.mem_cons_self
    obtain ⟨later, ran, holds⟩ := ih fun other member => read other (List.mem_cons_of_mem _ member)
    refine ⟨here :: later, ?_, fun vcat => ?_⟩
    · rw [List.mapM_cons]
      exact Outcome.bind_eq_ok.mpr ⟨here, is, Outcome.bind_eq_ok.mpr ⟨later, ran, rfl⟩⟩
    · rw [List.mem_cons, holds]
      constructor
      · rintro (rfl | ⟨other, member, gives⟩)
        · exact ⟨row, List.mem_cons_self, is⟩
        · exact ⟨other, List.mem_cons_of_mem _ member, gives⟩
      · rintro ⟨other, member, gives⟩
        rcases List.mem_cons.mp member with rfl | inside
        · exact .inl (Except.ok.inj (gives.symm.trans is))
        · exact .inr ⟨other, inside, gives⟩

theorem administers_iff (read : CapsRead node store) {role : Text} :
    Administers node store role ↔ AdministersBy node store role := by
  obtain ⟨managed, ran, holds⟩ := @mapM_managed node ((store.tables.rows .roleCatalogs).filter (roleIn [role]))
    fun row member => read row (List.mem_filter.mp member).1
  have catalogs : (node.policy store).manageCatalogs [role] = .ok (managed.filterMap id).dedup :=
    Outcome.bind_eq_ok.mpr ⟨managed, ran, rfl⟩
  have rights : Administers node store role ↔
      (AdminRights.ofRows node.clusterRegistered ⟨(managed.filterMap id).dedup, (node.policy store).adminScopes [role],
        (node.policy store).platformGrants [role]⟩).administers = true := by
    constructor
    · rintro ⟨rights, is, held⟩
      obtain ⟨other, ran', rfl⟩ := adminRightsOf_eq_ok.mp is
      obtain rfl := Except.ok.inj (catalogs.symm.trans ran')
      exact held
    · exact fun held => ⟨_, adminRightsOf_eq_ok.mpr ⟨_, catalogs, rfl⟩, held⟩
  rw [rights, AdminRights.administers_ofRows, Bool.or_eq_true, Bool.or_eq_true, or_assoc]
  refine or_congr ?_ (or_congr ?_ ?_)
  · rw [Bool.not_eq_true', List.isEmpty_eq_false_iff_exists_mem]
    constructor
    · rintro ⟨scope, member⟩
      obtain ⟨row, inside, _⟩ := List.mem_map.mp member
      obtain ⟨there, whose⟩ := List.mem_filter.mp inside
      exact ⟨row, there, roleIn_singleton role row ▸ whose⟩
    · rintro ⟨row, there, whose⟩
      exact ⟨_, List.mem_map_of_mem (List.mem_filter.mpr ⟨there, (roleIn_singleton role row).symm ▸ whose⟩)⟩
  · rw [Bool.not_eq_true', List.isEmpty_eq_false_iff_exists_mem]
    constructor
    · rintro ⟨vcat, member⟩
      rw [List.mem_dedup, List.mem_filterMap] at member
      obtain ⟨found, inside, is⟩ := member
      obtain rfl : found = some vcat := is
      obtain ⟨row, among, gives⟩ := (holds vcat).mp inside
      obtain ⟨there, whose⟩ := List.mem_filter.mp among
      exact ⟨row, there, roleIn_singleton role row ▸ whose, vcat, gives⟩
    · rintro ⟨row, there, whose, vcat, gives⟩
      refine ⟨vcat, List.mem_dedup.mpr (List.mem_filterMap.mpr ⟨some vcat, (holds vcat).mpr ⟨row, ?_, gives⟩, rfl⟩)⟩
      exact List.mem_filter.mpr ⟨there, (roleIn_singleton role row).symm ▸ whose⟩
  · rw [List.any_eq_true]
    constructor
    · rintro ⟨grant, member, other⟩
      obtain ⟨row, inside, rfl⟩ := List.mem_map.mp member
      obtain ⟨there, whose⟩ := List.mem_filter.mp inside
      rw [Bool.not_eq_true'] at other
      refine ⟨row, List.mem_filter.mpr ⟨there, ?_⟩, roleIn_singleton role row ▸ whose, other⟩
      by_contra source
      rw [notSource, Bool.not_eq_true, Bool.not_eq_false', Text.ciEquals_iff] at source
      dsimp only at other
      rw [source] at other
      simp [AdminRights.ofSource, Text.fold] at other
    · rintro ⟨row, among, whose, other⟩
      refine ⟨_, List.mem_map_of_mem (List.mem_filter.mpr ⟨(List.mem_filter.mp among).1,
        (roleIn_singleton role row).symm ▸ whose⟩), ?_⟩
      rw [Bool.not_eq_true']
      exact other

/-! ## What a call makes of them -/

/-- The reader reads capabilities that name nothing. -/
def ReadsBraces (node : AdminNode) : Prop := node.yyjsonRead ['\x7b', '\x7d'] = some (.obj [])

private theorem capsFrom_lax {json : Text} : ∀ {members : List (Text × JsonValue)} {named : List Text} {caps : List Text},
    capsFrom true json named members = .ok caps → capsFrom false json named members = .ok caps := by
  intro members
  induction members with
  | nil => exact fun read => read
  | cons member rest ih =>
    intro named caps read
    obtain ⟨name, value⟩ := member
    cases value with
    | bool enabled =>
      unfold capsFrom at read ⊢
      simp only [Bool.true_and, Bool.false_and, Bool.false_eq_true, if_false] at read ⊢
      split_ifs at read with unnamed twice on
      all_goals
        cases later : capsFrom true json (name :: named) rest with
        | error refusal => rw [later] at read; cases read
        | ok found =>
          rw [later] at read
          rw [ih later]
          simp only [on, if_true, if_false, Bool.false_eq_true]
          exact read
    | _ => unfold capsFrom at read; cases read

/-- What is accepted when it is written is read later, to the same capabilities. -/
private theorem parseCaps_lax {json : Text} {caps : List Text} (strict : parseCaps true json node.yyjsonRead = .ok caps) :
    parseCaps false json node.yyjsonRead = .ok caps := by
  unfold parseCaps at strict ⊢
  dsimp only at strict ⊢
  by_cases empty : Text.trim json = []
  · rw [if_pos empty] at strict ⊢
    exact strict
  · rw [if_neg empty] at strict ⊢
    simp only [Bool.true_and, Bool.false_and, Bool.false_eq_true, if_false] at strict ⊢
    split_ifs at strict
    cases read : node.yyjsonRead (Text.trim json) with
    | none => rw [read] at strict; cases strict
    | some root =>
      rw [read] at strict
      cases root with
      | obj members => exact capsFrom_lax strict
      | _ => cases strict

/-- What a grant with these capabilities manages. -/
private theorem managedBy_text {row : Row} {vcat json : Text} (there : row .vcat = .text vcat)
    (stored : columnText row .caps = json) :
    node.managedBy row =
      if vcat = [] ∨ FixedPolicy.isPlatformCatalog vcat then .ok none
      else (parseCaps false json node.yyjsonRead).map fun caps =>
        if ciContains caps "manage".toList then some vcat else none := by
  have blank : ∀ {text : Text}, Text.trim text = [] → parseCaps false text node.yyjsonRead = .ok [] := by
    intro text empty
    unfold parseCaps
    dsimp only
    rw [if_pos empty]
  have whole : ∀ value : Value,
      (if Text.trim (cellText value) = [] then
          (.ok [] : Except BinderException (List Text)) >>= fun caps =>
            pure (if ciContains caps "manage".toList then some vcat else none)
        else parseCaps false (cellText value) node.yyjsonRead >>= fun caps =>
          pure (if ciContains caps "manage".toList then some vcat else none)) =
        (parseCaps false (cellText value) node.yyjsonRead).map fun caps =>
          if ciContains caps "manage".toList then some vcat else none := by
    intro value
    by_cases empty : Text.trim (cellText value) = []
    · rw [if_pos empty, blank empty]
      rfl
    · rw [if_neg empty]
      rfl
  unfold managedBy FixedPolicy.managed
  rw [there]
  dsimp only [cellText]
  by_cases outside : vcat = [] ∨ FixedPolicy.isPlatformCatalog vcat = true
  · rw [if_pos outside, if_pos outside]
    rfl
  · rw [if_neg outside, if_neg outside]
    unfold columnText at stored
    cases caps : row .caps with
    | null =>
      rw [caps] at stored
      subst stored
      rw [blank rfl]
      rfl
    | text value =>
      rw [caps] at stored
      subst stored
      exact whole (.text value)
    | integer value =>
      rw [caps] at stored
      subst stored
      exact whole (.integer value)
    | boolean value =>
      rw [caps] at stored
      subst stored
      exact whole (.boolean value)

private theorem managedBy_ok {row : Row} {vcat json : Text} (there : row .vcat = .text vcat)
    (stored : columnText row .caps = json) {caps : List Text} (parsed : parseCaps false json node.yyjsonRead = .ok caps) :
    ∃ managed, node.managedBy row = .ok managed := by
  rw [managedBy_text there stored, parsed]
  split_ifs
  · exact ⟨_, rfl⟩
  · exact ⟨_, rfl⟩

/-- A grant that manages names the capability. -/
private theorem namesManage_of_managedBy {row : Row} {vcat json : Text} (there : row .vcat = .text vcat)
    (stored : columnText row .caps = json) {managed : Text} (gives : node.managedBy row = .ok (some managed)) :
    node.namesManage json = .ok true := by
  rw [managedBy_text there stored] at gives
  by_cases outside : vcat = [] ∨ FixedPolicy.isPlatformCatalog vcat = true
  · rw [if_pos outside] at gives
    cases gives
  · rw [if_neg outside] at gives
    cases parsed : parseCaps false json node.yyjsonRead with
    | error refusal => rw [parsed] at gives; cases gives
    | ok caps =>
      rw [parsed] at gives
      have named : ciContains caps "manage".toList = true := by
        by_contra unnamed
        have none := Except.ok.inj gives
        dsimp only at none
        rw [if_neg unnamed] at none
        cases none
      unfold namesManage
      by_cases empty : json = []
      · subst empty
        obtain rfl : [] = caps := Except.ok.inj parsed
        cases named
      · rw [if_neg empty, parsed]
        exact congrArg Except.ok named

/-- The operation gives the role it names a catalog's manage. -/
def HandsManage (node : AdminNode) (values : Values) : AdminOperation → Prop
  | .grantCatalog => node.namesManage (values.optional 2 "") = .ok true
  | .alterGrant =>
    (∃ field, values 2 = some field ∧ Text.fold field = "caps".toList) ∧ node.namesManage (values.optional 3 "") = .ok true
  | _ => False

/-- A grant there is after a call was there before, for the same role and as it reads, or it is the one that the call
names; and its capabilities are read. -/
private def Explains (node : AdminNode) (store : AdminStore) (values : Values) (operation : AdminOperation) (row : Row) : Prop :=
  (∃ managed, node.managedBy row = .ok managed) ∧
    ((∃ old ∈ store.tables.rows .roleCatalogs, old .role = row .role ∧ node.managedBy old = node.managedBy row) ∨
      (∀ vcat, node.managedBy row ≠ .ok (some vcat)) ∨
        (∃ role, row .role = .text role ∧ values 0 = some role ∧ HandsManage node values operation))

private theorem explains_old (read : CapsRead node store) {operation : AdminOperation} {row : Row}
    (member : row ∈ store.tables.rows .roleCatalogs) : Explains node store values operation row :=
  ⟨read row member, .inl ⟨row, member, rfl, rfl⟩⟩

/-- The row a grant writes, or one there was. -/
private theorem mem_writeGrant {tables : PolicyTables} {request : GrantRequest} {row : Row}
    (member : row ∈ (node.writeGrant tables request).rows .roleCatalogs) :
    row ∈ tables.rows .roleCatalogs ∨ row = TableName.roleCatalogs.row (node.grantCells tables request) := by
  have inserted : (node.writeGrant tables request).rows .roleCatalogs =
      ((tables.deleteAll [PolicyTables.deletePair request.role request.vcat .roleCatalogs]).rows .roleCatalogs) ++
        [TableName.roleCatalogs.row (node.grantCells tables request)] := rows_insert _ _ _
  rw [inserted] at member
  rcases List.mem_append.mp member with old | new
  · exact .inl (Tables.mem_deleteAll.mp old).1
  · exact .inr (List.mem_singleton.mp new)

/-- What a call leaves of the grants of catalogs. -/
private theorem Wrote.grants (braces : ReadsBraces node) (read : CapsRead node store) {operation : AdminOperation}
    (wrote : Wrote node store values operation next) :
    ∀ row ∈ next.tables.rows .roleCatalogs, Explains node store values operation row := by
  intro row member
  cases wrote with
  | nothing | edited => exact explains_old read member
  | cleared | roleDropped => exact explains_old read (Tables.mem_deleteAll.mp member).1
  | granted request named told parsed =>
    rcases mem_writeGrant member with old | rfl
    · exact explains_old read old
    · obtain ⟨caps, parsed⟩ := parsed
      refine ⟨managedBy_ok rfl rfl (parseCaps_lax parsed), .inr ?_⟩
      by_cases manages : ∃ vcat, node.managedBy (TableName.roleCatalogs.row (node.grantCells store.tables request)) = .ok (some vcat)
      · obtain ⟨vcat, gives⟩ := manages
        refine .inr ⟨request.role, rfl, named, ?_⟩
        show node.namesManage (values.optional 2 "") = .ok true
        rw [← told]
        exact namesManage_of_managedBy rfl rfl gives
      · exact .inl fun vcat gives => manages ⟨vcat, gives⟩
  | recapped request named asked which told parsed =>
    rcases mem_writeGrant member with old | rfl
    · exact explains_old read old
    · obtain ⟨caps, parsed⟩ := parsed
      refine ⟨managedBy_ok rfl rfl (parseCaps_lax parsed), .inr ?_⟩
      by_cases manages : ∃ vcat, node.managedBy (TableName.roleCatalogs.row (node.grantCells store.tables request)) = .ok (some vcat)
      · obtain ⟨vcat, gives⟩ := manages
        refine .inr ⟨request.role, rfl, named, ⟨_, asked, which⟩, ?_⟩
        rw [← told]
        exact namesManage_of_managedBy rfl rfl gives
      · exact .inl fun vcat gives => manages ⟨vcat, gives⟩
  | kept request held here same =>
    rcases mem_writeGrant member with old | rfl
    · exact explains_old read old
    · rw [isGrant, Bool.and_eq_true] at here
      have role := decide_eq_true_eq.mp here.1
      have vcat := decide_eq_true_eq.mp here.2
      have written : node.managedBy (TableName.roleCatalogs.row (node.grantCells store.tables request)) = _ :=
        managedBy_text rfl rfl
      have alike := (managedBy_text vcat same.symm).trans written.symm
      exact ⟨alike ▸ read _ held, .inl ⟨_, held, role, alike⟩⟩
  | ensured which role vcat =>
    unfold PolicyTables.ensureGrant at member
    split_ifs at member
    · exact explains_old read member
    · rw [rows_insert] at member
      rcases List.mem_append.mp member with old | new
      · exact explains_old read old
      · obtain rfl := List.mem_singleton.mp new
        have parsed : parseCaps false ['\x7b', '\x7d'] node.yyjsonRead = .ok [] := by
          unfold parseCaps
          have plain : Text.trim ['\x7b', '\x7d'] = ['\x7b', '\x7d'] := by decide
          rw [plain]
          dsimp only
          rw [braces]
          rfl
        refine ⟨managedBy_ok rfl rfl parsed, .inr (.inl fun managed gives => ?_)⟩
        have named : node.namesManage ['\x7b', '\x7d'] = .ok true := namesManage_of_managedBy rfl rfl gives
        unfold namesManage at named
        rw [if_neg (by decide), parsed] at named
        cases named
  | rechecked vcat =>
    obtain ⟨before, inside, rfl | ⟨given, rfl⟩⟩ := mem_mapRows (by decide) member
    · exact explains_old read inside
    · exact ⟨read before inside, .inl ⟨before, inside, rfl, rfl⟩⟩
  | sourced _ wrote =>
    have same := filter_writePlatformGrant wrote .roleCatalogs (fun (_ : Row) (_ : true = true) is => by cases is)
    rw [List.filter_true, List.filter_true] at same
    exact explains_old read (same ▸ member)

/-- A call gives administration to no role but the one it hands a catalog's manage. -/
theorem Wrote.administers (braces : ReadsBraces node) (read : CapsRead node store) {operation : AdminOperation}
    (wrote : Wrote node store values operation next) :
    CapsRead node next ∧ ∀ role, Administers node next role →
      Administers node store role ∨ (values 0 = some role ∧ HandsManage node values operation) := by
  have grants := wrote.grants braces read
  have readNext : CapsRead node next := fun row member => (grants row member).1
  refine ⟨readNext, fun role held => ?_⟩
  rcases (administers_iff readNext).mp held with ⟨row, member, whose⟩ | ⟨row, member, whose, vcat, gives⟩ | ⟨row, member, point⟩
  · exact .inl ((administers_iff read).mpr (.inl ⟨row, wrote.admins row member, whose⟩))
  · obtain ⟨-, ⟨old, there, same, alike⟩ | none | ⟨other, named, first, hands⟩⟩ := grants row member
    · refine .inl ((administers_iff read).mpr (.inr (.inl ⟨old, there, ?_, vcat, alike.trans gives⟩)))
      rwa [Row.is, same]
    · exact absurd gives (none vcat)
    · obtain rfl : other = role := by
        rw [Row.is, decide_eq_true_eq, named] at whose
        exact Value.text.inj whose
      exact .inr ⟨first, hands⟩
  · exact .inl ((administers_iff read).mpr (.inr (.inr ⟨row, wrote.platform ▸ member, point⟩)))

/-! ## What the judgement of a batch says of each of its calls -/

private theorem optional_of_constant {call : AdminCall} {bound : Values} {index : ℕ} {what value : Text}
    (constant : call.constantArgument index what = .ok value) : (call.values bound).optional index "" = value := by
  unfold AdminCall.constantArgument at constant
  unfold Values.optional AdminCall.values
  cases given : call.arguments[index]? with
  | none => rw [given] at constant; exact Except.ok.inj constant
  | some argument =>
    rw [given] at constant
    cases argument with
    | constant text => exact Except.ok.inj constant
    | parameter => cases constant

private theorem value_of_constant {call : AdminCall} {bound : Values} {index : ℕ} {what value given : Text}
    (constant : call.constantArgument index what = .ok value) (run : call.values bound index = some given) :
    given = value := by
  have same : (call.values bound).optional index "" = value := optional_of_constant constant
  unfold Values.optional at same
  rw [run] at same
  exact same

/-- What the batch was judged by: the roles it maps, and those it gives a catalog's manage. -/
structure Judged (node : AdminNode) (first : AdminStore) (mapped managed : List Text) (call : AdminCall) : Prop where
  plain : ∀ operation, AdminOperation.of call.function = some operation → operation.escalates = false
  /-- A role that is given manage is not mapped, neither in the store nor in the batch. -/
  hands : ∀ operation bound role, AdminOperation.of call.function = some operation → call.values bound 0 = some role →
    HandsManage node (call.values bound) operation →
      role ∈ managed ∧ role ∉ mapped ∧ ∀ mapping ∈ first.identity.mappings, mapping.role ≠ role
  /-- A role that is mapped holds no administration and is given none by the batch. -/
  maps : ∀ bound role, call.function = "acl_map_role".toList → call.values bound 4 = some role →
    role ∈ mapped ∧ role ∉ managed ∧ ¬ Administers node first role
  /-- No mapping that hangs on what the call changes is to a role that administers. -/
  trust : ∃ changed, trustChanged call = .ok changed ∧ (changed.1 ≠ [] ∨ changed.2 ≠ [] →
    ∀ mapping ∈ first.identity.mappings, hangsOn first.identity changed.1 changed.2 mapping = true →
      ¬ Administers node first mapping.role)

private theorem not_administers_of_privileged {first : AdminStore} {role : Text}
    (plain : node.rolePrivileged first role = .ok false) : ¬ Administers node first role := by
  rintro ⟨rights, is, held⟩
  unfold rolePrivileged at plain
  rw [is] at plain
  have not : rights.privileged = false := Except.ok.inj plain
  rw [AdminRights.privileged_of_administers held] at not
  cases not

private theorem privilegedAmong_ok {first : AdminStore} {issuer client : Text} {mappings : List IdentityMapping}
    (named : ∀ mapping ∈ mappings, mapping.role ≠ [])
    (none : node.privilegedAmong first issuer client mappings = .ok []) :
    ∀ mapping ∈ mappings, hangsOn first.identity issuer client mapping = true → ¬ Administers node first mapping.role := by
  induction mappings with
  | nil => exact fun _ member => by cases member
  | cons mapping rest ih =>
    have namedLater : ∀ mapping ∈ rest, mapping.role ≠ [] := fun other member => named other (List.mem_cons_of_mem _ member)
    unfold privilegedAmong at none
    by_cases hangs : hangsOn first.identity issuer client mapping = true
    · rw [if_pos hangs] at none
      obtain ⟨isPrivileged, read, none⟩ := Outcome.bind_ok none
      cases isPrivileged with
      | true => exact absurd (Except.ok.inj none) (named mapping List.mem_cons_self)
      | false =>
        simp only [Bool.false_eq_true, if_false] at none
        exact List.forall_mem_cons.mpr ⟨fun _ => not_administers_of_privileged read, ih namedLater none⟩
    · rw [if_neg hangs] at none
      exact List.forall_mem_cons.mpr ⟨fun is => absurd is hangs, ih namedLater none⟩

/-- What a grant's statement says of it: its role where it hands a catalog's manage. -/
private theorem grantTarget_hands {call : AdminCall} {target : GrantTarget} (told : node.grantTarget call = .ok target)
    {operation : AdminOperation} (of : AdminOperation.of call.function = some operation) {bound : Values} {role : Text}
    (named : call.values bound 0 = some role) (hands : HandsManage node (call.values bound) operation) :
    target.manage = true ∧ target.manageRole = role := by
  obtain ⟨manage, asked, told⟩ := Outcome.bind_ok told
  have yes : manage = true := by
    unfold grantsManage at asked
    cases operation with
    | grantCatalog =>
      have is : call.function = "acl_grant_catalog".toList := target_of of
      rw [is, if_pos rfl] at asked
      obtain ⟨caps, constant, asked⟩ := Outcome.bind_ok asked
      have text : (call.values bound).optional 2 "" = caps := optional_of_constant constant
      have handed : node.namesManage _ = .ok true := hands
      rw [text, asked] at handed
      exact Except.ok.inj handed
    | alterGrant =>
      have is : call.function = "acl_alter_grant".toList := target_of of
      rw [is, if_neg (by decide), if_pos rfl] at asked
      obtain ⟨field, fieldConstant, asked⟩ := Outcome.bind_ok asked
      obtain ⟨value, constant, asked⟩ := Outcome.bind_ok asked
      obtain ⟨⟨given, there, which⟩, handed⟩ := hands
      obtain rfl := value_of_constant fieldConstant there
      rw [if_pos which] at asked
      rw [optional_of_constant constant, asked] at handed
      exact Except.ok.inj handed
    | _ => exact hands.elim
  subst yes
  obtain ⟨what, constant, rfl⟩ := Outcome.map_ok told
  exact ⟨rfl, (value_of_constant constant named).symm⟩

private theorem mem_zip_of_mapM {α β ε : Type} {step : α → Except ε β} {items : List α} {answers : List β}
    (ran : items.mapM step = .ok answers) {item : α} (member : item ∈ items) :
    ∃ answer, step item = .ok answer ∧ (item, answer) ∈ items.zip answers := by
  induction items generalizing answers with
  | nil => cases member
  | cons first rest ih =>
    rw [List.mapM_cons] at ran
    obtain ⟨made, stepped, ran⟩ := Outcome.bind_eq_ok.mp ran
    obtain ⟨later, rested, is⟩ := Outcome.bind_eq_ok.mp ran
    obtain rfl := Outcome.pure_eq_ok.mp is
    rcases List.mem_cons.mp member with rfl | inside
    · exact ⟨made, stepped, List.mem_cons_self⟩
    · obtain ⟨answer, same, there⟩ := ih rested inside
      exact ⟨answer, same, List.mem_cons_of_mem _ there⟩

/-- A batch that is let through for a caller without passthrough is judged in each of its calls. -/
theorem judged_of_targets {first : AdminStore} {rights : AdminRights} {calls : List AdminCall}
    (plain : rights.passthrough = false) (named : ∀ mapping ∈ first.identity.mappings, mapping.role ≠ [])
    (authorized : ∀ call ∈ calls, node.authorizeAdminCall call rights = .ok ())
    (judged : node.authorizeRoleTargets first rights calls = .ok ()) :
    ∃ mapped managed, ∀ call ∈ calls, Judged node first mapped managed call := by
  unfold authorizeRoleTargets at judged
  rw [plain] at judged
  simp only [Bool.false_eq_true, if_false] at judged
  obtain ⟨targets, told, judged⟩ := Outcome.bind_eq_ok.mp judged
  have each := Outcome.forM_ok judged
  refine ⟨targets.filterMap Prod.snd, ((targets.map Prod.fst).filter (·.manage)).map (·.manageRole), fun call member => ?_⟩
  obtain ⟨⟨target, mapping⟩, asked, among⟩ := mem_zip_of_mapM told member
  have inside : (target, mapping) ∈ targets := (List.of_mem_zip among).2
  have checked : (call, target) ∈ calls.zip (targets.map Prod.fst) := by
    rw [List.zip_map_right]
    exact List.mem_map_of_mem among
  obtain ⟨granted, grant, asked⟩ := Outcome.bind_ok asked
  obtain ⟨_, _, passed⟩ := Outcome.bind_eq_ok.mp (each _ checked)
  obtain ⟨_, trust, passed⟩ := Outcome.bind_eq_ok.mp passed
  obtain ⟨_, manage, maps⟩ := Outcome.bind_eq_ok.mp passed
  obtain rfl : granted = target := by
    split_ifs at asked
    · obtain ⟨_, _, is⟩ := Outcome.map_ok asked
      exact congrArg Prod.fst is
    · exact congrArg Prod.fst (Except.ok.inj asked)
  refine ⟨fun operation of => plain_of_authorized plain (authorized call member) of, fun operation bound role of named hands => ?_,
    fun bound role is given => ?_, ?_⟩
  · obtain ⟨yes, rfl⟩ := grantTarget_hands grant of named hands
    unfold checkManage at manage
    split_ifs at manage with reached
    rw [not_and, not_or] at reached
    obtain ⟨unmapped, none⟩ := reached yes
    exact ⟨List.mem_map_of_mem (List.mem_filter.mpr ⟨List.mem_map_of_mem inside, yes⟩), unmapped,
      fun mapping there same => none ⟨mapping, there, same⟩⟩
  · rw [if_pos is] at asked
    obtain ⟨role', constant, same⟩ := Outcome.map_ok asked
    obtain rfl := value_of_constant constant given
    obtain rfl : mapping = some role := (congrArg Prod.snd same).symm
    refine ⟨List.mem_filterMap.mpr ⟨_, inside, rfl⟩, ?_⟩
    unfold checkMapping at maps
    rw [if_pos is] at maps
    obtain ⟨other, again, maps⟩ := Outcome.bind_ok maps
    obtain rfl := Except.ok.inj (constant.symm.trans again)
    by_cases handed : role ∈ ((targets.map Prod.fst).filter (·.manage)).map (·.manageRole)
    · rw [if_pos handed] at maps
      cases maps
    · rw [if_neg handed] at maps
      obtain ⟨isPrivileged, read, maps⟩ := Outcome.bind_ok maps
      cases isPrivileged with
      | true => cases maps
      | false => exact ⟨handed, not_administers_of_privileged read⟩
  · obtain ⟨changed, is, trust⟩ := Outcome.bind_ok trust
    refine ⟨changed, is, fun either => ?_⟩
    rw [if_neg (by rintro ⟨noIssuer, noClient⟩; exact either.elim (· noIssuer) (· noClient))] at trust
    obtain ⟨role, behind, trust⟩ := Outcome.bind_ok trust
    by_cases none : role = []
    · subst none
      exact privilegedAmong_ok named behind
    · rw [if_neg none] at trust
      cases trust

/-! ## The records a mapping stands on -/

variable {mapping : IdentityMapping} {trust : IdentityIssuer × Option IdentityClient} {model : IdentityModel}

/-! ## A batch -/

/-- A store whose grants are read, and whose mappings name a role and stand on records. -/
structure Sound (node : AdminNode) (store : AdminStore) : Prop where
  read : CapsRead node store
  anchored : store.identity.Anchored
  named : ∀ mapping ∈ store.identity.mappings, mapping.role ≠ []

/-- What a batch has done so far to the store it was judged on. -/
private structure Reached (node : AdminNode) (first now : AdminStore) (mapped managed : List Text) : Prop extends
    Sound node now where
  rights : ∀ role, Administers node now role → Administers node first role ∨
    (role ∈ managed ∧ role ∉ mapped ∧ ∀ mapping ∈ first.identity.mappings, mapping.role ≠ role)
  maps : ∀ mapping ∈ now.identity.mappings, mapping ∈ first.identity.mappings ∨
    (mapping.role ∈ mapped ∧ mapping.role ∉ managed ∧ ¬ Administers node first mapping.role)
  trust : ∀ mapping ∈ now.identity.mappings, Administers node first mapping.role →
    now.identity.trustOf mapping = first.identity.trustOf mapping

/-- The mapping hands administration to whoever holds its claim. -/
def Hands (node : AdminNode) (store : AdminStore) (mapping : IdentityMapping) : Prop :=
  mapping ∈ store.identity.mappings ∧ Administers node store mapping.role

/-- Batches one after the other; one that is refused changes nothing. -/
def batchStep (node : AdminNode) (store : AdminStore) (batch : AdminBatch) : Option AdminStore :=
  match node.runBatch store batch with
  | .ok next => some next
  | .error _ => some store

/-- The batch is of a caller without passthrough. -/
def OfPlainCaller (node : AdminNode) (store : AdminStore) (batch : AdminBatch) : Prop :=
  ∀ rights, node.callerRights store batch.caller = .ok rights → rights.passthrough = false

instance (store : AdminStore) (batch : AdminBatch) : Decidable (OfPlainCaller node store batch) :=
  match read : node.callerRights store batch.caller with
  | .ok rights =>
    decidable_of_iff (rights.passthrough = false)
      ⟨fun plain _ is => Except.ok.inj (read.symm.trans is) ▸ plain, fun plain => plain rights read⟩
  | .error _ => .isTrue fun _ is => by rw [read] at is; cases is

/-- A claim that already reaches the node's operator. -/
def mappedStore : AdminStore where
  tables := .of
    [(.admins, [(.role, .text "steward".toList), (.scope, .text "policy".toList), (.vcat, .text [])]),
     (.admins, [(.role, .text "operator".toList), (.scope, .text "operate".toList), (.vcat, .text [])]),
     (.roles, [(.role, .text "operator".toList)]), (.roles, [(.role, .text "analyst".toList)])]
  identity :=
    { issuers := [{ name := "corp".toList, url := "https://corp".toList }]
      clients := [{ name := "web".toList, issuer := "corp".toList, audiences := ["lake".toList], rolesFrom := ["groups".toList] }]
      mappings := [⟨"issuer".toList, "corp".toList, "groups".toList, "admins".toList, "operator".toList⟩] }

/-- The steward maps a claim at the issuer. -/
def mapsGroup (external role : String) : AdminBatch :=
  ⟨.principal ["steward".toList],
    [(⟨"acl_map_role".toList,
      [.constant (some "issuer".toList), .constant (some "corp".toList), .constant (some "groups".toList),
       .constant (some external.toList), .constant (some role.toList)]⟩, fun _ => none)]⟩

end AdminNode

end DuckAcl
