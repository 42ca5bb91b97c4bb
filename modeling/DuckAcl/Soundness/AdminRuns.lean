import Mathlib
import DuckAcl.Library.Runs
import DuckAcl.Soundness.AdminRights
import DuckAcl.Soundness.AdminWrites

/-! # Batches side by side

A batch is judged on the store it meets and runs later, among the statements of others. What the authorizer lets
a caller without passthrough call never writes a bundle or a point grant on a view or a function, so no order of
batches adds to them; a caller that only manages catalogs changes no rights at all.
-/

namespace DuckAcl

/-- The right of an operation's function. -/
def AdminOperation.right : AdminOperation → PlatformRight
  | .grantCatalog | .revokeCatalog | .alterGrant | .dropCatalog | .grantObject | .grantSchema | .grantSource
  | .revokeSource => .handsOut
  | .refreshSchema => .catalog
  | .grantAdmin | .revokeAdmin | .grantPlatform | .revokePlatform => .escalates
  | _ => .policy

namespace PlatformRegistry

private theorem foldl_register (added functions : List PlatformFunction) :
    ∃ more, added.foldl registerPlatformFunction functions = functions ++ more := by
  induction added generalizing functions with
  | nil => exact ⟨[], by simp⟩
  | cons function rest ih =>
    obtain ⟨more, is⟩ := ih (registerPlatformFunction functions function)
    rw [List.foldl_cons, is, registerPlatformFunction]
    split_ifs
    · exact ⟨more, rfl⟩
    · exact ⟨function :: more, by simp⟩

/-- Functions with the letters of their targets, which are compared faster than the literals are. -/
private inductive Lettered : List PlatformFunction → List (Text × PlatformRight) → Prop
  | nil : Lettered [] []
  | cons {name : String} {letters : Text} {catalogArg : Option ℕ} {right : PlatformRight}
      {functions : List PlatformFunction} {rest : List (Text × PlatformRight)} (tail : Lettered functions rest) :
      Lettered (.of name (String.ofList letters) catalogArg right :: functions) ((letters, right) :: rest)

private theorem Lettered.find?_target {functions : List PlatformFunction} {letters : List (Text × PlatformRight)}
    (lettered : Lettered functions letters) (target : Text) :
    (functions.find? fun function => decide (function.target ≠ []) && Text.ciEquals function.target target).map (·.right) =
      (letters.find? fun entry => decide (entry.1 ≠ []) && Text.ciEquals entry.1 target).map Prod.snd := by
  induction lettered with
  | nil => rfl
  | @cons _ letters _ _ _ _ _ ih =>
    rw [List.find?_cons, List.find?_cons, PlatformFunction.of, String.toList_ofList]
    cases found : decide (letters ≠ []) && Text.ciEquals letters target with
    | true => simp only [found, Option.map_some]
    | false => simp only [found, ih]

private theorem exists_lettered :
    ∃ letters, Lettered builtFunctions letters ∧ ∀ operation : AdminOperation, ∃ target,
      operation.target.toList = target ∧
        (letters.find? fun entry => decide (entry.1 ≠ []) && Text.ciEquals entry.1 target).map Prod.snd =
          some operation.right := by
  apply Exists.intro
  constructor
  · unfold builtFunctions
    dsimp only
    repeat apply Lettered.cons
    exact .nil
  · intro operation
    cases operation <;> exact ⟨_, Text.toList_literal rfl, by decide⟩

private theorem built_right (operation : AdminOperation) :
    (builtFunctions.find? fun function =>
      decide (function.target ≠ []) && Text.ciEquals function.target operation.target.toList).map (·.right) =
        some operation.right := by
  obtain ⟨letters, lettered, each⟩ := exists_lettered
  obtain ⟨target, spelled, found⟩ := each operation
  rw [lettered.find?_target, spelled, found]

/-- What a module registers comes after what is built in, and hides none of it. -/
theorem functionByTarget_operation (registry : PlatformRegistry) (operation : AdminOperation) :
    ∃ function, registry.functionByTarget operation.target.toList = some function ∧ function.right = operation.right := by
  obtain ⟨more, is⟩ := foldl_register registry.registeredFunctions builtFunctions
  obtain ⟨function, found, right⟩ := Option.map_eq_some_iff.mp (built_right operation)
  refine ⟨function, ?_, right⟩
  unfold functionByTarget functions
  rw [is, List.find?_append, found, Option.some_or]

end PlatformRegistry

namespace AdminNode

variable {node : AdminNode}

theorem target_of {function : Text} {operation : AdminOperation} (of : AdminOperation.of function = some operation) :
    function = operation.target.toList := by
  have found := List.find?_some of
  exact (decide_eq_true_eq.mp found).symm

/-- What a call that is authorized takes of the rights, passthrough apart. -/
theorem authorized_right {rights : AdminRights} {call : AdminCall} {operation : AdminOperation}
    (plain : rights.passthrough = false) (authorized : node.authorizeAdminCall call rights = .ok ())
    (of : AdminOperation.of call.function = some operation) :
    ∃ function vcat, function.right = operation.right ∧ authorizeRight call rights function vcat = .ok () := by
  obtain ⟨function, found, right⟩ := node.registry.functionByTarget_operation operation
  rw [← target_of of] at found
  unfold authorizeAdminCall at authorized
  rw [found] at authorized
  dsimp only at authorized
  obtain ⟨vcat, _, authorized⟩ := Outcome.bind_ok authorized
  simp only [plain, Bool.false_eq_true, if_false] at authorized
  split_ifs at authorized
  exact ⟨function, vcat, right, authorized⟩

/-- Without passthrough no operation that escalates is authorized. -/
theorem plain_of_authorized {rights : AdminRights} {call : AdminCall} {operation : AdminOperation}
    (plain : rights.passthrough = false) (authorized : node.authorizeAdminCall call rights = .ok ())
    (of : AdminOperation.of call.function = some operation) : operation.escalates = false := by
  obtain ⟨function, vcat, right, authorized⟩ := authorized_right plain authorized of
  cases escalates : operation.escalates with
  | false => rfl
  | true =>
    have is : function.right = .escalates := by
      rw [right]
      revert escalates
      cases operation <;> simp [AdminOperation.escalates, AdminOperation.right]
    unfold authorizeRight at authorized
    rw [is] at authorized
    cases authorized

/-- Rights over catalogs and the node, but neither the policy bundle nor a grant of a function by name. -/
structure OnlyManages (rights : AdminRights) : Prop where
  plain : rights.passthrough = false
  restricted : rights.unrestrictedManage = false
  unnamed : ∀ object, rights.platformGrant "function".toList object ≠ some true

/-- A caller that only manages catalogs is let call one of these operations: the one that rereads a catalog. -/
theorem refreshes_of_authorized {rights : AdminRights} {call : AdminCall} {operation : AdminOperation}
    (only : OnlyManages rights) (authorized : node.authorizeAdminCall call rights = .ok ())
    (of : AdminOperation.of call.function = some operation) : operation = .refreshSchema := by
  obtain ⟨function, vcat, right, authorized⟩ := authorized_right only.plain authorized of
  have nothing : (decide (rights.platformGrant "function".toList function.name = some true) ||
      rights.unrestrictedManage) = false := by
    rw [only.restricted, Bool.or_false, decide_eq_false_iff_not]
    exact only.unnamed function.name
  unfold authorizeRight at authorized
  cases is : operation.right with
  | catalog =>
    revert is
    cases operation <;> simp [AdminOperation.right]
  | policy | handsOut =>
    simp only [right, is, nothing, Bool.false_eq_true, true_or, if_true, if_false] at authorized
    cases authorized
  | escalates =>
    simp only [right, is] at authorized
    cases authorized
  | infrastructure | operate | anyHolder =>
    revert is
    cases operation <;> simp [AdminOperation.right]

/-! ## Rights read from the tables -/

theorem adminRightsOf_eq_ok {store : AdminStore} {roles : List Text} {rights : AdminRights} :
    node.adminRightsOf store roles = .ok rights ↔
      ∃ catalogs, (node.policy store).manageCatalogs roles = .ok catalogs ∧
        rights = AdminRights.ofRows node.clusterRegistered
          ⟨catalogs, (node.policy store).adminScopes roles, (node.policy store).platformGrants roles⟩ := by
  unfold adminRightsOf FixedPolicy.adminRightsOf FixedPolicy.rightsOf
  cases (node.policy store).manageCatalogs roles with
  | error refusal => simp [bind, Except.bind, Except.map]
  | ok catalogs =>
    simp only [bind, Except.bind, pure, Except.pure, Except.map, Except.ok.injEq, exists_eq_left']
    exact eq_comm

/-- Fewer rows of `admins` give no more bundles. -/
theorem held_of_admins {first last : AdminStore} (fewer : ∀ row ∈ last.tables.rows .admins, row ∈ first.tables.rows .admins)
    {roles : List Text} {before after : AdminRights} (rightsBefore : node.adminRightsOf first roles = .ok before)
    (rightsAfter : node.adminRightsOf last roles = .ok after) (bundle : AdminBundle) (held : bundle.held after = true) :
    bundle.held before = true := by
  obtain ⟨_, _, rfl⟩ := adminRightsOf_eq_ok.mp rightsBefore
  obtain ⟨_, _, rfl⟩ := adminRightsOf_eq_ok.mp rightsAfter
  rw [AdminRights.held_ofRows, List.any_eq_true] at held ⊢
  obtain ⟨scope, inside, gives⟩ := held
  obtain ⟨row, member, rfl⟩ := List.mem_map.mp inside
  obtain ⟨there, whose⟩ := List.mem_filter.mp member
  exact ⟨_, List.mem_map_of_mem (List.mem_filter.mpr ⟨fewer row there, whose⟩), gives⟩

/-- The key of a grant on a source is that of no view or function. -/
private theorem notSource_of_key {kind object : Text} (named : Text.fold kind = "view".toList ∨ Text.fold kind = "function".toList)
    {row : Row}
    (key : Text.fold (FixedPolicy.cellText (row .kind)) ++ ':' :: Text.fold (FixedPolicy.cellText (row .object)) =
      Text.fold kind ++ ':' :: Text.fold object) : notSource row = true := by
  cases source : notSource row with
  | true => rfl
  | false =>
    rw [notSource, Bool.not_eq_false', Text.ciEquals_iff] at source
    rw [source] at key
    rcases named with is | is
    · rw [is] at key
      exact absurd (congrArg List.head? key) (by simp [Text.fold])
    · rw [is] at key
      exact absurd (congrArg List.head? key) (by simp [Text.fold])

/-- The point grants on views and functions are read off the rows that are not on sources. -/
theorem platformGrant_of_rows {first last : AdminStore}
    (same : (last.tables.rows .platformGrants).filter notSource = (first.tables.rows .platformGrants).filter notSource)
    {roles : List Text} {before after : AdminRights} (rightsBefore : node.adminRightsOf first roles = .ok before)
    (rightsAfter : node.adminRightsOf last roles = .ok after) {kind : Text} (object : Text)
    (named : Text.fold kind = "view".toList ∨ Text.fold kind = "function".toList) :
    after.platformGrant kind object = before.platformGrant kind object := by
  obtain ⟨_, _, rfl⟩ := adminRightsOf_eq_ok.mp rightsBefore
  obtain ⟨_, _, rfl⟩ := adminRightsOf_eq_ok.mp rightsAfter
  have keyed : ∀ store : AdminStore,
      (((node.policy store).platformGrants roles).filter fun grant =>
          decide (grant.1 = Text.fold kind ++ ':' :: Text.fold object)) =
        ((((store.tables.rows .platformGrants).filter notSource).filter (FixedPolicy.roleIn roles)).map fun row =>
          (Text.fold (FixedPolicy.cellText (row .kind)) ++ ':' :: Text.fold (FixedPolicy.cellText (row .object)),
            decide (row .allowed = .boolean true))).filter fun grant =>
          decide (grant.1 = Text.fold kind ++ ':' :: Text.fold object) := by
    intro store
    show List.filter _ (((store.tables.rows .platformGrants).filter _).map _) = _
    simp only [List.filter_map, List.filter_filter]
    congr 1
    refine List.filter_congr fun row _ => ?_
    by_cases key : Text.fold (FixedPolicy.cellText (row .kind)) ++ ':' :: Text.fold (FixedPolicy.cellText (row .object)) =
        Text.fold kind ++ ':' :: Text.fold object
    · simp [key, notSource_of_key named key]
    · simp [key]
  refine AdminRights.platformGrant_congr ?_
  dsimp only
  rw [keyed, keyed, same]

/-! ## Runs -/

/-- A batch that is let through has each of its calls, and the roles it reaches, authorized by the rights of its
caller. -/
theorem authorized_of_judge {store : AdminStore} {batch : AdminBatch} (judged : node.judge store batch = .ok ()) :
    ∃ rights, node.callerRights store batch.caller = .ok rights ∧
      (∀ call ∈ batch.statements.map Prod.fst, node.authorizeAdminCall call rights = .ok ()) ∧
      node.authorizeRoleTargets store rights (batch.statements.map Prod.fst) = .ok () := by
  obtain ⟨rights, read, letThrough⟩ := Outcome.bind_eq_ok.mp judged
  refine ⟨rights, read, ?_⟩
  unfold AdminNode.letThrough at letThrough
  split_ifs at letThrough
  · obtain ⟨_, refused, _⟩ := Outcome.bind_eq_ok.mp letThrough
    exact absurd refused Outcome.throw_ne_ok
  · obtain ⟨_, authorized, letThrough⟩ := Outcome.bind_eq_ok.mp letThrough
    obtain ⟨_, targets, _⟩ := Outcome.bind_eq_ok.mp letThrough
    exact ⟨fun call member => Outcome.forM_ok authorized call member, targets⟩

/-- Every batch judged is of a caller whose rights are of this kind. -/
def Judges (node : AdminNode) (kind : AdminRights → Prop) (system : AdminSystem) : AdminEvent → Prop
  | .judge batch => ∀ rights, node.callerRights system.store batch.caller = .ok rights → kind rights
  | .execute _ => True

/-- What a batch let through has left to run is of these operations, if of any. -/
def Within (allowed : AdminOperation → Prop) (statements : List (AdminCall × Values)) : Prop :=
  ∀ statement ∈ statements, ∀ operation, AdminOperation.of statement.1.function = some operation → allowed operation

section

variable {kind : AdminRights → Prop} {allowed : AdminOperation → Prop} {kept : AdminStore → Prop}
  (authorized : ∀ {rights : AdminRights} {call : AdminCall} {operation : AdminOperation}, kind rights →
    node.authorizeAdminCall call rights = .ok () → AdminOperation.of call.function = some operation → allowed operation)
  (writes : ∀ {store next : AdminStore} {values : Values} {operation : AdminOperation}, kept store → allowed operation →
    node.effect store values operation = .ok next → kept next)
  (overlays : ∀ {store : AdminStore} (rest : PolicyTables), kept store → kept { store with tables := store.tables.overlay rest })

include authorized writes overlays

/-- One event keeps what the allowed operations keep, and lets no other operation through. -/
private theorem step_keeps {system next : AdminSystem} {event : AdminEvent}
    (held : kept system.store ∧ ∀ statements ∈ system.running, Within allowed statements)
    (met : Judges node kind system event) (stepped : node.step system event = some next) :
    kept next.store ∧ ∀ statements ∈ next.running, Within allowed statements := by
  obtain ⟨store, running⟩ := held
  cases event with
  | judge batch =>
    cases judged : node.judge system.store batch with
    | error refusal =>
      simp only [step, judged, Option.some.injEq] at stepped
      exact stepped ▸ ⟨store, running⟩
    | ok =>
      simp only [step, judged, Option.some.injEq] at stepped
      subst stepped
      obtain ⟨rights, read, calls, _⟩ := authorized_of_judge judged
      refine ⟨store, fun statements member => ?_⟩
      rcases List.mem_append.mp member with before | new
      · exact running statements before
      · obtain rfl := List.mem_singleton.mp new
        exact fun statement inside operation of => authorized (met rights read)
          (calls statement.1 (List.mem_map_of_mem inside)) of
  | execute index =>
    cases found : system.running[index]? with
    | none => simp [step, found] at stepped
    | some statements =>
      have member := List.mem_of_getElem? found
      cases statements with
      | nil => simp [step, found] at stepped
      | cons statement rest =>
        obtain ⟨call, bound⟩ := statement
        have inside := running _ member
        have shorter : ∀ {left : List (AdminCall × Values)}, (∀ each ∈ left, each ∈ (call, bound) :: rest) →
            ∀ statements ∈ system.running.set index left, Within allowed statements := by
          intro left within statements there
          rcases List.mem_or_eq_of_mem_set there with old | rfl
          · exact running statements old
          · exact fun each new => inside each (within each new)
        cases ran : node.execute system.store call.function (call.values bound) with
        | error refusal =>
          simp only [step, found, ran, Option.some.injEq] at stepped
          subst stepped
          exact ⟨store, shorter fun each new => by cases new⟩
        | ok after =>
          simp only [step, found, ran, Option.some.injEq] at stepped
          subst stepped
          refine ⟨?_, shorter fun each new => List.mem_cons_of_mem _ new⟩
          obtain ⟨effected, others, did, rfl⟩ := execute_cases ran
          refine overlays others ?_
          rcases did with ⟨_, rfl⟩ | ⟨operation, of, effect⟩
          · exact store
          · exact writes store (inside _ List.mem_cons_self operation of) effect

/-- Whatever the order in which batches are judged and their statements run. -/
theorem kept_of_run {store : AdminStore} {events : List AdminEvent} {last : AdminSystem} (start : kept store)
    (callers : Runs.Along node.step (Judges node kind) { store } events)
    (ran : Runs.run node.step { store } events = some last) : kept last.store := by
  have first : kept store ∧ ∀ statements ∈ ([] : List (List (AdminCall × Values))), Within allowed statements :=
    ⟨start, fun _ member => by cases member⟩
  have keeps : ∀ {system next : AdminSystem} {event : AdminEvent},
      (kept system.store ∧ ∀ statements ∈ system.running, Within allowed statements) → Judges node kind system event →
        node.step system event = some next → kept next.store ∧ ∀ statements ∈ next.running, Within allowed statements :=
    fun held met stepped => step_keeps authorized writes overlays held met stepped
  exact (Runs.run_keeps node.step (Judges node kind) keeps first callers ran).1

end

/-- The rows of `admins` are among those of the first store, and the grants on views and functions are its. -/
def NoMore (first now : AdminStore) : Prop :=
  (∀ row ∈ now.tables.rows .admins, row ∈ first.tables.rows .admins) ∧
    (now.tables.rows .platformGrants).filter notSource = (first.tables.rows .platformGrants).filter notSource

/-- A steward with the policy bundle, and a role that operates the node but is denied its sessions. -/
def stewarded : AdminStore where
  tables := .of
    [(.admins, [(.role, .text "steward".toList), (.scope, .text "policy".toList), (.vcat, .text [])]),
     (.admins, [(.role, .text "analyst".toList), (.scope, .text "operate".toList), (.vcat, .text [])]),
     (.platformGrants, [(.role, .text "analyst".toList), (.object, .text "sessions".toList), (.kind, .text "view".toList),
       (.allowed, .boolean false)]),
     (.roles, [(.role, .text "analyst".toList)])]
  identity := {}

/-- The steward drops the role, in a batch that is judged and then runs. -/
def dropsAnalyst : List AdminEvent :=
  [.judge ⟨.principal ["steward".toList], [(⟨"acl_drop_role".toList, [.constant (some "analyst".toList)]⟩, fun _ => none)]⟩,
   .execute 0]

/-! ## Callers that only manage catalogs -/

/-- The grant of a catalog, apart from the verdict on its predicate. -/
def withoutVerdict (row : Row) : Row := Function.update row .rlsChecked .null

/-- The rights and the identity model are those of the first store; of a catalog's grants only the verdicts on
their predicates may differ. -/
def SameRights (first now : AdminStore) : Prop :=
  now.tables.rows .admins = first.tables.rows .admins ∧
    now.tables.rows .platformGrants = first.tables.rows .platformGrants ∧
    (now.tables.rows .roleCatalogs).map withoutVerdict = (first.tables.rows .roleCatalogs).map withoutVerdict ∧
    now.identity = first.identity

private theorem sameRights_recheck {store : AdminStore} (vcat : Text) :
    SameRights store { store with tables := node.recheckGrants store.tables vcat } := by
  refine ⟨rows_recheckGrants (by decide), rows_recheckGrants (by decide), ?_, rfl⟩
  unfold recheckGrants PolicyTables.mapRows
  dsimp only
  rw [Function.update_self, List.map_map]
  refine List.map_congr_left fun row _ => ?_
  dsimp only [Function.comp_apply]
  split
  · exact Function.update_idem _ _ _
  · rfl

private theorem sameRights_trans {first second third : AdminStore} (left : SameRights first second)
    (right : SameRights second third) : SameRights first third :=
  ⟨right.1.trans left.1, right.2.1.trans left.2.1, right.2.2.1.trans left.2.2.1, right.2.2.2.trans left.2.2.2⟩

/-- The catalogs a role manages are read off its grants without their verdicts. -/
private theorem manageCatalogs_of_same {first last : AdminStore}
    (same : (last.tables.rows .roleCatalogs).map withoutVerdict = (first.tables.rows .roleCatalogs).map withoutVerdict)
    (roles : List Text) : (node.policy last).manageCatalogs roles = (node.policy first).manageCatalogs roles := by
  have read : ∀ store : AdminStore, ((store.tables.rows .roleCatalogs).filter (FixedPolicy.roleIn roles)).mapM
        (node.policy store).managed =
      (((store.tables.rows .roleCatalogs).map withoutVerdict).filter (FixedPolicy.roleIn roles)).mapM
        (node.policy first).managed := by
    intro store
    have unread : FixedPolicy.roleIn roles ∘ withoutVerdict = FixedPolicy.roleIn roles := rfl
    have managed : (node.policy first).managed ∘ withoutVerdict = (node.policy store).managed := rfl
    rw [List.filter_map, unread, List.mapM_map, managed]
  unfold FixedPolicy.manageCatalogs
  show (List.mapM _ ((last.tables.rows .roleCatalogs).filter _) >>= _) =
    (List.mapM _ ((first.tables.rows .roleCatalogs).filter _) >>= _)
  rw [read last, read first, same]

theorem adminRightsOf_of_same {first last : AdminStore} (same : SameRights first last) (roles : List Text) :
    node.adminRightsOf last roles = node.adminRightsOf first roles := by
  obtain ⟨admins, platform, catalogs, _⟩ := same
  have scopes : (node.policy last).adminScopes roles = (node.policy first).adminScopes roles := by
    show List.map _ ((last.tables.rows .admins).filter _) = List.map _ ((first.tables.rows .admins).filter _)
    rw [admins]
  have grants : (node.policy last).platformGrants roles = (node.policy first).platformGrants roles := by
    show List.map _ ((last.tables.rows .platformGrants).filter _) = List.map _ ((first.tables.rows .platformGrants).filter _)
    rw [platform]
  unfold adminRightsOf FixedPolicy.adminRightsOf FixedPolicy.rightsOf
  rw [manageCatalogs_of_same catalogs, scopes, grants]

/-- Callers that only manage catalogs, by their rows or by the capability `manage`, change no rights of any role and
nothing of the identity model, whatever they call and however their batches lie among each other. -/
theorem managers_change_no_rights {store : AdminStore} {events : List AdminEvent} {last : AdminSystem}
    (callers : Runs.Along node.step (Judges node OnlyManages) { store } events)
    (ran : Runs.run node.step { store } events = some last) :
    (∀ roles, node.adminRightsOf last.store roles = node.adminRightsOf store roles) ∧ SameRights store last.store := by
  have writes : ∀ {now next : AdminStore} {values : Values} {operation : AdminOperation}, SameRights store now →
      operation = .refreshSchema → node.effect now values operation = .ok next → SameRights store next := by
    rintro now next values operation held rfl effect
    cases effect_wrote rfl effect with
    | nothing => exact held
    | rechecked vcat => exact sameRights_trans held (sameRights_recheck vcat)
    | cleared which => simp at which
    | ensured which => simp at which
    | sourced which => simp at which
    | edited edits => cases edits
  have overlays : ∀ {now : AdminStore} (rest : PolicyTables), SameRights store now →
      SameRights store { now with tables := now.tables.overlay rest } := by
    intro now rest held
    unfold SameRights
    dsimp only
    rwa [rows_overlay rfl, rows_overlay rfl, rows_overlay rfl]
  have kept := kept_of_run refreshes_of_authorized writes overlays ⟨rfl, rfl, rfl, rfl⟩ callers ran
  exact ⟨fun roles => adminRightsOf_of_same kept roles, kept⟩

/-- The same node, where the capabilities of the keeper's grant are read. -/
def keptNode : AdminNode :=
  { plainNode with
    yyjsonRead := fun text =>
      if text = "\x7b\"manage\": true\x7d".toList then some (.obj [("manage".toList, .bool true)]) else none }

/-- A keeper who manages a catalog, and the steward. -/
def keptStore : AdminStore where
  tables := .of
    [(.admins, [(.role, .text "steward".toList), (.scope, .text "policy".toList), (.vcat, .text [])]),
     (.roleCatalogs, [(.role, .text "keeper".toList), (.vcat, .text "sales".toList), (.isMain, .boolean false),
       (.caps, .text "\x7b\"manage\": true\x7d".toList), (.rls, .text "region = 1".toList), (.rlsChecked, .null)])]
  identity := {}

/-- The keeper rereads the catalog, which settles the verdict on the predicate of the grant. -/
def rereads : List AdminEvent :=
  [.judge ⟨.principal ["keeper".toList], [(⟨"acl_refresh_schema".toList, [.constant (some "sales".toList)]⟩, fun _ => none)]⟩,
   .execute 0]

theorem managers_change_no_rights_rereads :
    ∃ last, Runs.run keptNode.step { store := keptStore } rereads = some last ∧
      (∀ roles, keptNode.adminRightsOf last.store roles = keptNode.adminRightsOf keptStore roles) ∧
      SameRights keptStore last.store := by
  have callers : Runs.Along keptNode.step (Judges keptNode OnlyManages) { store := keptStore } rereads := by
    refine ⟨fun rights read => ?_, ?_⟩
    · have is : keptNode.callerRights keptStore (.principal ["keeper".toList]) = .ok { catalogs := ["sales".toList] } := by
        rfl
      obtain rfl := Except.ok.inj (is.symm.trans read)
      exact ⟨rfl, rfl, fun object named => by cases named⟩
    · split
      · trivial
      · refine ⟨trivial, ?_⟩
        split <;> trivial
  have runs : (Runs.run keptNode.step { store := keptStore } rereads).isSome = true := by decide +kernel
  obtain ⟨last, ran⟩ := Option.isSome_iff_exists.mp runs
  exact ⟨last, ran, managers_change_no_rights callers ran⟩

end AdminNode

end DuckAcl
