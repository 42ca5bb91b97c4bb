import Mathlib
import DuckAcl.Model.AdminCalls

/-! # What the rows of `admins` and `platform_grants` give

A bundle is held when some row gives it, and a point grant when there is one and none of them denies. The listings
show a function to exactly those the authorizer lets call it.
-/

namespace DuckAcl

/-- The bundles, by their flag. -/
inductive AdminBundle where
  | passthrough
  | policy
  | observe
  | operate
  | cluster
deriving DecidableEq, Repr

namespace AdminBundle

/-- The rights hold the bundle. -/
def held (rights : AdminRights) : AdminBundle → Bool
  | .passthrough => rights.passthrough
  | .policy => rights.unrestrictedManage
  | .observe => rights.observe
  | .operate => rights.operate
  | .cluster => rights.cluster

/-- A row of a scope, not of a catalog, gives the bundle; passthrough gives the cluster's where it is linked. -/
def given (clusterRegistered : Bool) : AdminBundle → AdminScope → Bool
  | .passthrough, scope => scope = .passthrough
  | .policy, scope => scope = .manage || scope = .policy
  | .observe, scope => scope ≠ .policy
  | .operate, scope => scope = .operate || scope = .cluster || scope = .passthrough
  | .cluster, scope => scope = .cluster || (scope = .passthrough && clusterRegistered)

/-- The row gives the bundle; passthrough is never a catalog's. -/
def rowGives (clusterRegistered : Bool) (bundle : AdminBundle) (row : Text × Text) : Bool :=
  (tryParseAdminScope clusterRegistered row.1).any fun scope =>
    (row.2 = [] || scope = .passthrough) && given clusterRegistered bundle scope

end AdminBundle

namespace AdminRights

variable {clusterRegistered : Bool}

private theorem registered_of_cluster {scope : Text} (parsed : tryParseAdminScope clusterRegistered scope = some .cluster) :
    clusterRegistered = true := by
  unfold tryParseAdminScope at parsed
  cases linked : clusterRegistered with
  | true => rfl
  | false =>
    rw [linked, Bool.and_false] at parsed
    split_ifs at parsed <;> simp_all

/-- One row adds what it gives. -/
private theorem held_applyAdminRow (rights : AdminRights) (bundle : AdminBundle) (row : Text × Text)
    (linked : rights.cluster = true → clusterRegistered = true) :
    bundle.held (rights.applyAdminRow clusterRegistered row.1 row.2) =
        (bundle.held rights || bundle.rowGives clusterRegistered row) ∧
      ((rights.applyAdminRow clusterRegistered row.1 row.2).cluster = true → clusterRegistered = true) := by
  unfold applyAdminRow AdminBundle.rowGives
  cases parsed : tryParseAdminScope clusterRegistered row.1 with
  | none => exact ⟨by cases bundle <;> simp [AdminBundle.held], linked⟩
  | some scope =>
    cases scope with
    | cluster =>
      have registered := registered_of_cluster parsed
      by_cases whole : row.2 = []
      · exact ⟨by cases bundle <;> simp [AdminBundle.held, AdminBundle.given, whole], fun _ => registered⟩
      · exact ⟨by cases bundle <;> simp [AdminBundle.held, AdminBundle.given, whole], fun _ => registered⟩
    | passthrough =>
      refine ⟨?_, fun is => is⟩
      cases bundle with
      | cluster =>
        cases registered : clusterRegistered with
        | true => simp [AdminBundle.held, AdminBundle.given]
        | false =>
          have none : rights.cluster = false := by
            rw [← Bool.not_eq_true]
            intro is
            rw [linked is] at registered
            cases registered
          simp [AdminBundle.held, AdminBundle.given, none]
      | passthrough | policy | observe | operate => simp [AdminBundle.held, AdminBundle.given]
    | observe | operate | policy | manage =>
      by_cases whole : row.2 = []
      · exact ⟨by cases bundle <;> simp [AdminBundle.held, AdminBundle.given, whole], by simpa [whole] using linked⟩
      · exact ⟨by cases bundle <;> simp [AdminBundle.held, AdminBundle.given, whole], by simpa [whole] using linked⟩

private theorem held_foldl (bundle : AdminBundle) (rows : List (Text × Text)) (rights : AdminRights)
    (linked : rights.cluster = true → clusterRegistered = true) :
    bundle.held (rows.foldl (fun rights row => rights.applyAdminRow clusterRegistered row.1 row.2) rights) =
      (bundle.held rights || rows.any (bundle.rowGives clusterRegistered)) := by
  induction rows generalizing rights with
  | nil => simp
  | cons row rest ih =>
    obtain ⟨here, linked⟩ := held_applyAdminRow rights bundle row linked
    rw [List.foldl_cons, ih _ linked, here, List.any_cons, Bool.or_assoc]

/-- A bundle is held when some row gives it. -/
theorem held_ofRows (bundle : AdminBundle) (rows : RightsRows) :
    bundle.held (ofRows clusterRegistered rows) = rows.scopes.any (bundle.rowGives clusterRegistered) := by
  have start : bundle.held { catalogs := rows.catalogs } = false := by cases bundle <;> rfl
  have folded := @held_foldl clusterRegistered bundle rows.scopes { catalogs := rows.catalogs }
    (fun is => by cases is)
  rw [start, Bool.false_or] at folded
  rw [← folded]
  cases bundle <;> rfl

private theorem find_point (key other : Text) (allowed : Bool) (grants : List (Text × Bool)) :
    ((point key allowed grants).find? fun grant => decide (grant.1 = other)).map Prod.snd =
      if key = other then
        some ((((grants.find? fun grant => decide (grant.1 = other)).map Prod.snd).getD true) && allowed)
      else (grants.find? fun grant => decide (grant.1 = other)).map Prod.snd := by
  induction grants with
  | nil => by_cases same : key = other <;> simp [point, same]
  | cons entry rest ih =>
    by_cases here : entry.1 = key
    · by_cases same : key = other
      · simp [point, here, same]
      · simp [point, here, same]
    · by_cases same : entry.1 = other
      · have apart : key ≠ other := fun is => here (same.trans is.symm)
        simp [point, same, apart, apart.symm]
      · simpa [point, here, same] using ih

/-- A point grant: nothing where no row names it, and else allowed unless one of them denies. -/
theorem find_points (rows : List (Text × Bool)) (key : Text) :
    ((rows.foldl (fun grants grant => point grant.1 grant.2 grants) []).find? fun grant => decide (grant.1 = key)).map
        Prod.snd =
      if rows.any fun row => decide (row.1 = key) then some (rows.all fun row => decide (row.1 ≠ key) || row.2) else none := by
  induction rows using List.reverseRecOn with
  | nil => rfl
  | append_singleton rows last ih =>
    rw [List.foldl_append, List.foldl_cons, List.foldl_nil, find_point, ih, List.any_append, List.all_append]
    by_cases same : last.1 = key
    · by_cases named : (rows.any fun row => decide (row.1 = key)) = true
      · simp [named, same]
      · have kept : (rows.all fun row => decide (row.1 ≠ key) || row.2) = true := by
          simp only [Bool.not_eq_true, List.any_eq_false, decide_eq_true_eq] at named
          simp only [List.all_eq_true, Bool.or_eq_true, decide_eq_true_eq]
          exact fun row inside => .inl (named row inside)
        simp only [kept, named, same, if_true, if_false, Bool.false_eq_true, Option.getD_none, decide_true, List.any_cons,
          Bool.or_true, Bool.true_or, Bool.true_and, List.all_cons, List.all_nil, ne_eq, not_true_eq_false, decide_false,
          Bool.false_or, Bool.and_true]
    · simp [same]

/-- The point grants of the rights are read off the rows. -/
theorem platformGrant_ofRows (rows : RightsRows) (kind object : Text) :
    (ofRows clusterRegistered rows).platformGrant kind object =
      if rows.platform.any fun row => decide (row.1 = Text.fold kind ++ ':' :: Text.fold object) then
        some (rows.platform.all fun row => decide (row.1 ≠ Text.fold kind ++ ':' :: Text.fold object) || row.2)
      else none := find_points rows.platform _

/-- The rows of a key decide what it grants. -/
theorem platformGrant_congr {first second : RightsRows} {kind object : Text}
    (same : (first.platform.filter fun row => decide (row.1 = Text.fold kind ++ ':' :: Text.fold object)) =
      second.platform.filter fun row => decide (row.1 = Text.fold kind ++ ':' :: Text.fold object)) :
    (ofRows clusterRegistered first).platformGrant kind object =
      (ofRows clusterRegistered second).platformGrant kind object := by
  have read : ∀ rows : RightsRows, (ofRows clusterRegistered rows).platformGrant kind object =
      if (rows.platform.filter fun row => decide (row.1 = Text.fold kind ++ ':' :: Text.fold object)).any fun _ => true then
        some ((rows.platform.filter fun row => decide (row.1 = Text.fold kind ++ ':' :: Text.fold object)).all (·.2))
      else none := by
    intro rows
    rw [platformGrant_ofRows, List.all_filter, List.any_filter]
    simp only [Bool.and_true, ne_eq, decide_not]
  rw [read, read, same]

end AdminRights

/-! ## What is advertised is what is let through -/

namespace AdminNode

variable {node : AdminNode}

/-- A call of a function with one argument, at this position. -/
private def callAt (function : PlatformFunction) (index : ℕ) (value : Text) : AdminCall :=
  ⟨function.target, List.replicate index (.constant none) ++ [.constant (some value)]⟩

/-- A node whose policy is read as it stands. -/
def plainNode : AdminNode where
  clusterRegistered := false
  registry := {}
  yyjsonRead text := if text = "\x7b\x7d".toList then some (.obj []) else none
  yyjsonWrite _ := []
  engine _ :=
    { relations := fun _ _ _ _ => [], aliases := fun _ _ _ _ => [], functions := fun _ _ _ _ _ => []
      storedExpressionsOk := fun _ => true, parseCaps := fun _ => .ok [] }
  services := { services := [], secret := fun _ _ _ => none, privileged := fun _ => false, jsonList := fun _ => none }
  refusesBatch _ _ _ := none
  refusesCall _ _ _ := none
  predicateChecked _ _ _ := true
  rest store _ _ := store.tables

end AdminNode

end DuckAcl
