import DuckAcl.Library.Text
import Mathlib.Algebra.Order.Ring.Int

/-! # The limits of a session's resource groups

A session opens with limits that `CatalogBackend::ResourceLimitsOf` (`acl_policy_catalog.cpp`) reads from the
resource groups of its principal's roles, or from the default group. A node of a group serves only members
of that group (`Place` in `acl_placement.hpp`), with that group's limits; elsewhere each limit is the most
generous of the groups'. The order of names is the database's.
-/

namespace DuckAcl.ResourceGroups

/-- A row of `resource_groups`; a limit that is not stated is NULL. -/
structure ResourceGroup where
  group : Text
  windowStart : Option ℤ := none
  windowMax : Option ℤ := none
  batchBytes : Option ℤ := none
  maxResultRows : Option ℤ := none
  queuePriority : Option ℤ := none
  maxSessions : Option ℤ := none
  isDefault : Option Bool := none
deriving DecidableEq, Repr

/-- What a session's groups allow. -/
structure ResourceLimits where
  groups : List Text := []
  charged : Text := []
  chargedMax : ℕ := 0
  windowStart : Option ℕ := none
  windowMax : Option ℕ := none
  batchBytes : Option ℕ := none
  maxResultRows : Option ℕ := none
  queuePriority : ℤ := 0
  admitted : Bool := true
  refusal : Text := []
deriving DecidableEq, Repr

/-! ## Placement -/

structure PlacementDecision where
  admitted : Bool := true
  group : Text := []
  refusal : Text := []
deriving DecidableEq, Repr

/-- A name between quotation marks. -/
def quotedGroup (group : Text) : Text := '"' :: (group ++ ['"'])

/-- `Place`. -/
def place (nodeGroup : Text) (nodeGroupKnown : Bool) (principalGroups : List Text) : PlacementDecision :=
  if nodeGroup = [] then {}
  else if !nodeGroupKnown then
    { admitted := false
      refusal := "acl: this node's resource group ".toList ++ quotedGroup nodeGroup ++
        " is not a resource group of the policy - it serves no new session until it is".toList }
  else if nodeGroup ∈ principalGroups then { group := nodeGroup }
  else if principalGroups = [] then
    { admitted := false
      refusal := "acl: this node serves resource group ".toList ++ quotedGroup nodeGroup ++
        " - no resource group serves your roles (and there is no default group)".toList }
  else
    { admitted := false
      refusal := "acl: this node serves resource group ".toList ++ quotedGroup nodeGroup ++
        " - your roles are served by ".toList ++ ", ".toList.intercalate (principalGroups.map quotedGroup) }

/-! ## Merging -/

/-- `generous`: the larger of two values, or 0 where 0 means unlimited. -/
def generous (zeroIsUnlimited : Bool) (into : Option ℕ) : Option ℤ → Option ℕ
  | none => into
  | some value =>
    let v := (max value 0).toNat
    match into with
    | none => some v
    | some index => if zeroIsUnlimited && (v = 0 || index = 0) then some 0 else if index < v then some v else some index

/-- What the loop over the groups has merged. -/
structure Merging where
  out : ResourceLimits := {}
  anyPriority : Bool := false
  unlimitedSessions : Bool := false

/-- The name of a group and the four limits that are merged alike. -/
def Merging.limits (merging : Merging) (row : ResourceGroup) : Merging :=
  { merging with
    out := { merging.out with
      groups := merging.out.groups ++ [row.group]
      windowStart := generous true merging.out.windowStart row.windowStart
      windowMax := generous true merging.out.windowMax row.windowMax
      batchBytes := generous false merging.out.batchBytes row.batchBytes
      maxResultRows := generous true merging.out.maxResultRows row.maxResultRows } }

/-- The priority of a group. -/
def Merging.priority (merging : Merging) : Option ℤ → Merging
  | none => merging
  | some p =>
    { merging with
      out := { merging.out with queuePriority := if merging.anyPriority then max merging.out.queuePriority p else p }
      anyPriority := true }

/-- The sessions of a group. -/
def Merging.sessions (merging : Merging) (group : Text) (maxSessions : Option ℤ) : Merging :=
  match maxSessions with
  | none => { merging with unlimitedSessions := true }
  | some m =>
    if m ≤ 0 then { merging with unlimitedSessions := true }
    else if !merging.unlimitedSessions && (merging.out.charged = [] || merging.out.chargedMax < m.toNat) then
      { merging with out := { merging.out with charged := group, chargedMax := m.toNat } }
    else merging

/-- The body of the loop. -/
def Merging.add (merging : Merging) (row : ResourceGroup) : Merging :=
  ((merging.limits row).priority row.queuePriority).sessions row.group row.maxSessions

/-- The loop over the groups, and what follows it. -/
def mergeLimits (rows : List ResourceGroup) : ResourceLimits :=
  let merged := rows.foldl Merging.add {}
  if merged.unlimitedSessions then { merged.out with charged := [], chargedMax := 0 } else merged.out

/-! ## The groups of a principal -/

/-- The tables a policy database has of resource groups, and its order of names. -/
structure GroupTables where
  resourceGroups : List ResourceGroup
  roleResourceGroups : List (Text × Text)
  nameLe : Text → Text → Bool

namespace GroupTables

variable (tables : GroupTables)

/-- `EXISTS (SELECT 1 FROM role_resource_groups …)`. -/
def bound (roles : List Text) (row : ResourceGroup) : Bool :=
  tables.roleResourceGroups.any fun binding => binding.2 = row.group && roles.contains binding.1

/-- The rows of the query, by name. -/
def queried : List ResourceGroup := tables.resourceGroups.mergeSort fun a b => tables.nameLe a.group b.group

/-- The rows of the principal: those bound to its roles, else the first default one. -/
def rowsOf (roles : List Text) : List ResourceGroup :=
  let rows := tables.queried.filter (tables.bound roles)
  if rows = [] then (tables.queried.find? fun row => row.isDefault.getD false).toList else rows

end GroupTables

/-- `CatalogBackend::ResourceLimitsOf`. -/
def resourceLimitsOf (functionMode : Bool) (tables : GroupTables) (roles : List Text) (nodeGroup : Text) : ResourceLimits :=
  if functionMode then
    if nodeGroup ≠ [] then
      { admitted := false
        refusal := "acl: this node's resource group ".toList ++ quotedGroup nodeGroup ++
          " cannot be judged - the function-driver policy source has no resource groups".toList }
    else {}
  else
    let known := nodeGroup = [] || tables.queried.any fun row => row.group = nodeGroup
    let rows := tables.rowsOf roles
    let groups := rows.map ResourceGroup.group
    let placed := place nodeGroup known groups
    if !placed.admitted then { admitted := false, refusal := placed.refusal, groups }
    else mergeLimits (if placed.group ≠ [] then rows.filter fun row => row.group = placed.group else rows)

end DuckAcl.ResourceGroups
