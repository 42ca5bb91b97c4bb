import DuckAcl.Library.Outcome
import DuckAcl.Model.ResultCaches

/-! # The caches answer as the policy does

A cache gives a call the answer it gave to an earlier call under the same key. The keys of the answers
by role set are exact: they tell role sets apart as multisets, whatever the names of the roles hold.
The default claims are kept by role name up to case, and the physical name behind a live schema alias
keeps the case of the first spelling; away from both, every call is answered as on empty caches.
-/

namespace DuckAcl

open Outcome

/-! ## Role signatures -/

/-- Texts of one size are told apart where they end. -/
private theorem size_append_inj {a b rest rest' : Text} (same : a ++ rest = b ++ rest')
    (sizes : Text.size a = Text.size b) : a = b ∧ rest = rest' := by
  induction a generalizing b with
  | nil =>
    cases b with
    | nil => exact ⟨rfl, same⟩
    | cons d b =>
      have positive := d.utf8Size_pos
      simp only [Text.size, List.map_nil, List.sum_nil, List.map_cons, List.sum_cons] at sizes
      omega
  | cons c a ih =>
    cases b with
    | nil =>
      have positive := c.utf8Size_pos
      simp only [Text.size, List.map_nil, List.sum_nil, List.map_cons, List.sum_cons] at sizes
      omega
    | cons d b =>
      obtain ⟨rfl, tails⟩ := List.cons.inj same
      simp only [Text.size, List.map_cons, List.sum_cons] at sizes
      obtain ⟨rfl, rests⟩ := ih tails (by unfold Text.size; omega)
      exact ⟨rfl, rests⟩

/-- A role of a signature. -/
private def sigEntry (role : Text) : Text := (toString (Text.size role)).toList ++ ':' :: role ++ [';']

private theorem digits_free {n : ℕ} {c : Char} (mark : c.isDigit = false) : c ∉ (toString n).toList := by
  intro held
  rw [Nat.toString_eq_repr, Nat.toList_repr] at held
  rw [Nat.isDigit_of_mem_toDigits (by decide) (by decide) held] at mark
  cases mark

private theorem digits_inj {n m : ℕ} (same : (toString n).toList = (toString m).toList) : n = m := by
  rw [Nat.toString_eq_repr, Nat.toString_eq_repr, Nat.toList_repr, Nat.toList_repr] at same
  rw [← Nat.ofDigitChars_toDigits (n := n) (by decide) (by decide : 10 ≤ 10), same,
    Nat.ofDigitChars_toDigits (by decide) (by decide)]

/-- A role is told apart from what follows it by its length. -/
private theorem sigEntry_inj {role role' rest rest' : Text} (same : sigEntry role ++ rest = sigEntry role' ++ rest') :
    role = role' ∧ rest = rest' := by
  simp only [sigEntry, List.append_assoc, List.cons_append, List.nil_append] at same
  obtain ⟨digits, roles⟩ := Text.split_at_first (digits_free (by decide)) (digits_free (by decide)) same
  obtain ⟨rfl, rests⟩ := size_append_inj roles (digits_inj digits)
  exact ⟨rfl, (List.cons.inj rests).2⟩

/-- A signature is told apart from what follows the separator behind it. -/
private theorem sigEntries_inj {roles roles' : List Text} {rest rest' : Text}
    (same : roles.flatMap sigEntry ++ '\x1f' :: rest = roles'.flatMap sigEntry ++ '\x1f' :: rest') :
    roles = roles' ∧ rest = rest' := by
  -- an entry starts with a digit, so it is never the separator
  have starts : ∀ (role after tail : Text), sigEntry role ++ after ≠ '\x1f' :: tail := by
    intro role after tail same
    cases digits : (toString (Text.size role)).toList with
    | nil => simp [Nat.toString_eq_repr, Nat.toList_repr] at digits
    | cons d digits' =>
      rw [sigEntry, digits] at same
      have mark : '\x1f' ∈ (toString (Text.size role)).toList := by
        rw [digits, ← (List.cons.inj same).1]
        exact .head _
      exact digits_free (by decide) mark
  induction roles generalizing roles' with
  | nil =>
    cases roles' with
    | nil => exact ⟨rfl, (List.cons.inj same).2⟩
    | cons role' roles' =>
      rw [List.flatMap_cons, List.append_assoc] at same
      exact absurd same.symm (starts _ _ _)
  | cons role roles ih =>
    cases roles' with
    | nil =>
      rw [List.flatMap_cons, List.append_assoc] at same
      exact absurd same (starts _ _ _)
    | cons role' roles' =>
      rw [List.flatMap_cons, List.flatMap_cons, List.append_assoc, List.append_assoc] at same
      obtain ⟨rfl, entries⟩ := sigEntry_inj same
      obtain ⟨rfl, rests⟩ := ih entries
      exact ⟨rfl, rests⟩

private theorem roleSig_inj {roles roles' : List Text} {rest rest' : Text}
    (same : roleSig roles ++ '\x1f' :: rest = roleSig roles' ++ '\x1f' :: rest') : roles.Perm roles' ∧ rest = rest' := by
  obtain ⟨sorted, rests⟩ := sigEntries_inj same
  have back := List.mergeSort_perm roles' fun a b => decide (a ≤ b)
  rw [← sorted] at back
  exact ⟨(List.mergeSort_perm roles _).symm.trans back, rests⟩

/-- Role sets with one signature are equal as multisets. -/
theorem perm_of_roleSig {roles roles' : List Text} (same : roleSig roles = roleSig roles') : roles.Perm roles' := by
  have marked : roleSig roles ++ '\x1f' :: [] = roleSig roles' ++ '\x1f' :: [] := by rw [same]
  exact (roleSig_inj marked).1

/-- The entries of `objects` are kept apart by the role set, the name up to case, the settings and the
capability. -/
theorem objectsKey_inj {settings settings' : NodeSettings} {roles roles' : List Text} {vname vname' : Text}
    {capability capability' : Capability}
    (same : objectsKey settings roles vname capability = objectsKey settings' roles' vname' capability') :
    roles.Perm roles' ∧ Text.fold vname = Text.fold vname' ∧ settings = settings' ∧ capability = capability' := by
  simp only [objectsKey, List.append_assoc, List.cons_append] at same
  obtain ⟨perm, same⟩ := roleSig_inj same
  have free : ∀ capability : Capability, '\x1f' ∉ capability.text := by
    intro capability
    cases capability <;> decide
  have regroup : ∀ (name : Text) (x y : Char) (cap : Text),
      name ++ '\x1f' :: x :: y :: '\x1f' :: cap = (name ++ ['\x1f', x, y]) ++ '\x1f' :: cap := by
    intro name x y cap
    simp
  rw [regroup, regroup] at same
  obtain ⟨same, caps⟩ := Text.split_at_last (free _) (free _) same
  obtain ⟨names, flags⟩ := List.append_inj' same rfl
  refine ⟨perm, names, ?_, ?_⟩
  · obtain ⟨strips, enums⟩ := settings
    obtain ⟨strips', enums'⟩ := settings'
    simp only [List.cons.injEq, and_true, true_and] at flags
    cases strips <;> cases strips' <;> cases enums <;> cases enums' <;> simp_all
  · cases capability <;> cases capability' <;> first | rfl | exact absurd caps (by decide)

theorem functionsKey_inj {roles roles' : List Text} {vname vname' : Text} {tableKind tableKind' : Bool}
    (same : functionsKey roles vname tableKind = functionsKey roles' vname' tableKind') :
    roles.Perm roles' ∧ Text.fold vname = Text.fold vname' ∧ tableKind = tableKind' := by
  simp only [functionsKey, List.append_assoc, List.cons_append] at same
  obtain ⟨perm, same⟩ := roleSig_inj same
  have free : ∀ kind, '\x1f' ∉ PolicyEngine.kindText kind := by decide
  obtain ⟨kinds, names⟩ := Text.split_at_first (free _) (free _) same
  refine ⟨perm, names, ?_⟩
  cases tableKind <;> cases tableKind' <;> first | rfl | exact absurd kinds (by decide)

/-! ## Lookups and the spelling of a name -/

/-- Where the name of the object stands in errors only, it does not change the answer. -/
private theorem renameSource_same (vname vname' name : Text) (source : Source) (renames : List (Text × Text)) :
    SameAnswer (renameSource vname name source renames) (renameSource vname' name source renames) := by
  induction renames with
  | nil => exact SameAnswer.refl _
  | cons rename rest ih =>
    simp only [renameSource]
    split_ifs
    · exact SameAnswer.refl _
    · exact SameAnswer.errors _ _
    · exact ih

private theorem restrictDeclared_same (vname vname' : Text) (objectColumns : List (Text × Text))
    (listed : List ListedColumn) (policy : TablePolicy) :
    SameAnswer (policy.restrictDeclared vname objectColumns listed)
      (policy.restrictDeclared vname' objectColumns listed) := by
  simp only [TablePolicy.restrictDeclared]
  cases listed.find? fun column => !declares objectColumns column.name && column.guarded with
  | some column => exact SameAnswer.errors _ _
  | none =>
    refine SameAnswer.bind ?_ fun _ => SameAnswer.refl _
    refine SameAnswer.foldlM ?_ _ _
    intro policy column
    exact (renameSource_same vname vname' _ _ _).bind fun _ => SameAnswer.refl _

private theorem applyGrantPolicy_same (vname vname' : Text) (grants : GrantUnion) (objectColumns : List (Text × Text))
    (out : TablePolicy) :
    SameAnswer (applyGrantPolicy vname grants objectColumns out) (applyGrantPolicy vname' grants objectColumns out) := by
  unfold applyGrantPolicy
  dsimp only
  cases out.query with
  | some query => exact SameAnswer.refl _
  | none =>
    dsimp only
    split_ifs
    · exact SameAnswer.refl _
    · exact SameAnswer.refl _
    · exact SameAnswer.refl _
    · exact SameAnswer.bind (SameAnswer.refl _) fun listed => restrictDeclared_same _ _ _ _ _

namespace PolicyEngine

variable {engine : PolicyEngine}

private theorem requireStoredExpressions_same (vname vname' ownRls : Text) (ownColumns : List (Text × Text))
    (united : List GrantPolicy) :
    SameAnswer (engine.requireStoredExpressions vname ownRls ownColumns united)
      (engine.requireStoredExpressions vname' ownRls ownColumns united) := by
  unfold requireStoredExpressions
  split_ifs
  · exact SameAnswer.refl _
  · exact SameAnswer.errors _ _

private theorem relationOf_same (settings : NodeSettings) (capability : Capability) (vname vname' : Text)
    (rows : List RelationRow) :
    SameAnswer (engine.relationOf settings capability vname rows) (engine.relationOf settings capability vname' rows) := by
  cases rows with
  | nil => exact SameAnswer.refl _
  | cons first rest =>
    simp only [relationOf]
    split_ifs
    · exact SameAnswer.errors _ _
    · refine SameAnswer.bind (SameAnswer.refl _) fun united => ?_
      refine (requireStoredExpressions_same vname vname' _ _ _).bind fun _ => ?_
      exact (applyGrantPolicy_same vname vname' _ _ _).bind fun _ => SameAnswer.refl _

private theorem schemaAliasOf_same (capability : Capability) {vname vname' : Text} {rows : List AliasRow}
    (tails : ∀ first ∈ rows.head?, tailBelow first.aliasPath (writtenPath first vname) =
      tailBelow first.aliasPath (writtenPath first vname')) :
    SameAnswer (engine.schemaAliasOf capability vname rows) (engine.schemaAliasOf capability vname' rows) := by
  cases rows with
  | nil => exact SameAnswer.refl _
  | cons first rest =>
    simp only [schemaAliasOf, tails first rfl]
    split
    · exact SameAnswer.errors _ _
    · refine SameAnswer.bind (SameAnswer.refl _) fun tail => ?_
      cases tail with
      | none => exact SameAnswer.refl _
      | some tail =>
        refine SameAnswer.bind (SameAnswer.refl _) fun united => ?_
        refine (requireStoredExpressions_same vname vname' _ _ _).bind fun _ => ?_
        exact (applyGrantPolicy_same vname vname' _ _ _).bind fun _ => SameAnswer.refl _

private theorem applyFunctionGrantPolicy_same (vname vname' : Text) (tableKind : Bool) (grants : GrantUnion)
    (out : TablePolicy) :
    SameAnswer (applyFunctionGrantPolicy vname tableKind grants out)
      (applyFunctionGrantPolicy vname' tableKind grants out) := by
  unfold applyFunctionGrantPolicy
  dsimp only
  split_ifs
  · exact SameAnswer.refl _
  · exact SameAnswer.errors _ _
  · exact SameAnswer.refl _
  · exact SameAnswer.refl _

private theorem functionOf_same (tableKind : Bool) (vname vname' : Text) (rows : List FunctionRow) :
    SameAnswer (engine.functionOf tableKind vname rows) (engine.functionOf tableKind vname' rows) := by
  cases rows with
  | nil => exact SameAnswer.refl _
  | cons first rest =>
    simp only [functionOf]
    split
    · exact SameAnswer.errors _ _
    · refine SameAnswer.bind (SameAnswer.refl _) fun united => ?_
      refine (requireStoredExpressions_same vname vname' _ _ _).bind fun _ => ?_
      exact (applyFunctionGrantPolicy_same vname vname' _ _ _).bind fun _ => SameAnswer.refl _

/-- The queries compare folded names. -/
private theorem splitHeadKey_congr {vname vname' : Text} (folded : Text.fold vname = Text.fold vname') :
    Text.fold (NamePath.splitHeadKey vname).1 = Text.fold (NamePath.splitHeadKey vname').1 ∧
      Text.fold (NamePath.splitHeadKey vname).2 = Text.fold (NamePath.splitHeadKey vname').2 := by
  have split := NamePath.splitHeadKey_fold vname
  rw [folded, NamePath.splitHeadKey_fold] at split
  exact ⟨(congrArg Prod.fst split).symm, (congrArg Prod.snd split).symm⟩

private theorem unqualifiedName_congr {vname vname' : Text} (folded : Text.fold vname = Text.fold vname') :
    Text.fold (unqualifiedName vname) = Text.fold (unqualifiedName vname') := by
  obtain ⟨heads, rests⟩ := splitHeadKey_congr folded
  have main : Text.ciEquals (NamePath.splitHeadKey vname).1 "main".toList =
      Text.ciEquals (NamePath.splitHeadKey vname').1 "main".toList :=
    Text.ciEquals_congr_left (Text.ciEquals_iff.mpr heads) _
  have empty : (NamePath.splitHeadKey vname).2 ≠ [] ↔ (NamePath.splitHeadKey vname').2 ≠ [] := by
    rw [not_iff_not, ← Text.fold_eq_nil, rests, Text.fold_eq_nil]
  unfold unqualifiedName
  dsimp only
  simp only [main, empty]
  split_ifs
  · exact rests
  · exact folded

private theorem relationRows_congr {roles roles' : List Text} {vname vname' : Text} (perm : roles.Perm roles')
    (folded : Text.fold vname = Text.fold vname') :
    engine.relationRows roles vname = engine.relationRows roles' vname' := by
  obtain ⟨heads, rests⟩ := splitHeadKey_congr folded
  simp only [relationRows, heads, rests, unqualifiedName_congr folded, List.toFinset_eq_of_perm _ _ perm]

private theorem aliasRows_congr {roles roles' : List Text} {vname vname' : Text} (perm : roles.Perm roles')
    (folded : Text.fold vname = Text.fold vname') :
    engine.aliasRows roles vname = engine.aliasRows roles' vname' := by
  obtain ⟨heads, rests⟩ := splitHeadKey_congr folded
  simp only [aliasRows, heads, rests, folded, List.toFinset_eq_of_perm _ _ perm]

/-- Two spellings of a table's name say the same: the name is one of a stored relation, or they do not
differ below the live schema alias that covers it. -/
def SpelledAlike (engine : PolicyEngine) (roles : List Text) (vname vname' : Text) : Prop :=
  engine.relationRows roles vname ≠ [] ∨
    ∀ first ∈ (engine.aliasRows roles vname).head?,
      tailBelow first.aliasPath (writtenPath first vname) = tailBelow first.aliasPath (writtenPath first vname')

/-- Lookups of a table by one role set and two spellings that say the same answer the same. -/
theorem lookupTable_same (settings : NodeSettings) {roles roles' : List Text} {vname vname' : Text}
    (capability : Capability) (perm : roles.Perm roles') (folded : Text.fold vname = Text.fold vname')
    (alike : engine.SpelledAlike roles vname vname') :
    SameAnswer (engine.lookupTable settings roles vname capability)
      (engine.lookupTable settings roles' vname' capability) := by
  unfold lookupTable lookupRelation lookupSchemaAlias
  rw [← relationRows_congr perm folded, ← aliasRows_congr perm folded]
  cases rows : engine.relationRows roles vname with
  | nil =>
    have tails := alike.resolve_left (not_not.mpr rows)
    refine SameAnswer.bind (SameAnswer.refl _) fun found => ?_
    cases found with
    | some found => exact SameAnswer.refl _
    | none => exact schemaAliasOf_same capability tails
  | cons first rest =>
    intro answer
    rw [bind_eq_ok, bind_eq_ok]
    -- a relation that has rows is found or refused, so no alias is asked
    have relation : ∀ vname, engine.relationOf settings capability vname (first :: rest) ≠ .ok none := by
      intro vname unfound
      simp only [relationOf] at unfound
      split at unfound
      · exact throw_ne_ok unfound
      · obtain ⟨united, _, unfound⟩ := bind_eq_ok.mp unfound
        obtain ⟨_, _, unfound⟩ := bind_eq_ok.mp unfound
        obtain ⟨policy, _, unfound⟩ := bind_eq_ok.mp unfound
        cases unfound
    constructor
    · rintro ⟨found, ran, rest⟩
      refine ⟨found, (relationOf_same settings capability vname vname' _ found).mp ran, ?_⟩
      cases found with
      | none => exact absurd ran (relation vname)
      | some found => exact rest
    · rintro ⟨found, ran, rest⟩
      refine ⟨found, (relationOf_same settings capability vname vname' _ found).mpr ran, ?_⟩
      cases found with
      | none => exact absurd ran (relation vname')
      | some found => exact rest

/-- Lookups of a function by one role set and one name up to case answer the same. -/
theorem lookupFunction_same {roles roles' : List Text} {vname vname' : Text} (tableKind : Bool)
    (perm : roles.Perm roles') (folded : Text.fold vname = Text.fold vname') :
    SameAnswer (engine.lookupFunction roles vname tableKind) (engine.lookupFunction roles' vname' tableKind) := by
  obtain ⟨heads, rests⟩ := splitHeadKey_congr folded
  simp only [lookupFunction, heads, rests, folded, List.toFinset_eq_of_perm _ _ perm]
  exact functionOf_same tableKind vname vname' _

end PolicyEngine

/-- The roles whose default claims a call asks for. -/
def PolicyCall.claimRoles : PolicyCall → List Text
  | .loadRoleClaims roles _ => roles
  | _ => []

namespace FixedPolicy

variable {policy : FixedPolicy} {calls : List PolicyCall} {caches : ResultCaches}

/-! ## What the policy says

The answers without caches. -/

/-- The default claims of one role. -/
def claimsOf (policy : FixedPolicy) (role : Text) : Claims :=
  (policy.claimRows [role]).foldl (fun claims row => claims.assign row.2.1 row.2.2) []

/-- The answer of a call as the policy has it. -/
def answer (policy : FixedPolicy) : PolicyCall → PolicyAnswer
  | .resolveTable settings roles vname capability =>
    .table (if roles = [] then .ok none else policy.engine.lookupTable settings roles vname capability)
  | .resolveFunction roles vname tableKind =>
    .function (if roles = [] then .ok none else policy.engine.lookupFunction roles vname tableKind)
  | .loadRights roles => .rights (if roles = [] then .ok ⟨[], [], []⟩ else policy.rightsOf roles)
  | .knownRoles values => .known ((values.filter policy.knowsRole).map Text.fold).toFinset
  | .loadRoleClaims roles claims =>
    .claims (roles.foldl (fun claims role => addDefaults (fun _ => some (policy.claimsOf role)) claims role) claims)

/-- The run has one spelling for each role whose claims it loads, and for each name below a live schema
alias that one role set resolves. -/
structure OneSpelling (policy : FixedPolicy) (calls : List PolicyCall) : Prop where
  roles : ∀ one ∈ calls, ∀ other ∈ calls, ∀ role ∈ one.claimRoles, ∀ role' ∈ other.claimRoles,
    Text.fold role = Text.fold role' → role = role'
  names : ∀ settings roles vname roles' vname' capability,
    PolicyCall.resolveTable settings roles vname capability ∈ calls →
    PolicyCall.resolveTable settings roles' vname' capability ∈ calls → roles.Perm roles' →
    Text.fold vname = Text.fold vname' → policy.engine.SpelledAlike roles vname vname'

/-! ## The caches of known roles and of claims -/

private theorem find_storeAll {knows : Text → Bool} {missing : List Text} {memo : Memo Text Bool}
    (sound : ∀ {role known}, memo.find role = some known → known = knows role) {role : Text} {known : Bool}
    (found : (missing.foldl (fun memo value => memo.store value (knows value)) memo).find role = some known) :
    known = knows role := by
  induction missing generalizing memo with
  | nil => exact sound found
  | cons value missing ih =>
    refine ih ?_ found
    intro role known found
    rw [Memo.find_store] at found
    split_ifs at found with same
    · rw [same, Option.some.inj found]
    · exact sound found

/-- With sound entries, which roles are known is answered as the policy says. -/
private theorem callKnownRoles_eq
    (sound : ∀ {role known}, caches.knownRoles.find role = some known → known = policy.knowsRole role)
    (values : List Text) :
    (policy.callKnownRoles caches values).2 = ((values.filter policy.knowsRole).map Text.fold).toFinset := by
  have given : ∀ hits missing : List Text,
      hits = values.filter (fun value => caches.knownRoles.find value == some true) →
      missing = values.filter (fun value => (caches.knownRoles.find value).isNone) →
      ∀ value, value ∈ hits ++ missing.filter policy.knowsRole ↔ value ∈ values.filter policy.knowsRole := by
    rintro hits missing rfl rfl value
    simp only [List.mem_append, List.mem_filter, beq_iff_eq, Option.isNone_iff_eq_none]
    constructor
    · rintro (⟨asked, found⟩ | ⟨⟨asked, _⟩, knows⟩)
      · exact ⟨asked, (sound found).symm⟩
      · exact ⟨asked, knows⟩
    · rintro ⟨asked, knows⟩
      cases found : caches.knownRoles.find value with
      | none => exact .inr ⟨⟨asked, rfl⟩, knows⟩
      | some known =>
        rw [sound found, knows]
        exact .inl ⟨asked, rfl⟩
  have folded : ∀ {one other : List Text}, (∀ value, value ∈ one ↔ value ∈ other) →
      (one.map Text.fold).toFinset = (other.map Text.fold).toFinset := by
    intro one other same
    ext name
    simp only [List.mem_toFinset, List.mem_map, same]
  unfold callKnownRoles
  dsimp only
  split_ifs with none
  · refine folded fun value => ?_
    rw [← given _ _ rfl rfl value, none]
    simp
  · exact folded (given _ _ rfl rfl)

private theorem callKnownRoles_sound
    (sound : ∀ {role known}, caches.knownRoles.find role = some known → known = policy.knowsRole role)
    (values : List Text) {role : Text} {known : Bool}
    (found : (policy.callKnownRoles caches values).1.knownRoles.find role = some known) :
    known = policy.knowsRole role := by
  unfold callKnownRoles at found
  dsimp only at found
  split_ifs at found
  · exact sound found
  · exact find_storeAll (fun found => sound (Memo.find_clearIfOversized found)) found

/-- `claims_cache[role];` for each of the roles. -/
private theorem touched_apply (missing : List Text) (cached : Text → Option Claims) (key : Text) :
    missing.foldl (fun claims role =>
      Function.update claims (Text.fold role) (some ((claims (Text.fold role)).getD []))) cached key =
      if key ∈ missing.map Text.fold then some ((cached key).getD []) else cached key := by
  induction missing generalizing cached with
  | nil => rfl
  | cons role missing ih =>
    rw [List.foldl_cons, ih, List.map_cons]
    by_cases same : key = Text.fold role
    · subst same
      simp
    · rw [Function.update_of_ne same]
      simp [same]

/-- The rows of a role go to its entry, in their order. -/
private theorem assigned_apply (rows : List (Text × Text × Text)) (cached : Text → Option Claims) (key : Text) :
    rows.foldl (fun claims row => Function.update claims (Text.fold row.1)
      (some (((claims (Text.fold row.1)).getD []).assign row.2.1 row.2.2))) cached key =
      if rows.filter (fun row => decide (Text.fold row.1 = key)) = [] then cached key
      else some ((rows.filter fun row => decide (Text.fold row.1 = key)).foldl
        (fun claims row => claims.assign row.2.1 row.2.2) ((cached key).getD [])) := by
  induction rows generalizing cached with
  | nil => rfl
  | cons row rows ih =>
    rw [List.foldl_cons, ih]
    by_cases same : Text.fold row.1 = key
    · subst same
      rw [List.filter_cons_of_pos (by simp)]
      simp only [Function.update_self, Option.getD_some, List.foldl_cons, List.cons_ne_nil, if_false]
      split_ifs with none
      · rw [none, List.foldl_nil]
      · rfl
    · rw [List.filter_cons_of_neg (by simpa using same), Function.update_of_ne (fun other => same other.symm)]

/-- Among roles with one spelling, the rows under the folded name of a role are its rows. -/
private theorem claimRows_filter {missing : List Text} {role : Text} (listed : role ∈ missing)
    (spelled : ∀ other ∈ missing, Text.fold other = Text.fold role → other = role) :
    (policy.claimRows missing).filter (fun row => decide (Text.fold row.1 = Text.fold role)) =
      policy.claimRows [role] := by
  unfold claimRows
  rw [List.filter_map, List.filter_filter]
  congr 1
  apply List.filter_congr
  intro row _
  simp only [Function.comp_def, roleIn]
  cases row .role with
  | text name =>
    rw [Bool.eq_iff_iff]
    simp only [cellText, Bool.and_eq_true, decide_eq_true_eq, List.mem_singleton]
    constructor
    · rintro ⟨folded, held⟩
      exact spelled name held (of_decide_eq_true folded)
    · rintro rfl
      exact ⟨decide_eq_true rfl, listed⟩
  | null => simp
  | integer value => simp
  | boolean value => simp

/-- A role that was not loaded gets its claims. -/
private theorem loadMissing_claims {missing : List Text} {role : Text} (listed : role ∈ missing)
    (spelled : ∀ other ∈ missing, Text.fold other = Text.fold role → other = role)
    (unloaded : caches.claims (Text.fold role) = none) :
    (policy.loadMissing caches missing).claims (Text.fold role) = some (policy.claimsOf role) := by
  simp only [loadMissing]
  rw [assigned_apply, touched_apply, claimRows_filter listed spelled,
    if_pos (List.mem_map.mpr ⟨role, listed, rfl⟩), unloaded]
  unfold claimsOf
  split_ifs with none
  · rw [none]
    rfl
  · rfl

/-- The entries of other roles stay. -/
private theorem loadMissing_other {missing : List Text} {key : Text} (other : key ∉ missing.map Text.fold) :
    (policy.loadMissing caches missing).claims key = caches.claims key := by
  simp only [loadMissing]
  rw [assigned_apply, touched_apply, if_neg other, if_pos]
  rw [List.filter_eq_nil_iff]
  intro row held
  simp only [claimRows, List.mem_map, List.mem_filter] at held
  obtain ⟨stored, ⟨_, listed⟩, rfl⟩ := held
  unfold roleIn at listed
  split at listed
  · rename_i name cell
    simp only [decide_eq_true_eq] at listed ⊢
    rw [cell]
    rintro rfl
    exact other (List.mem_map.mpr ⟨name, listed, rfl⟩)
  · cases listed

/-! ## One call -/

/-- Every entry of the caches is what the policy says to the calls of the run. -/
structure Sound (policy : FixedPolicy) (calls : List PolicyCall) (caches : ResultCaches) : Prop where
  objects : Memo.Sound
    (fun asked : NodeSettings × List Text × Text × Capability =>
      objectsKey asked.1 asked.2.1 asked.2.2.1 asked.2.2.2)
    (fun asked => policy.engine.lookupTable asked.1 asked.2.1 asked.2.2.1 asked.2.2.2)
    (fun asked => PolicyCall.resolveTable asked.1 asked.2.1 asked.2.2.1 asked.2.2.2 ∈ calls) caches.objects
  functions : Memo.Sound (fun asked : List Text × Text × Bool => functionsKey asked.1 asked.2.1 asked.2.2)
    (fun asked => policy.engine.lookupFunction asked.1 asked.2.1 asked.2.2) (fun _ => True) caches.functions
  rights : Memo.Sound roleSig policy.rightsOf (fun _ => True) caches.rights
  knownRoles : ∀ {role known}, caches.knownRoles.find role = some known → known = policy.knowsRole role
  loaded : ∀ {one role}, one ∈ calls → role ∈ one.claimRoles → Text.fold role ∈ caches.claimsLoaded →
    caches.claims (Text.fold role) = some (policy.claimsOf role)
  unloaded : ∀ {one role}, one ∈ calls → role ∈ one.claimRoles → Text.fold role ∉ caches.claimsLoaded →
    caches.claims (Text.fold role) = none

theorem sound_empty : Sound policy calls {} where
  objects := Memo.sound_nil
  functions := Memo.sound_nil
  rights := Memo.sound_nil
  knownRoles found := by cases found
  loaded _ _ held := by cases held
  unloaded _ _ _ := rfl

/-- The rights of a role set do not depend on the order of its roles. -/
private theorem rightsOf_perm {roles roles' : List Text} (perm : roles.Perm roles') :
    policy.rightsOf roles = policy.rightsOf roles' := by
  have same : roleIn roles = roleIn roles' := by
    funext row
    unfold roleIn
    split
    · simp only [perm.mem_iff]
    · rfl
  simp only [rightsOf, manageCatalogs, adminScopes, platformGrants, same]

/-- After the missing claims are read, every role of a call is loaded as the policy says. -/
private theorem callLoadRoleClaims_loaded (sound : Sound policy calls caches) (spelled : OneSpelling policy calls)
    {roles : List Text} {claims : Claims} (asked : PolicyCall.loadRoleClaims roles claims ∈ calls) :
    Sound policy calls (policy.callLoadRoleClaims caches roles claims).1 ∧
      ∀ role ∈ roles, (policy.callLoadRoleClaims caches roles claims).1.claims (Text.fold role) =
        some (policy.claimsOf role) := by
  unfold callLoadRoleClaims
  dsimp only
  split_ifs with none
  · refine ⟨sound, ?_⟩
    intro role held
    refine sound.loaded asked held ?_
    have absent := List.filter_eq_nil_iff.mp none role held
    simpa using absent
  · have missing : ∀ {role}, role ∈ roles.filter (fun role => decide (Text.fold role ∉ caches.claimsLoaded)) ↔
        role ∈ roles ∧ Text.fold role ∉ caches.claimsLoaded := by
      simp
    have only : ∀ {one role}, one ∈ calls → role ∈ one.claimRoles →
        ∀ other ∈ roles.filter (fun role => decide (Text.fold role ∉ caches.claimsLoaded)),
          Text.fold other = Text.fold role → other = role := by
      intro one role held listed other listed' folded
      exact spelled.roles _ asked one held other (missing.mp listed').1 role listed folded
    have after : ∀ {one role}, one ∈ calls → role ∈ one.claimRoles →
        Text.fold role ∈ caches.claimsLoaded ∨ role ∈ roles →
        (policy.loadMissing caches
          (roles.filter fun role => decide (Text.fold role ∉ caches.claimsLoaded))).claims (Text.fold role) =
            some (policy.claimsOf role) := by
      intro one role held listed known
      by_cases fresh : Text.fold role ∈ caches.claimsLoaded
      · rw [loadMissing_other]
        · exact sound.loaded held listed fresh
        · intro among
          obtain ⟨other, listed', folded⟩ := List.mem_map.mp among
          rw [← folded] at fresh
          exact (missing.mp listed').2 fresh
      · have absent : role ∈ roles.filter (fun role => decide (Text.fold role ∉ caches.claimsLoaded)) :=
          missing.mpr ⟨known.resolve_left fresh, fresh⟩
        exact loadMissing_claims absent (only held listed) (sound.unloaded held listed fresh)
    refine ⟨{ sound with loaded := ?_, unloaded := ?_ }, ?_⟩
    · intro one role held listed known
      refine after held listed ?_
      rcases List.mem_append.mp known with before | now
      · exact .inl before
      · obtain ⟨other, listed', folded⟩ := List.mem_map.mp now
        rw [← only held listed other listed' folded]
        exact .inr (missing.mp listed').1
    · intro one role held listed unknown
      have apart : Text.fold role ∉ (roles.filter fun role =>
          decide (Text.fold role ∉ caches.claimsLoaded)).map Text.fold := fun now => unknown (List.mem_append_right _ now)
      rw [loadMissing_other apart]
      exact sound.unloaded held listed fun before => unknown (List.mem_append_left _ before)
    · intro role held
      exact after asked held (.inr held)

/-- One call is answered as the policy says, and leaves the caches sound. -/
theorem call_sound (sound : Sound policy calls caches) (spelled : OneSpelling policy calls) {next : PolicyCall}
    (asked : next ∈ calls) :
    Sound policy calls (policy.call caches next).1 ∧ (policy.call caches next).2 = policy.answer next := by
  cases next with
  | resolveTable settings roles vname capability =>
    simp only [call, answer]
    split_ifs with empty
    · exact ⟨sound, rfl⟩
    · refine ⟨{ sound with objects := ?_ }, ?_⟩
      · refine sound.objects.ask ?_ _ (settings, roles, vname, capability) asked
        intro one other value held held' same computed
        obtain ⟨perm, folded, settings, capability⟩ := objectsKey_inj same
        have alike := spelled.names _ _ _ _ _ _ held
          (by rw [settings, capability]; exact held') perm folded
        have lookup := PolicyEngine.lookupTable_same one.1 one.2.2.2 perm folded alike
        rw [settings, capability] at lookup
        rw [settings, capability] at computed
        exact (lookup value).mp computed
      · exact congrArg PolicyAnswer.table (sound.objects.ask_eq _ (settings, roles, vname, capability) asked)
  | resolveFunction roles vname tableKind =>
    simp only [call, answer]
    split_ifs with empty
    · exact ⟨sound, rfl⟩
    · refine ⟨{ sound with functions := ?_ }, ?_⟩
      · refine sound.functions.ask ?_ _ (roles, vname, tableKind) trivial
        intro one other value _ _ same computed
        obtain ⟨perm, folded, kind⟩ := functionsKey_inj same
        rw [kind] at computed
        exact (PolicyEngine.lookupFunction_same _ perm folded value).mp computed
      · exact congrArg PolicyAnswer.function (sound.functions.ask_eq _ (roles, vname, tableKind) trivial)
  | loadRights roles =>
    simp only [call, answer]
    split_ifs with empty
    · exact ⟨sound, rfl⟩
    · refine ⟨{ sound with rights := ?_ }, ?_⟩
      · refine sound.rights.ask ?_ _ roles trivial
        intro one other value _ _ same computed
        rw [← rightsOf_perm (perm_of_roleSig same)]
        exact computed
      · exact congrArg PolicyAnswer.rights (sound.rights.ask_eq _ roles trivial)
  | knownRoles values =>
    have kept : ∃ memo, (policy.callKnownRoles caches values).1 = { caches with knownRoles := memo } := by
      unfold callKnownRoles
      dsimp only
      split_ifs
      · exact ⟨_, rfl⟩
      · exact ⟨_, rfl⟩
    obtain ⟨memo, same⟩ := kept
    refine ⟨?_, congrArg PolicyAnswer.known (callKnownRoles_eq sound.knownRoles values)⟩
    have known : ∀ {role known}, memo.find role = some known → known = policy.knowsRole role := by
      intro role known found
      refine callKnownRoles_sound sound.knownRoles values ?_
      rw [same]
      exact found
    show Sound policy calls (policy.callKnownRoles caches values).1
    rw [same]
    exact { sound with knownRoles := known }
  | loadRoleClaims roles claims =>
    obtain ⟨kept, loaded⟩ := callLoadRoleClaims_loaded sound spelled asked
    refine ⟨kept, congrArg PolicyAnswer.claims ?_⟩
    refine List.foldl_ext _ _ _ ?_
    intro given role held
    show addDefaults (policy.callLoadRoleClaims caches roles claims).1.claims given role = _
    simp only [addDefaults, loaded role held]

/-- The answers of a run through sound caches are what the policy says. -/
private theorem answers_eq (spelled : OneSpelling policy calls) {rest : List PolicyCall} (among : rest ⊆ calls)
    (sound : Sound policy calls caches) : policy.answers caches rest = rest.map policy.answer := by
  induction rest generalizing caches with
  | nil => rfl
  | cons next rest ih =>
    obtain ⟨kept, answered⟩ := call_sound sound spelled (among (.head _))
    rw [answers, answered, ih (fun one held => among (.tail _ held)) kept, List.map_cons]

/-! ## Whose claims a principal receives -/

private theorem mem_assign {name value : Text} {claims : Claims} {claim : Text × Text}
    (held : claim ∈ claims.assign name value) :
    claim ∈ claims ∨ (Text.ciEquals claim.1 name = true ∧ claim.2 = value) := by
  induction claims with
  | nil =>
    obtain rfl := List.mem_singleton.mp held
    exact .inr ⟨Text.ciEquals_refl _, rfl⟩
  | cons first claims ih =>
    simp only [Claims.assign] at held
    split_ifs at held with same
    · rcases List.mem_cons.mp held with rfl | held
      · exact .inr ⟨same, rfl⟩
      · exact .inl (.tail _ held)
    · rcases List.mem_cons.mp held with rfl | held
      · exact .inl (.head _)
      · exact (ih held).imp (.tail _) id

/-- The default claims of a role are those of its rows. -/
private theorem mem_claimsOf {role : Text} {claim : Text × Text} (held : claim ∈ policy.claimsOf role) :
    ∃ row ∈ policy.tables.rows .roleClaims, row .role = .text role ∧
      Text.ciEquals claim.1 (cellText (row .claim)) = true ∧ claim.2 = cellText (row .value) := by
  have assigned : ∀ (rows : List (Text × Text × Text)) (claims : Claims),
      claim ∈ rows.foldl (fun claims row => claims.assign row.2.1 row.2.2) claims →
      claim ∈ claims ∨ ∃ row ∈ rows, Text.ciEquals claim.1 row.2.1 = true ∧ claim.2 = row.2.2 := by
    intro rows
    induction rows with
    | nil => exact fun claims held => .inl held
    | cons row rows ih =>
      intro claims held
      rcases ih _ held with held | ⟨row', listed, same⟩
      · exact (mem_assign held).imp id fun same => ⟨row, .head _, same⟩
      · exact .inr ⟨row', .tail _ listed, same⟩
  rcases assigned _ [] held with none | ⟨read, listed, same⟩
  · cases none
  · simp only [claimRows, List.mem_map, List.mem_filter] at listed
    obtain ⟨row, ⟨stored, named⟩, rfl⟩ := listed
    refine ⟨row, stored, ?_, same⟩
    unfold roleIn at named
    split at named
    · rename_i name cell
      rw [cell, List.mem_singleton.mp (of_decide_eq_true named)]
    · cases named

/-- A claim a principal is given is its own, or a default of one of its roles. -/
private theorem mem_defaults {roles : List Text} {claims : Claims} {claim : Text × Text}
    (held : claim ∈ roles.foldl
      (fun claims role => addDefaults (fun _ => some (policy.claimsOf role)) claims role) claims) :
    claim ∈ claims ∨ ∃ role ∈ roles, claim ∈ policy.claimsOf role := by
  have added : ∀ (defaults claims : Claims), claim ∈ defaults.foldl (fun claims claim =>
      if ciContains (claims.map Prod.fst) claim.1 then claims else claims ++ [claim]) claims →
      claim ∈ claims ∨ claim ∈ defaults := by
    intro defaults
    induction defaults with
    | nil => exact fun claims held => .inl held
    | cons first defaults ih =>
      intro claims held
      rcases ih _ held with held | held
      · dsimp only at held
        split_ifs at held
        · exact .inl held
        · rcases List.mem_append.mp held with held | held
          · exact .inl held
          · exact .inr (by rw [List.mem_singleton.mp held]; exact .head _)
      · exact .inr (.tail _ held)
  induction roles generalizing claims with
  | nil => exact .inl held
  | cons role roles ih =>
    rcases ih held with held | ⟨role', listed, held⟩
    · exact (added _ _ held).imp id fun held => ⟨role, .head _, held⟩
    · exact .inr ⟨role', .tail _ listed, held⟩

private theorem mem_zip_map {α β : Type} {f : α → β} {items : List α} {a : α} {b : β} (held : (a, b) ∈ items.zip (items.map f)) :
    b = f a := by
  induction items with
  | nil => cases held
  | cons first items ih =>
    rcases List.mem_cons.mp held with same | held
    · obtain ⟨rfl, rfl⟩ := Prod.mk.inj same
      rfl
    · exact ih held

/-- In a run with one spelling of each role and of each name below a live schema alias, every call is
answered as on empty caches; entries are shared between equal role sets only, and a principal is given
no default claim but those of its roles. -/
theorem caches_transparent (policy : FixedPolicy) (calls : List PolicyCall) (spelled : OneSpelling policy calls) :
    policy.answers {} calls = calls.map (fun next => (policy.call {} next).2) ∧
      (∀ settings settings' roles roles' vname vname' capability capability',
        objectsKey settings roles vname capability = objectsKey settings' roles' vname' capability' →
          roles.Perm roles') ∧
      (∀ roles roles' vname vname' kind kind',
        functionsKey roles vname kind = functionsKey roles' vname' kind' → roles.Perm roles') ∧
      (∀ roles roles', roleSig roles = roleSig roles' → roles.Perm roles') ∧
      ∀ roles claims given, (PolicyCall.loadRoleClaims roles claims, PolicyAnswer.claims given) ∈
        calls.zip (policy.answers {} calls) → ∀ claim ∈ given, claim ∈ claims ∨
          ∃ row ∈ policy.tables.rows .roleClaims, (∃ role ∈ roles, row .role = .text role) ∧
            Text.ciEquals claim.1 (cellText (row .claim)) = true ∧ claim.2 = cellText (row .value) := by
  have said : policy.answers {} calls = calls.map policy.answer := answers_eq spelled (fun _ held => held) sound_empty
  refine ⟨?_, ?_, ?_, ?_, ?_⟩
  · rw [said]
    apply List.map_congr_left
    intro next held
    exact (call_sound sound_empty spelled held).2.symm
  · intro _ _ _ _ _ _ _ _ same
    exact (objectsKey_inj same).1
  · intro _ _ _ _ _ _ same
    exact (functionsKey_inj same).1
  · intro _ _ same
    exact perm_of_roleSig same
  · intro roles claims given answered claim held
    rw [said] at answered
    have same := mem_zip_map answered
    simp only [answer, PolicyAnswer.claims.injEq] at same
    rw [same] at held
    refine (mem_defaults held).imp id ?_
    rintro ⟨role, listed, held⟩
    obtain ⟨row, stored, named, claimed⟩ := mem_claimsOf held
    exact ⟨row, stored, ⟨role, listed, named⟩, claimed⟩

/-- The engine over a policy without relations, schemas and functions. -/
def noObjects : PolicyEngine where
  relations _ _ _ _ := []
  aliases _ _ _ _ := []
  functions _ _ _ _ _ := []
  storedExpressionsOk _ := true
  parseCaps _ := .ok []

/-- A policy with one role, which has a default claim. -/
def oneTenant : FixedPolicy where
  tables := .of
    [(.roles, [(.role, .text "Admin".toList)]),
     (.roleClaims, [(.role, .text "Admin".toList), (.claim, .text "tenant".toList), (.value, .text "7".toList)])]
  engine := noObjects

/-- Two principals, one of them twice. -/
def tenantCalls : List PolicyCall :=
  [.loadRoleClaims ["Admin".toList] [], .loadRoleClaims ["clerk".toList] [], .knownRoles ["Admin".toList, "admin".toList],
   .resolveTable ⟨false, false⟩ ["Admin".toList] "sales.orders".toList .select,
   .loadRoleClaims ["Admin".toList] [("tenant".toList, "8".toList)]]

theorem caches_transparent_tenants :
    oneTenant.answers {} tenantCalls = tenantCalls.map fun next => (oneTenant.call {} next).2 := by
  have spelled : OneSpelling oneTenant tenantCalls :=
    { roles := by decide
      names := fun _ _ _ _ _ _ _ _ _ _ => .inr fun _ held => by cases held }
  exact (caches_transparent oneTenant tenantCalls spelled).1

/-- The claims in an answer. -/
def claimsGiven : PolicyAnswer → Option Claims
  | .claims claims => some claims
  | _ => none

/-- After `Admin`, the role `admin` is given the claims of `Admin`. -/
theorem claims_shared_across_case :
    ¬ ∀ (policy : FixedPolicy) (calls : List PolicyCall),
      policy.answers {} calls = calls.map fun next => (policy.call {} next).2 := by
  intro always
  have same := congrArg (List.map claimsGiven)
    (always oneTenant [.loadRoleClaims ["Admin".toList] [], .loadRoleClaims ["admin".toList] []])
  exact absurd same (by decide)

end FixedPolicy

end DuckAcl
