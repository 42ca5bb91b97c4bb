import Mathlib.Data.List.Pairwise
import DuckAcl.Model.Identity

/-! # The roles a token has

`RolesFor` offers roles one after another, from the mappings of the values a token carries, from the rule
for unmapped values and from the client's constants. A role is kept in the first spelling offered, so the
roles are those the mapping entitles to, in every order of its rows, exactly when no two of these differ in
case only.
-/

namespace DuckAcl

variable (knownRole isPrivileged : Text → Bool) (model : IdentityModel) (client : IdentityClient) (claims : TokenClaims)

/-! ## The offers -/

/-- What one value of the token offers. -/
def valueOffers (raw : Text) : List (Text × Bool) :=
  ((model.mappings.filter (·.tells client raw)).map fun mapping => (mapping.role, mapping.own client)) ++
    if !model.mappings.any (·.tells client raw) && client.unmappedAsRole && knownRole raw then [(raw, false)] else []

/-- Everything offered, in its order. -/
def roleOffers : List (Text × Bool) :=
  (client.rolesFrom.flatMap claims.strings).flatMap (valueOffers knownRole model client) ++
    client.rolesConstant.map fun role => (role, false)

variable {knownRole isPrivileged model client claims}

private theorem foldl_if_filter {α β : Type} (keep : α → Bool) (step : β → α → β) (items : List α) (start : β) :
    items.foldl (fun out item => if keep item then step out item else out) start = (items.filter keep).foldl step start := by
  induction items generalizing start with
  | nil => rfl
  | cons item items ih =>
    rw [List.foldl_cons, ih]
    by_cases kept : keep item = true
    · rw [if_pos kept, List.filter_cons_of_pos kept, List.foldl_cons]
    · rw [if_neg kept, List.filter_cons_of_neg kept]

private theorem addCandidate_offers (out : ClientRoles) (raw : Text) :
    addCandidate knownRole isPrivileged model client out raw =
      (valueOffers knownRole model client raw).foldl (ClientRoles.add isPrivileged) out := by
  simp only [addCandidate, valueOffers, foldl_if_filter (fun mapping : IdentityMapping => mapping.tells client raw)
    (fun out mapping => ClientRoles.add isPrivileged out (mapping.role, mapping.own client)), List.foldl_append, List.foldl_map]
  split <;> rfl

theorem rolesFor_offers : rolesFor model client claims knownRole isPrivileged =
    (roleOffers knownRole model client claims).foldl (ClientRoles.add isPrivileged) {} := by
  have candidates (values : List Text) (out : ClientRoles) :
      values.foldl (addCandidate knownRole isPrivileged model client) out =
        (values.flatMap (valueOffers knownRole model client)).foldl (ClientRoles.add isPrivileged) out := by
    induction values generalizing out with
    | nil => rfl
    | cons value values ih => rw [List.foldl_cons, List.flatMap_cons, List.foldl_append, ← addCandidate_offers, ih]
  rw [rolesFor, roleOffers, List.foldl_append, candidates, List.foldl_map]

/-! ## What is kept of them -/

/-- An offer that is no privileged role's, or the client's own mapping's. -/
def Accepted (isPrivileged : Text → Bool) (offer : Text × Bool) : Prop := offer.2 = true ∨ isPrivileged offer.1 = false

/-- One offer: its role is there afterwards, in some case, if it is accepted; and no other comes. -/
private theorem add_spec (out : ClientRoles) (offer : Text × Bool) :
    (∀ role ∈ (out.add isPrivileged offer).roles, role ∈ out.roles ∨ role = offer.1 ∧ Accepted isPrivileged offer) ∧
      (∀ role ∈ out.roles, role ∈ (out.add isPrivileged offer).roles) ∧
      (Accepted isPrivileged offer → ∃ role ∈ (out.add isPrivileged offer).roles, Text.ciEquals role offer.1 = true) ∧
      (out.roles.Pairwise (fun role other => Text.ciEquals role other = false) →
        (out.add isPrivileged offer).roles.Pairwise fun role other => Text.ciEquals role other = false) := by
  rw [ClientRoles.add]
  by_cases told : out.roles.any (Text.ciEquals · offer.1) = true
  · rw [if_pos told]
    exact ⟨fun role member => .inl member, fun role member => member, fun _ => List.any_eq_true.mp told, id⟩
  · rw [if_neg told]
    by_cases dropped : (!offer.2 && isPrivileged offer.1) = true
    · rw [if_pos dropped]
      rw [Bool.and_eq_true, Bool.not_eq_true'] at dropped
      refine ⟨fun role member => .inl member, fun role member => member, fun accepted => ?_, id⟩
      rcases accepted with own | plain
      · rw [own] at dropped
        cases dropped.1
      · rw [plain] at dropped
        cases dropped.2
    · rw [if_neg dropped]
      have accepted : Accepted isPrivileged offer := by
        unfold Accepted
        cases own : offer.2 with
        | true => exact .inl rfl
        | false => exact .inr (by simpa [own] using dropped)
      refine ⟨fun role member => ?_, fun role member => List.mem_append_left _ member,
        fun _ => ⟨offer.1, by simp, Text.ciEquals_refl _⟩, fun apart => ?_⟩
      · rcases List.mem_append.mp member with before | last
        · exact .inl before
        · exact .inr ⟨List.mem_singleton.mp last, accepted⟩
      · rw [List.pairwise_append]
        refine ⟨apart, List.pairwise_singleton _ _, fun role member other last => ?_⟩
        rw [List.mem_singleton.mp last]
        exact Bool.eq_false_iff.mpr fun same => told (List.any_eq_true.mpr ⟨role, member, same⟩)

/-- The roles kept of a run of offers: accepted ones only, one for each accepted one up to case, and no two
alike. -/
private theorem kept_spec (offers : List (Text × Bool)) (out : ClientRoles)
    (apart : out.roles.Pairwise fun role other => Text.ciEquals role other = false) :
    let last := offers.foldl (ClientRoles.add isPrivileged) out
    (∀ role ∈ last.roles, role ∈ out.roles ∨ ∃ offer ∈ offers, role = offer.1 ∧ Accepted isPrivileged offer) ∧
      (∀ role ∈ out.roles, role ∈ last.roles) ∧
      (∀ offer ∈ offers, Accepted isPrivileged offer → ∃ role ∈ last.roles, Text.ciEquals role offer.1 = true) ∧
      last.roles.Pairwise fun role other => Text.ciEquals role other = false := by
  induction offers generalizing out with
  | nil => exact ⟨fun role member => .inl member, fun role member => member, fun offer absent => (by cases absent), apart⟩
  | cons offer offers ih =>
    obtain ⟨from_offer, kept, taken, still⟩ := @add_spec isPrivileged out offer
    obtain ⟨source, later, given, final⟩ := ih (out.add isPrivileged offer) (still apart)
    refine ⟨fun role member => ?_, fun role member => later role (kept role member), fun other member accepted => ?_, final⟩
    · rcases source role member with here | ⟨other, inside, told⟩
      · rcases from_offer role here with before | told
        · exact .inl before
        · exact .inr ⟨offer, List.mem_cons_self, told⟩
      · exact .inr ⟨other, List.mem_cons_of_mem _ inside, told⟩
    · rcases List.mem_cons.mp member with rfl | inside
      · obtain ⟨role, there, same⟩ := taken accepted
        exact ⟨role, later role there, same⟩
      · exact given other inside accepted

/-! ## What the mapping entitles to -/

/-- A value the token carries at a path the client reads roles from. -/
def Carries (client : IdentityClient) (claims : TokenClaims) (value : Text) : Prop :=
  ∃ path ∈ client.rolesFrom, value ∈ claims.strings path

/-- The role is mapped from a carried value at the client's own scope. -/
def OwnRole (model : IdentityModel) (client : IdentityClient) (claims : TokenClaims) (role : Text) : Prop :=
  ∃ mapping ∈ model.mappings, mapping.own client = true ∧ Carries client claims mapping.externalValue ∧ mapping.role = role

/-- The role is mapped from a carried value at the scope of the client's issuer. -/
def IssuerRole (model : IdentityModel) (client : IdentityClient) (claims : TokenClaims) (role : Text) : Prop :=
  ∃ mapping ∈ model.mappings, mapping.issuerWide client = true ∧ Carries client claims mapping.externalValue ∧
    mapping.role = role

/-- The client takes an unmapped value for a role, and the role is one. -/
def UnmappedRole (knownRole : Text → Bool) (model : IdentityModel) (client : IdentityClient) (claims : TokenClaims)
    (role : Text) : Prop :=
  client.unmappedAsRole = true ∧ Carries client claims role ∧ knownRole role = true ∧
    ∀ mapping ∈ model.mappings, mapping.tells client role = false

/-- The roles of the claims a token carries. -/
def Entitled (knownRole isPrivileged : Text → Bool) (model : IdentityModel) (client : IdentityClient) (claims : TokenClaims)
    (role : Text) : Prop :=
  OwnRole model client claims role ∨ isPrivileged role = false ∧
    (IssuerRole model client claims role ∨ role ∈ client.rolesConstant ∨ UnmappedRole knownRole model client claims role)

private theorem mem_valueOffers {offer : Text × Bool} {raw : Text} :
    offer ∈ valueOffers knownRole model client raw ↔
      (∃ mapping ∈ model.mappings, mapping.tells client raw = true ∧ (mapping.role, mapping.own client) = offer) ∨
        (offer = (raw, false) ∧ client.unmappedAsRole = true ∧ knownRole raw = true ∧
          ∀ mapping ∈ model.mappings, mapping.tells client raw = false) := by
  rw [valueOffers, List.mem_append, List.mem_map]
  refine or_congr ?_ ?_
  · simp only [List.mem_filter, and_assoc]
  · by_cases unmapped : (!model.mappings.any (·.tells client raw) && client.unmappedAsRole && knownRole raw) = true
    · rw [if_pos unmapped, List.mem_singleton]
      simp only [Bool.and_eq_true, Bool.not_eq_true', List.any_eq_false, Bool.not_eq_true] at unmapped
      exact ⟨fun same => ⟨same, unmapped.1.2, unmapped.2, unmapped.1.1⟩, fun all => all.1⟩
    · rw [if_neg unmapped]
      refine ⟨fun none => (by cases none), ?_⟩
      rintro ⟨_, rule, known, untold⟩
      refine absurd ?_ unmapped
      simp only [Bool.and_eq_true, Bool.not_eq_true', List.any_eq_false, Bool.not_eq_true]
      exact ⟨⟨untold, rule⟩, known⟩

/-- A mapping is not at both scopes. -/
private theorem issuerWide_of_other {mapping : IdentityMapping} (other : mapping.own client = false) {raw : Text}
    (tells : mapping.tells client raw = true) : mapping.issuerWide client = true ∧ mapping.externalValue = raw := by
  simpa [IdentityMapping.tells, other] using tells

private theorem carries_iff {value : Text} :
    value ∈ client.rolesFrom.flatMap claims.strings ↔ Carries client claims value := by
  simp [Carries]

/-- The accepted offers are what the mapping entitles to. -/
theorem offered_iff_entitled (role : Text) :
    (∃ offer ∈ roleOffers knownRole model client claims, role = offer.1 ∧ Accepted isPrivileged offer) ↔
      Entitled knownRole isPrivileged model client claims role := by
  constructor
  · rintro ⟨offer, member, rfl, accepted⟩
    rw [roleOffers, List.mem_append] at member
    rcases member with mapped | constant
    · obtain ⟨raw, carried, offered⟩ := List.mem_flatMap.mp mapped
      rw [carries_iff] at carried
      rcases mem_valueOffers.mp offered with ⟨mapping, inside, tells, rfl⟩ | ⟨rfl, rule, known, untold⟩
      · cases own : mapping.own client with
        | true =>
          have told : mapping.externalValue = raw := by simpa [IdentityMapping.tells, own] using tells
          exact .inl ⟨mapping, inside, own, told ▸ carried, rfl⟩
        | false =>
          obtain ⟨wide, rfl⟩ := issuerWide_of_other own tells
          exact .inr ⟨accepted.resolve_left (by simp [own]), .inl ⟨mapping, inside, wide, carried, rfl⟩⟩
      · exact .inr ⟨accepted.resolve_left (by simp), .inr (.inr ⟨rule, carried, known, untold⟩)⟩
    · obtain ⟨role, inside, rfl⟩ := List.mem_map.mp constant
      exact .inr ⟨accepted.resolve_left (by simp), .inr (.inl inside)⟩
  · have value {raw : Text} {offer : Text × Bool} (carried : Carries client claims raw)
        (offered : offer ∈ valueOffers knownRole model client raw) : offer ∈ roleOffers knownRole model client claims :=
      List.mem_append_left _ (List.mem_flatMap.mpr ⟨raw, carries_iff.mpr carried, offered⟩)
    rintro (⟨mapping, inside, own, carried, rfl⟩ | ⟨plain, ⟨mapping, inside, wide, carried, rfl⟩ | constant | unmapped⟩)
    · have tells : mapping.tells client mapping.externalValue = true := by simp [IdentityMapping.tells, own]
      exact ⟨_, value carried (mem_valueOffers.mpr (.inl ⟨mapping, inside, tells, rfl⟩)), rfl, .inl own⟩
    · have tells : mapping.tells client mapping.externalValue = true := by simp [IdentityMapping.tells, wide]
      exact ⟨_, value carried (mem_valueOffers.mpr (.inl ⟨mapping, inside, tells, rfl⟩)), rfl, .inr plain⟩
    · exact ⟨(role, false), List.mem_append_right _ (List.mem_map.mpr ⟨role, constant, rfl⟩), rfl, .inr plain⟩
    · obtain ⟨rule, carried, known, untold⟩ := unmapped
      exact ⟨_, value carried (mem_valueOffers.mpr (.inr ⟨rfl, rule, known, untold⟩)), rfl, .inr plain⟩

theorem Entitled.own_of_privileged {role : Text} (entitled : Entitled knownRole isPrivileged model client claims role)
    (held : isPrivileged role = true) : OwnRole model client claims role := by
  rcases entitled with own | ⟨plain, _⟩
  · exact own
  · rw [held] at plain
    cases plain

/-- What the mapping entitles to does not depend on the order of its rows. -/
theorem entitled_perm {mappings : List IdentityMapping} (order : mappings.Perm model.mappings) (role : Text) :
    Entitled knownRole isPrivileged { model with mappings } client claims role ↔
      Entitled knownRole isPrivileged model client claims role := by
  simp only [Entitled, OwnRole, IssuerRole, UnmappedRole, order.mem_iff]

/-- The roles kept are entitled to, one for each up to case. -/
theorem rolesFor_spec :
    (∀ role ∈ (rolesFor model client claims knownRole isPrivileged).roles,
        Entitled knownRole isPrivileged model client claims role) ∧
      (∀ role, Entitled knownRole isPrivileged model client claims role →
        ∃ kept ∈ (rolesFor model client claims knownRole isPrivileged).roles, Text.ciEquals kept role = true) ∧
      (rolesFor model client claims knownRole isPrivileged).roles.Pairwise
        fun role other => Text.ciEquals role other = false := by
  rw [rolesFor_offers]
  obtain ⟨source, _, given, apart⟩ := @kept_spec isPrivileged (roleOffers knownRole model client claims) {}
    List.Pairwise.nil
  refine ⟨fun role member => ?_, fun role entitled => ?_, apart⟩
  · rcases source role member with none | offered
    · cases none
    · exact offered_iff_entitled role |>.mp offered
  · obtain ⟨offer, member, rfl, accepted⟩ := (offered_iff_entitled role).mpr entitled
    exact given offer member accepted

/-- Roles that differ in case only are one role to `RolesFor`, which keeps the spelling that came first: it
answers what the mapping entitles to, whatever the order of its rows, exactly when there are no such roles. -/
theorem roles_of_mapping_iff (knownRole isPrivileged : Text → Bool) (model : IdentityModel) (client : IdentityClient)
    (claims : TokenClaims) :
    ((∀ mappings mappings' : List IdentityMapping, mappings.Perm model.mappings → mappings'.Perm model.mappings → ∀ role,
          role ∈ (rolesFor { model with mappings } client claims knownRole isPrivileged).roles ↔
            role ∈ (rolesFor { model with mappings := mappings' } client claims knownRole isPrivileged).roles) ∧
        ∀ mappings : List IdentityMapping, mappings.Perm model.mappings →
          (∀ role, role ∈ (rolesFor { model with mappings } client claims knownRole isPrivileged).roles ↔
              Entitled knownRole isPrivileged model client claims role) ∧
            ∀ role ∈ (rolesFor { model with mappings } client claims knownRole isPrivileged).roles,
              isPrivileged role = true → OwnRole model client claims role) ↔
      ∀ role other, Entitled knownRole isPrivileged model client claims role →
        Entitled knownRole isPrivileged model client claims other → Text.ciEquals role other = true → role = other := by
  constructor
  · rintro ⟨_, exact_roles⟩ role other entitled entitled' same
    obtain ⟨answers, _⟩ := exact_roles model.mappings (List.Perm.refl _)
    obtain ⟨_, _, apart⟩ := @rolesFor_spec knownRole isPrivileged model client claims
    by_contra differ
    have symmetric : Std.Symm fun role other : Text => Text.ciEquals role other = false := ⟨fun _ _ unlike =>
      Bool.eq_false_iff.mpr fun alike => Bool.eq_false_iff.mp unlike (Text.ciEquals_symm alike)⟩
    have distinct := apart.forall ((answers role).mpr entitled) ((answers other).mpr entitled') differ
    rw [same] at distinct
    cases distinct
  · intro alone
    have answers : ∀ mappings : List IdentityMapping, mappings.Perm model.mappings → ∀ role,
        role ∈ (rolesFor { model with mappings } client claims knownRole isPrivileged).roles ↔
          Entitled knownRole isPrivileged model client claims role := by
      intro mappings order role
      obtain ⟨source, given, _⟩ := @rolesFor_spec knownRole isPrivileged { model with mappings } client claims
      constructor
      · exact fun member => (entitled_perm order role).mp (source role member)
      · intro entitled
        obtain ⟨kept, member, same⟩ := given role ((entitled_perm order role).mpr entitled)
        rwa [← alone kept role ((entitled_perm order kept).mp (source kept member)) entitled same]
    refine ⟨fun mappings mappings' order order' role => (answers mappings order role).trans (answers mappings' order' role).symm,
      fun mappings order => ⟨answers mappings order, fun role member held => ?_⟩⟩
    exact ((answers mappings order role).mp member).own_of_privileged held

/-- Two mappings of one value to roles that differ in case: the one read first is the role. -/
theorem roles_of_mapping_order :
    let mapping (role : String) : IdentityMapping :=
      { scopeKind := "client".toList, scopeName := "web".toList, source := [], externalValue := "g".toList, role := role.toList }
    let client : IdentityClient := { name := "web".toList, issuer := "idp".toList, rolesFrom := ["groups".toList] }
    let claims : TokenClaims := { audiences := [], strings := fun _ => ["g".toList] }
    let rolesOf (mappings : List IdentityMapping) : List Text :=
      (rolesFor { mappings } client claims (fun _ => true) fun _ => false).roles
    rolesOf [mapping "Analyst", mapping "analyst"] = ["Analyst".toList] ∧
      rolesOf [mapping "analyst", mapping "Analyst"] = ["analyst".toList] := by
  decide

end DuckAcl
