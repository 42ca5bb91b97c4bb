import Mathlib
import DuckAcl.Model.IdentityEdits
import DuckAcl.Soundness.ClientSpecs

/-! # What an edit leaves of the trust behind a mapping

A mapping stands on the records that decide whose claims it reads: the client it is scoped to with that client's
issuer, or the issuer. Each edit says which of them it may change; the others are found as they were, also once
the edit is settled and validated.
-/

namespace DuckAcl

/-! ## Specifications keep what a record is called -/

/-- Two clients of one name and one issuer, implicit or not alike. -/
def IdentityClient.called (a b : IdentityClient) : Prop := a.name = b.name ∧ a.issuer = b.issuer ∧ a.implicit = b.implicit

namespace ClientStorage

variable {yyjsonRead : Text → Option JsonValue}

private theorem foldlM_called (members : List (Text × JsonValue)) :
    ∀ {state after : IdentityClient × List Text}, members.foldlM (applyMember yyjsonRead) state = .ok after →
      after.1.called state.1 := by
  induction members with
  | nil =>
    intro state after ran
    obtain rfl := Outcome.pure_eq_ok.mp ran
    exact ⟨rfl, rfl, rfl⟩
  | cons entry rest ih =>
    intro state after ran
    rw [List.foldlM_cons] at ran
    obtain ⟨middle, stepped, ran⟩ := Outcome.bind_eq_ok.mp ran
    obtain ⟨name, issuer, implicit⟩ := ih ran
    have here : middle.1.called state.1 := by
      unfold applyMember at stepped
      dsimp only at stepped
      split_ifs at stepped
      · cases stepped
      · cases stepped
      · rw [applyProperty_eq] at stepped
        obtain ⟨client, made, rfl⟩ := Outcome.map_ok stepped
        obtain ⟨change, -, rfl⟩ := Outcome.map_ok made
        cases change <;> exact ⟨rfl, rfl, rfl⟩
    exact ⟨name.trans here.1, issuer.trans here.2.1, implicit.trans here.2.2⟩

theorem applyClientSpec_called {client after : IdentityClient} {spec : Text}
    (applied : applyClientSpec yyjsonRead client spec = .ok after) : after.called client := by
  unfold applyClientSpec at applied
  split_ifs at applied
  · obtain rfl := Except.ok.inj applied
    exact ⟨rfl, rfl, rfl⟩
  · split at applied
    · obtain ⟨state, ran, rfl⟩ := Outcome.map_ok applied
      exact foldlM_called _ ran
    · cases applied

end ClientStorage

namespace IdentityModel

variable {yyjsonRead : Text → Option JsonValue} {yyjsonWrite : JsonValue → Text} {services : IdentityNode}
  {before edited after : IdentityModel}

private theorem issuer_name {name : Text} {issuer : IdentityIssuer} (found : before.issuer name = some issuer) :
    Text.ciEquals issuer.name name = true := by
  unfold IdentityModel.issuer at found
  simpa using List.find?_some found

private theorem client_name {name : Text} {client : IdentityClient} (found : before.client name = some client) :
    Text.ciEquals client.name name = true := by
  unfold IdentityModel.client at found
  simpa using List.find?_some found

private theorem foldlM_issuerName (members : List (Text × JsonValue)) :
    ∀ {state after : IdentityIssuer × Text × List Text}, members.foldlM (applyIssuerMember yyjsonWrite) state = .ok after →
      after.1.name = state.1.name := by
  induction members with
  | nil =>
    intro state after ran
    obtain rfl := Outcome.pure_eq_ok.mp ran
    rfl
  | cons entry rest ih =>
    intro state after ran
    rw [List.foldlM_cons] at ran
    obtain ⟨middle, stepped, ran⟩ := Outcome.bind_eq_ok.mp ran
    refine (ih ran).trans ?_
    unfold applyIssuerMember at stepped
    dsimp only at stepped
    split_ifs at stepped
    · cases stepped
    · obtain ⟨_, _, rfl⟩ := Outcome.map_ok stepped
      rfl
    · obtain ⟨_, _, rfl⟩ := Outcome.map_ok stepped
      rfl
    · obtain ⟨_, _, rfl⟩ := Outcome.map_ok stepped
      rfl
    · obtain ⟨_, _, rfl⟩ := Outcome.map_ok stepped
      rfl
    · split at stepped
      · obtain rfl := Except.ok.inj stepped
        rfl
      · cases stepped
    · cases stepped

theorem applyIssuerSpec_name {issuer made : IdentityIssuer} {spec client : Text}
    (applied : applyIssuerSpec yyjsonRead yyjsonWrite issuer spec = .ok (made, client)) : made.name = issuer.name := by
  unfold applyIssuerSpec at applied
  split_ifs at applied
  · obtain ⟨rfl, rfl⟩ := Prod.mk.inj (Except.ok.inj applied)
    rfl
  · split at applied
    · obtain ⟨state, ran, is⟩ := Outcome.map_ok applied
      obtain ⟨rfl, rfl⟩ := Prod.mk.inj is
      exact foldlM_issuerName _ ran
    · cases applied

/-! ## What each edit may change -/

/-- Issuers of other names are found as they were. -/
def KeepsIssuers (name : Text) (before after : IdentityModel) : Prop :=
  ∀ {other found}, before.issuer other = some found → Text.ciEquals name other = false → after.issuer other = some found

/-- Clients of other issuers are found as they were. -/
def KeepsClientsOfOthers (issuer : Text) (before after : IdentityModel) : Prop :=
  ∀ {name found}, before.client name = some found → Text.ciEquals found.issuer issuer = false →
    after.client name = some found

/-- Clients of other names are found as they were. -/
def KeepsOtherClients (client : Text) (before after : IdentityModel) : Prop :=
  ∀ {name found}, before.client name = some found → Text.ciEquals client name = false → after.client name = some found

/-- The implicit client of an issuer is changed, or there is a new one at the end. -/
private theorem applyImplicitClient_keeps {issuer spec : Text}
    (applied : applyImplicitClient yyjsonRead services before issuer spec = .ok after) :
    after.issuers = before.issuers ∧ after.mappings = before.mappings ∧ KeepsClientsOfOthers issuer before after := by
  unfold applyImplicitClient at applied
  cases last : (before.clients.filter (isImplicitOf issuer)).getLast? with
  | some client =>
    rw [last] at applied
    obtain ⟨made, spec, applied⟩ := Outcome.bind_eq_ok.mp applied
    obtain rfl := Outcome.pure_eq_ok.mp applied
    refine ⟨rfl, rfl, fun {name found} was apart => ?_⟩
    have called := ClientStorage.applyClientSpec_called spec
    refine (replaced_replaceLast made last).find (by rw [called.1]) was ?_
    rintro rfl
    have passes := (List.mem_filter.mp (List.mem_of_getLast? last)).2
    rw [isImplicitOf, Bool.and_eq_true] at passes
    rw [apart] at passes
    cases passes.1
  | none =>
    rw [last] at applied
    obtain ⟨made, _, applied⟩ := Outcome.bind_eq_ok.mp applied
    dsimp only at applied
    split_ifs at applied
    all_goals
      obtain ⟨flowing, _, applied⟩ := Outcome.bind_eq_ok.mp applied
      obtain rfl := Outcome.pure_eq_ok.mp applied
      exact ⟨rfl, rfl, fun was _ => find_append _ was⟩

theorem alterIssuer_keeps {name spec : Text}
    (edit : before.alterIssuer yyjsonRead yyjsonWrite services name spec = .ok edited) :
    edited.mappings = before.mappings ∧ KeepsIssuers name before edited ∧ KeepsClientsOfOthers name before edited ∧
      ∃ issuer ∈ edited.issuers, Text.ciEquals issuer.name name = true := by
  unfold alterIssuer at edit
  cases last : (before.issuers.filter (Text.ciEquals ·.name name)).getLast? with
  | none => rw [last] at edit; cases edit
  | some issuer =>
    rw [last] at edit
    obtain ⟨⟨made, clientSpec⟩, spec, edit⟩ := Outcome.bind_eq_ok.mp edit
    have called := applyIssuerSpec_name spec
    have named : Text.ciEquals issuer.name name = true := (List.mem_filter.mp (List.mem_of_getLast? last)).2
    have replaced := replaced_replaceLast made last
    have issuers : ∀ {other found}, before.issuer other = some found → Text.ciEquals name other = false →
        (replaceLast (Text.ciEquals ·.name name) made before.issuers).find? (Text.ciEquals ·.name other) = some found := by
      intro other found was apart
      refine replaced.find (by rw [called]) was ?_
      rintro rfl
      have same := Text.ciEquals_trans (Text.ciEquals_symm named) (issuer_name was)
      rw [apart] at same
      cases same
    have there : made ∈ replaceLast (Text.ciEquals ·.name name) made before.issuers := by
      obtain ⟨first, last, -, is⟩ := replaced
      rw [is]
      simp
    dsimp only at edit
    split_ifs at edit
    · obtain rfl := Outcome.pure_eq_ok.mp edit
      exact ⟨rfl, issuers, fun was _ => was, made, there, by rw [called, named]⟩
    · obtain ⟨same, mappings, clients⟩ := applyImplicitClient_keeps edit
      refine ⟨mappings, fun {other found} was apart => ?_, fun {client found} was apart => clients was ?_, made,
        by rw [same]; exact there, by rw [called, named]⟩
      · unfold IdentityModel.issuer
        rw [same]
        exact issuers was apart
      · rw [called]
        rwa [Text.ciEquals_congr_right named]

theorem defineIssuer_keeps {name spec mode : Text}
    (edit : before.defineIssuer yyjsonRead yyjsonWrite services name spec mode = .ok edited) :
    edited = before ∨ (edited.mappings.Sublist before.mappings ∧ KeepsIssuers name before edited ∧
      KeepsClientsOfOthers name before edited ∧ ∃ issuer ∈ edited.issuers, Text.ciEquals issuer.name name = true) := by
  unfold defineIssuer at edit
  obtain ⟨write, _, edit⟩ := Outcome.bind_eq_ok.mp edit
  cases write with
  | false => exact .inl (Outcome.pure_eq_ok.mp edit).symm
  | true =>
    simp only [if_true] at edit
    obtain ⟨⟨made, clientSpec⟩, spec, edit⟩ := Outcome.bind_eq_ok.mp edit
    have called : made.name = name := applyIssuerSpec_name spec
    have issuers : ∀ {other found}, before.issuer other = some found → Text.ciEquals name other = false →
        (before.issuers.filter (!Text.ciEquals ·.name name) ++ [made]).find? (Text.ciEquals ·.name other) = some found := by
      intro other found was apart
      refine find_append _ (find_filter was ?_)
      rw [Bool.not_eq_true']
      by_contra same
      rw [Bool.not_eq_false] at same
      have both := Text.ciEquals_trans (Text.ciEquals_symm same) (issuer_name was)
      rw [apart] at both
      cases both
    have clients : ∀ {client found}, before.client client = some found → Text.ciEquals found.issuer name = false →
        (before.clients.filter (!isImplicitOf name ·)).find? (Text.ciEquals ·.name client) = some found := by
      intro client found was apart
      exact find_filter was (by rw [isImplicitOf, apart, Bool.false_and, Bool.not_false])
    have there : made ∈ before.issuers.filter (!Text.ciEquals ·.name name) ++ [made] := by simp
    dsimp only at edit
    split_ifs at edit
    · obtain rfl := Outcome.pure_eq_ok.mp edit
      exact .inr ⟨List.filter_sublist, issuers, clients, made, there, by rw [called, Text.ciEquals_iff]⟩
    · obtain ⟨same, mappings, kept⟩ := applyImplicitClient_keeps edit
      refine .inr ⟨?_, fun {other found} was apart => ?_, fun {client found} was apart => kept (clients was apart) ?_, made, ?_,
        by rw [called, Text.ciEquals_iff]⟩
      · rw [mappings]
        exact List.filter_sublist
      · unfold IdentityModel.issuer
        rw [same]
        exact issuers was apart
      · rwa [called]
      · rw [same]
        exact there

theorem defineClient_keeps {name issuer spec mode : Text}
    (edit : before.defineClient yyjsonRead name issuer spec mode = .ok edited) :
    edited = before ∨ (edited.mappings.Sublist before.mappings ∧ edited.issuers = before.issuers ∧
      KeepsOtherClients name before edited ∧ ∃ client ∈ edited.clients, client.name = name) := by
  unfold defineClient at edit
  dsimp only at edit
  cases short : (before.client name).filter (·.implicit) with
  | some client => rw [short] at edit; cases edit
  | none =>
    rw [short] at edit
    obtain ⟨write, _, edit⟩ := Outcome.bind_eq_ok.mp edit
    cases write with
    | false => exact .inl (Outcome.pure_eq_ok.mp edit).symm
    | true =>
      simp only [if_true] at edit
      cases anchored : before.issuer issuer with
      | none => rw [anchored] at edit; cases edit
      | some anchor =>
        rw [anchored] at edit
        obtain ⟨made, spec, edit⟩ := Outcome.bind_eq_ok.mp edit
        obtain rfl := Outcome.pure_eq_ok.mp edit
        have called := ClientStorage.applyClientSpec_called spec
        refine .inr ⟨?_, rfl, fun {client found} was apart => ?_, made, by simp, called.1⟩
        · dsimp only
          split_ifs
          · exact List.filter_sublist
          · exact List.Sublist.refl _
        · refine find_append _ (find_filter was ?_)
          rw [Bool.not_eq_true']
          by_contra same
          rw [Bool.not_eq_false] at same
          have both := Text.ciEquals_trans (Text.ciEquals_symm same) (client_name was)
          rw [apart] at both
          cases both

theorem alterClient_keeps {name spec : Text} (edit : before.alterClient yyjsonRead name spec = .ok edited) :
    edited.mappings = before.mappings ∧ edited.issuers = before.issuers ∧ KeepsOtherClients name before edited ∧
      ∃ client ∈ edited.clients, Text.ciEquals client.name name = true := by
  unfold alterClient at edit
  cases found : before.client name with
  | none => rw [found] at edit; cases edit
  | some client =>
    rw [found] at edit
    dsimp only at edit
    split_ifs at edit
    · cases edit
    · obtain ⟨made, spec, edit⟩ := Outcome.bind_eq_ok.mp edit
      obtain rfl := Outcome.pure_eq_ok.mp edit
      have called := ClientStorage.applyClientSpec_called spec
      have named : Text.ciEquals client.name name = true := client_name found
      have replaced := replaced_replaceFirst made found
      refine ⟨rfl, rfl, fun {other record} was apart => ?_, made, ?_, by rw [called.1, named]⟩
      · refine replaced.find (by rw [called.1]) was ?_
        rintro rfl
        have same := Text.ciEquals_trans (Text.ciEquals_symm named) (client_name was)
        rw [apart] at same
        cases same
      · obtain ⟨first, last, -, is⟩ := replaced
        rw [is]
        simp

theorem dropClient_keeps {name mode : Text} (edit : before.dropClient name mode = .ok edited) :
    edited = before ∨ (edited.mappings = before.mappings.filter (!atClient name ·) ∧ edited.issuers = before.issuers ∧
      KeepsOtherClients name before edited) := by
  unfold dropClient at edit
  split at edit
  · split_ifs at edit
    · exact .inl (Except.ok.inj edit).symm
    · cases edit
  · split_ifs at edit
    · cases edit
    · obtain rfl := Except.ok.inj edit
      refine .inr ⟨rfl, rfl, fun {client found} was apart => find_filter was ?_⟩
      rw [Bool.not_eq_true']
      by_contra same
      rw [Bool.not_eq_false] at same
      have both := Text.ciEquals_trans (Text.ciEquals_symm same) (client_name was)
      rw [apart] at both
      cases both

/-- The mappings an issuer's removal leaves are scoped to neither it nor a client of it. -/
theorem dropIssuer_keeps {name mode : Text} (edit : before.dropIssuer name mode = .ok edited) :
    edited = before ∨ (edited.mappings.Sublist before.mappings ∧ KeepsIssuers name before edited ∧
      ∀ mapping ∈ edited.mappings,
        (mapping.scopeKind = "issuer".toList → Text.ciEquals name mapping.scopeName = false) ∧
          (mapping.scopeKind = "client".toList → ∀ client, before.client mapping.scopeName = some client →
            edited.client mapping.scopeName = some client ∧ Text.ciEquals name client.issuer = false)) := by
  unfold dropIssuer at edit
  split_ifs at edit
  · exact .inl (Except.ok.inj edit).symm
  · cases edit
  · split at edit
    · cases edit
    · obtain rfl := Except.ok.inj edit
      refine .inr ⟨List.filter_sublist, fun {other found} was apart => find_filter was ?_, fun mapping member => ?_⟩
      · rw [Bool.not_eq_true']
        by_contra same
        rw [Bool.not_eq_false] at same
        have both := Text.ciEquals_trans (Text.ciEquals_symm same) (issuer_name was)
        rw [apart] at both
        cases both
      · have stays := (List.mem_filter.mp member).2
        rw [Bool.not_eq_true', Bool.or_eq_false_iff] at stays
        refine ⟨fun is => ?_, fun is client found => ?_⟩
        · have other : Text.ciEquals mapping.scopeName name = false := by simpa [is] using stays.1
          rw [Text.ciEquals] at other ⊢
          rwa [Bool.beq_comm]
        · have kept : (before.clientsOf name).any (Text.ciEquals · mapping.scopeName) = false := by simpa [is] using stays.2
          have named : Text.ciEquals client.name mapping.scopeName = true := client_name found
          refine ⟨find_filter found ?_, ?_⟩
          · have alike : (fun other => Text.ciEquals other client.name) = (Text.ciEquals · mapping.scopeName) :=
              funext fun other => Text.ciEquals_congr_right named other
            rw [Bool.not_eq_true']
            show (before.clientsOf name).any (fun other => Text.ciEquals other client.name) = false
            rw [alike]
            exact kept
          · by_contra whose
            rw [Bool.not_eq_false] at whose
            have lost : (before.clientsOf name).any (Text.ciEquals · mapping.scopeName) = true :=
              List.any_eq_true.mpr ⟨client.name, List.mem_map_of_mem
                (List.mem_filter.mpr ⟨List.mem_of_find?_eq_some found, Text.ciEquals_symm whose⟩), named⟩
            rw [kept] at lost
            cases lost

theorem mapRole_keeps {kind scope source external role : Text} (edit : before.mapRole kind scope source external role = .ok edited) :
    edited.issuers = before.issuers ∧ edited.clients = before.clients ∧
      ∀ mapping ∈ edited.mappings, mapping ∈ before.mappings ∨ mapping.role = role := by
  unfold mapRole at edit
  obtain ⟨⟨scopeKind, scopeName⟩, _, rfl⟩ := Outcome.map_ok edit
  dsimp only
  split_ifs
  · exact ⟨rfl, rfl, fun mapping member => .inl member⟩
  · refine ⟨rfl, rfl, fun mapping member => ?_⟩
    rcases List.mem_append.mp member with old | new
    · exact .inl old
    · obtain rfl := List.mem_singleton.mp new
      exact .inr rfl

theorem dropRoleMapping_keeps {kind scope source external role : Text}
    (edit : before.dropRoleMapping kind scope source external role = .ok edited) :
    edited.issuers = before.issuers ∧ edited.clients = before.clients ∧ edited.mappings.Sublist before.mappings := by
  unfold dropRoleMapping at edit
  obtain ⟨⟨scopeKind, scopeName⟩, _, edit⟩ := Outcome.bind_ok edit
  dsimp only at edit
  split_ifs at edit
  · obtain rfl := Except.ok.inj edit
    exact ⟨rfl, rfl, List.filter_sublist⟩

/-! ## The trust behind a mapping -/

/-- The records a mapping stands on: its client and that client's issuer, or its issuer. -/
def trustOf (model : IdentityModel) (mapping : IdentityMapping) : Option (IdentityIssuer × Option IdentityClient) :=
  if mapping.scopeKind = "client".toList then
    (model.client mapping.scopeName).bind fun client => (model.issuer client.issuer).map fun issuer => (issuer, some client)
  else (model.issuer mapping.scopeName).map fun issuer => (issuer, none)

/-- Every mapping is scoped to a client or an issuer, and stands on records that are there. -/
def Anchored (model : IdentityModel) : Prop :=
  ∀ mapping ∈ model.mappings, (mapping.scopeKind = "client".toList ∨ mapping.scopeKind = "issuer".toList) ∧
    (model.trustOf mapping).isSome = true

variable {mapping : IdentityMapping} {trust : IdentityIssuer × Option IdentityClient}

private theorem trustOf_client (byClient : mapping.scopeKind = "client".toList) :
    before.trustOf mapping = some trust ↔
      ∃ client, before.client mapping.scopeName = some client ∧ before.issuer client.issuer = some trust.1 ∧
        trust.2 = some client := by
  obtain ⟨issuer, client⟩ := trust
  rw [trustOf, if_pos byClient]
  simp only [Option.bind_eq_some_iff, Option.map_eq_some_iff, Prod.mk.injEq]
  constructor
  · rintro ⟨found, there, record, is, rfl, rfl⟩
    exact ⟨found, there, is, rfl⟩
  · rintro ⟨found, there, is, rfl⟩
    exact ⟨found, there, issuer, is, rfl, rfl⟩

private theorem trustOf_issuer (byClient : mapping.scopeKind ≠ "client".toList) :
    before.trustOf mapping = some trust ↔ before.issuer mapping.scopeName = some trust.1 ∧ trust.2 = none := by
  obtain ⟨issuer, client⟩ := trust
  rw [trustOf, if_neg byClient]
  simp only [Option.map_eq_some_iff, Prod.mk.injEq]
  constructor
  · rintro ⟨record, is, rfl, rfl⟩
    exact ⟨is, rfl⟩
  · rintro ⟨is, rfl⟩
    exact ⟨issuer, is, rfl, rfl⟩

/-- What is found of the records a mapping stands on is all there is to its trust. -/
theorem trustOf_of_found (was : before.trustOf mapping = some trust)
    (issuers : ∀ name, before.issuer name = some trust.1 → after.issuer name = some trust.1)
    (clients : ∀ client, trust.2 = some client → before.client mapping.scopeName = some client →
      after.client mapping.scopeName = some client) : after.trustOf mapping = some trust := by
  by_cases byClient : mapping.scopeKind = "client".toList
  · obtain ⟨client, found, issuer, is⟩ := (trustOf_client byClient).mp was
    exact (trustOf_client byClient).mpr ⟨client, clients client is found, issuers _ issuer, is⟩
  · obtain ⟨found, is⟩ := (trustOf_issuer byClient).mp was
    exact (trustOf_issuer byClient).mpr ⟨issuers _ found, is⟩

/-- A change of another issuer leaves the trust as it was. -/
theorem trustOf_of_issuers {name : Text} (was : before.trustOf mapping = some trust) (issuers : KeepsIssuers name before after)
    (clients : KeepsClientsOfOthers name before after) (apart : Text.ciEquals name trust.1.name = false) :
    after.trustOf mapping = some trust := by
  refine trustOf_of_found was (fun other found => issuers found ?_) fun client is found => clients found ?_
  · rwa [← Text.ciEquals_congr_right (issuer_name found)]
  · by_cases byClient : mapping.scopeKind = "client".toList
    · obtain ⟨record, _, issuer, same⟩ := (trustOf_client byClient).mp was
      obtain rfl := Option.some.inj (is.symm.trans same)
      by_contra whose
      rw [Bool.not_eq_false] at whose
      have both := Text.ciEquals_trans (Text.ciEquals_symm whose) (Text.ciEquals_symm (issuer_name issuer))
      rw [apart] at both
      cases both
    · rw [((trustOf_issuer byClient).mp was).2] at is
      cases is

/-- So does a change of another client. -/
theorem trustOf_of_clients {name : Text} (was : before.trustOf mapping = some trust) (same : after.issuers = before.issuers)
    (clients : KeepsOtherClients name before after)
    (apart : ∀ client, trust.2 = some client → Text.ciEquals name client.name = false) :
    after.trustOf mapping = some trust := by
  refine trustOf_of_found was (fun other found => ?_) fun client is found => clients found ?_
  · rwa [IdentityModel.issuer, same]
  · rw [← Text.ciEquals_congr_right (client_name found)]
    exact apart client is

/-! ## An edit that is kept -/

private theorem settleIssuer_name {issuer settled : IdentityIssuer} (ran : services.settleIssuer before issuer = .ok settled) :
    settled.name = issuer.name := by
  unfold IdentityNode.settleIssuer at ran
  split_ifs at ran
  · obtain ⟨_, _, rfl⟩ := Outcome.map_ok ran
    rfl
  · obtain rfl := Except.ok.inj ran
    rfl

private theorem settleClient_name {client settled : IdentityClient} (ran : services.settleClient before client = .ok settled) :
    settled.name = client.name := by
  unfold IdentityNode.settleClient at ran
  split_ifs at ran
  · obtain ⟨_, _, rfl⟩ := Outcome.map_ok ran
    rfl
  · obtain rfl := Except.ok.inj ran
    rfl

/-- A record that is found as it was is no changed one. -/
private theorem settleIssuer_found {name : Text} {issuer settled : IdentityIssuer} (found : before.issuer name = some issuer)
    (ran : services.settleIssuer before issuer = .ok settled) : settled = issuer := by
  have alike : (fun other : IdentityIssuer => Text.ciEquals other.name issuer.name) = (Text.ciEquals ·.name name) :=
    funext fun other => Text.ciEquals_congr_right (issuer_name found) other.name
  have there : before.issuer issuer.name = some issuer := by
    rw [IdentityModel.issuer, alike]
    exact found
  have unchanged : before.changedIssuer issuer = false := by
    rw [changedIssuer, there]
    simp [IdentityIssuer.same]
  rw [IdentityNode.settleIssuer, unchanged, if_neg (by simp)] at ran
  exact (Except.ok.inj ran).symm

private theorem settleClient_found {name : Text} {client settled : IdentityClient} (found : before.client name = some client)
    (ran : services.settleClient before client = .ok settled) : settled = client := by
  have alike : (fun other : IdentityClient => Text.ciEquals other.name client.name) = (Text.ciEquals ·.name name) :=
    funext fun other => Text.ciEquals_congr_right (client_name found) other.name
  have there : before.client client.name = some client := by
    rw [IdentityModel.client, alike]
    exact found
  have unchanged : before.changedClient client = false := by
    rw [changedClient, there]
    simp [IdentityClient.same]
  rw [IdentityNode.settleClient, unchanged, if_neg (by simp)] at ran
  exact (Except.ok.inj ran).symm

private theorem checkIssuers_named {touched : Touched} {names : List Text} {urls : List (Text × Text)}
    {issuers : List IdentityIssuer} (checked : services.checkIssuers touched names urls issuers = .ok ()) :
    ∀ issuer ∈ issuers, issuer.name ≠ [] := by
  induction issuers generalizing names urls with
  | nil => exact fun _ member => by cases member
  | cons issuer rest ih =>
    rw [IdentityNode.checkIssuers] at checked
    split_ifs at checked with nameless twice stored
    · cases checked
    · cases checked
    · exact List.forall_mem_cons.mpr ⟨nameless, ih checked⟩
    · obtain ⟨url, _, checked⟩ := Outcome.bind_eq_ok.mp checked
      split_ifs at checked
      · cases checked
      · split at checked
        · cases checked
        · exact List.forall_mem_cons.mpr ⟨nameless, ih checked⟩

private theorem checkClients_anchored {touched : Touched} {model : IdentityModel} {names : List Text}
    {clients : List IdentityClient} {judged : List (IdentityClient × List Text)}
    (checked : services.checkClients touched model names clients = .ok judged) :
    ∀ client ∈ clients, client.name ≠ [] ∧ model.issuer client.issuer ≠ none := by
  induction clients generalizing names judged with
  | nil => exact fun _ member => by cases member
  | cons client rest ih =>
    rw [IdentityNode.checkClients] at checked
    split_ifs at checked with nameless twice orphan
    · cases checked
    · cases checked
    · cases checked
    all_goals
      obtain ⟨_, _, checked⟩ := Outcome.bind_eq_ok.mp checked
      obtain ⟨later, rested, _⟩ := Outcome.bind_eq_ok.mp checked
      exact List.forall_mem_cons.mpr ⟨⟨nameless, orphan⟩, ih rested⟩

private theorem checkMapping_anchored {touched : Touched} {model : IdentityModel}
    (passed : services.checkMapping touched model mapping = .ok ()) :
    (mapping.scopeKind = "client".toList ∧ model.client mapping.scopeName ≠ none) ∨
      (mapping.scopeKind = "issuer".toList ∧ model.issuer mapping.scopeName ≠ none) := by
  unfold IdentityNode.checkMapping at passed
  by_cases byClient : mapping.scopeKind = "client".toList
  · rw [if_pos byClient] at passed
    by_cases missing : model.client mapping.scopeName = none
    · rw [if_pos missing] at passed
      cases passed
    · exact .inl ⟨byClient, missing⟩
  · rw [if_neg byClient] at passed
    by_cases byIssuer : mapping.scopeKind = "issuer".toList
    · rw [if_pos byIssuer] at passed
      by_cases missing : model.issuer mapping.scopeName = none
      · rw [if_pos missing] at passed
        cases passed
      · exact .inr ⟨byIssuer, missing⟩
    · rw [if_neg byIssuer] at passed
      cases passed

/-- What is kept of an edit: the mappings, what was found before and is found in the edit, the names, and only
mappings that stand on records. -/
theorem editIdentity_kept (kept : services.editIdentity before edited = .ok after) :
    after.mappings = edited.mappings ∧
      (∀ {name found}, before.issuer name = some found → edited.issuer name = some found → after.issuer name = some found) ∧
      (∀ {name found}, before.client name = some found → edited.client name = some found → after.client name = some found) ∧
      (∀ issuer ∈ edited.issuers, issuer.name ≠ []) ∧ (∀ client ∈ edited.clients, client.name ≠ []) ∧ after.Anchored := by
  obtain ⟨issuers, settledIssuers, kept⟩ := Outcome.bind_eq_ok.mp kept
  obtain ⟨clients, settledClients, kept⟩ := Outcome.bind_eq_ok.mp kept
  obtain ⟨_, checked, kept⟩ := Outcome.bind_eq_ok.mp kept
  obtain rfl := Except.ok.inj kept
  obtain ⟨_, named, checked⟩ := Outcome.bind_eq_ok.mp checked
  obtain ⟨judged, anchored, checked⟩ := Outcome.bind_eq_ok.mp checked
  obtain ⟨_, _, mapped⟩ := Outcome.bind_eq_ok.mp checked
  have issuersNamed := checkIssuers_named named
  have clientsAnchored := checkClients_anchored anchored
  refine ⟨rfl, fun {name found} was is => ?_, fun {name found} was is => ?_, fun issuer member => ?_, fun client member => ?_,
    fun mapping member => ?_⟩
  · obtain ⟨answer, ran, there⟩ := Outcome.find_mapM settledIssuers
      (fun item answer ran => by rw [settleIssuer_name ran]) is
    rwa [settleIssuer_found was ran] at there
  · obtain ⟨answer, ran, there⟩ := Outcome.find_mapM settledClients
      (fun item answer ran => by rw [settleClient_name ran]) is
    rwa [settleClient_found was ran] at there
  · obtain ⟨settled, there, ran⟩ := Outcome.mem_mapM settledIssuers member
    exact settleIssuer_name ran ▸ issuersNamed settled there
  · obtain ⟨settled, there, ran⟩ := Outcome.mem_mapM settledClients member
    exact settleClient_name ran ▸ (clientsAnchored settled there).1
  · rcases checkMapping_anchored (Outcome.forM_ok mapped mapping member) with ⟨byClient, found⟩ | ⟨byIssuer, found⟩
    · obtain ⟨client, is⟩ := Option.ne_none_iff_exists'.mp found
      obtain ⟨issuer, there⟩ := Option.ne_none_iff_exists'.mp (clientsAnchored client (List.mem_of_find?_eq_some is)).2
      exact ⟨.inl byClient, Option.isSome_iff_exists.mpr
        ⟨(issuer, some client), (trustOf_client byClient).mpr ⟨client, is, there, rfl⟩⟩⟩
    · obtain ⟨issuer, is⟩ := Option.ne_none_iff_exists'.mp found
      exact ⟨.inr byIssuer, Option.isSome_iff_exists.mpr
        ⟨(issuer, none), (trustOf_issuer (by rw [byIssuer]; decide)).mpr ⟨is, rfl⟩⟩⟩

/-- A trust that the edit spares is there after it. -/
theorem trustOf_settled (kept : services.editIdentity before edited = .ok after) (was : before.trustOf mapping = some trust)
    (is : edited.trustOf mapping = some trust) : after.trustOf mapping = some trust := by
  obtain ⟨-, issuers, clients, -⟩ := editIdentity_kept kept
  by_cases byClient : mapping.scopeKind = "client".toList
  · obtain ⟨client, found, issuer, same⟩ := (trustOf_client byClient).mp was
    obtain ⟨other, found', issuer', same'⟩ := (trustOf_client byClient).mp is
    obtain rfl := Option.some.inj (same.symm.trans same')
    exact (trustOf_client byClient).mpr ⟨client, clients found found', issuers issuer issuer', same⟩
  · obtain ⟨issuer, same⟩ := (trustOf_issuer byClient).mp was
    exact (trustOf_issuer byClient).mpr ⟨issuers issuer ((trustOf_issuer byClient).mp is).1, same⟩

theorem trustOf_congr (issuers : after.issuers = before.issuers) (clients : after.clients = before.clients)
    (mapping : IdentityMapping) : after.trustOf mapping = before.trustOf mapping := by
  unfold trustOf IdentityModel.client IdentityModel.issuer
  rw [issuers, clients]

/-- The records of a trust are called what the mapping and the client say. -/
theorem trustOf_names (was : before.trustOf mapping = some trust) :
    (mapping.scopeKind = "client".toList ∧ ∃ client, trust.2 = some client ∧ client ∈ before.clients ∧
        before.client mapping.scopeName = some client ∧ Text.ciEquals client.name mapping.scopeName = true ∧
        Text.ciEquals trust.1.name client.issuer = true) ∨
      (mapping.scopeKind ≠ "client".toList ∧ trust.2 = none ∧ Text.ciEquals trust.1.name mapping.scopeName = true) := by
  by_cases byClient : mapping.scopeKind = "client".toList
  · obtain ⟨client, found, issuer, same⟩ := (trustOf_client byClient).mp was
    exact .inl ⟨byClient, client, same, List.mem_of_find?_eq_some found, found, client_name found, issuer_name issuer⟩
  · obtain ⟨issuer, same⟩ := (trustOf_issuer byClient).mp was
    exact .inr ⟨byClient, same, issuer_name issuer⟩

theorem dropIssuer_trust {name mode : Text} (edit : before.dropIssuer name mode = .ok edited)
    (member : mapping ∈ edited.mappings)
    (kind : mapping.scopeKind = "client".toList ∨ mapping.scopeKind = "issuer".toList)
    (was : before.trustOf mapping = some trust) : edited.trustOf mapping = some trust := by
  rcases dropIssuer_keeps edit with rfl | ⟨-, issuers, mappings⟩
  · exact was
  · obtain ⟨atIssuer, ofClient⟩ := mappings mapping member
    have apart : Text.ciEquals name trust.1.name = false ∧
        ∀ client, trust.2 = some client → before.client mapping.scopeName = some client →
          edited.client mapping.scopeName = some client := by
      rcases trustOf_names was with ⟨byClient, client, same, _, found, _, named⟩ | ⟨other, none, named⟩
      · refine ⟨?_, fun given _ there => (ofClient byClient given there).1⟩
        rw [Text.ciEquals_congr_right named]
        exact (ofClient byClient client found).2
      · refine ⟨?_, fun given is => by rw [none] at is; cases is⟩
        rw [Text.ciEquals_congr_right named]
        exact atIssuer (kind.resolve_left other)
    refine trustOf_of_found was (fun other found => issuers found ?_) apart.2
    rw [← Text.ciEquals_congr_right (issuer_name found)]
    exact apart.1

theorem dropClient_trust {name mode : Text} (edit : before.dropClient name mode = .ok edited)
    (member : mapping ∈ edited.mappings) (was : before.trustOf mapping = some trust) :
    edited.trustOf mapping = some trust := by
  rcases dropClient_keeps edit with rfl | ⟨mappings, issuers, clients⟩
  · exact was
  · refine trustOf_of_clients was issuers clients fun client is => ?_
    rcases trustOf_names was with ⟨byClient, other, same, _, _, named, _⟩ | ⟨_, none, _⟩
    · obtain rfl := Option.some.inj (same.symm.trans is)
      rw [mappings] at member
      have stays := (List.mem_filter.mp member).2
      have apart : Text.ciEquals mapping.scopeName name = false := by
        simpa [atClient, byClient] using stays
      rw [Text.ciEquals_congr_right named]
      rwa [Text.ciEquals, Bool.beq_comm]
    · rw [none] at is
      cases is

end IdentityModel

end DuckAcl
