import DuckAcl.Soundness.ClientStorage

/-! # A client specification

Each property of a specification writes one part of a client, so the properties may come in any order: the
secret leaves its service alone where a service is named, before it or after. What a part is written with is
read back after a reload but for an empty text that a single value put into a list.
-/

namespace DuckAcl.ClientStorage

/-- What a property writes. -/
inductive Change where
  | audiences (list : List Text)
  | azp (list : List Text)
  | require (conditions : List ClaimCondition)
  | rolesFrom (list : List Text)
  | rolesConstant (list : List Text)
  | unmapped (asRole : Bool)
  | attributes (list : List AttributeDef)
  | subject (list : List Text)
  | tokenType (text : Text)
  | clientId (text : Text)
  | flows (list : List Text)
  | secret (text : Text)
  | service (text : Text)

/-- The part of a client that a change writes. -/
inductive Part where
  | audiences | azp | require | rolesFrom | rolesConstant | unmapped | attributes | subject | tokenType | clientId | flows
  | secret | service
deriving DecidableEq

/-- The names of a part's properties. -/
def Part.keys : Part → List Text
  | .audiences => ["audiences".toList]
  | .azp => ["azp".toList]
  | .require => ["require".toList]
  | .rolesFrom => ["roles_from".toList]
  | .rolesConstant => ["roles_constant".toList]
  | .unmapped => ["unmapped".toList]
  | .attributes => ["attributes".toList, "claim_map".toList]
  | .subject => ["subject".toList]
  | .tokenType => ["token_type".toList]
  | .clientId => ["client_id".toList]
  | .flows => ["flows".toList]
  | .secret => ["secret".toList]
  | .service => ["service".toList]

namespace Change

def part : Change → Part
  | audiences _ => .audiences
  | azp _ => .azp
  | require _ => .require
  | rolesFrom _ => .rolesFrom
  | rolesConstant _ => .rolesConstant
  | unmapped _ => .unmapped
  | attributes _ => .attributes
  | subject _ => .subject
  | tokenType _ => .tokenType
  | clientId _ => .clientId
  | flows _ => .flows
  | secret _ => .secret
  | service _ => .service

/-- The client after a change; a secret keeps the service where one is named. -/
def apply (served : Bool) (client : IdentityClient) : Change → IdentityClient
  | audiences list => { client with audiences := list }
  | azp list => { client with azp := list }
  | require conditions => { client with conditions }
  | rolesFrom list => { client with rolesFrom := list }
  | rolesConstant list => { client with rolesConstant := list }
  | unmapped asRole => { client with unmappedAsRole := asRole }
  | attributes list => { client with attributes := list }
  | subject list => { client with subject := list }
  | tokenType text => { client with tokenType := text }
  | clientId text => { client with clientId := text }
  | flows list => { client with flows := list }
  | secret text => { client with secret := text, secretService := if served then client.secretService else [] }
  | service text => { client with secretService := text }

/-- A change after others, with whether a service was named. -/
def step (state : IdentityClient × Bool) (change : Change) : IdentityClient × Bool :=
  (change.apply state.2 state.1, state.2 || change.part = .service)

/-- Changes of different parts may be made in either order. -/
theorem step_comm {one two : Change} (apart : one.part ≠ two.part) (state : IdentityClient × Bool) :
    step (step state one) two = step (step state two) one := by
  obtain ⟨client, served⟩ := state
  cases one <;> cases two <;> first | exact absurd rfl apart | cases served <;> rfl

/-- The change's conditions and attributes are such as may be given. -/
def Proper : Change → Prop
  | require conditions => ∀ condition ∈ conditions, ProperCondition condition
  | attributes list => ∀ each ∈ list, ProperAttribute each
  | _ => True

theorem apply_proper {change : Change} (proper : change.Proper) {client : IdentityClient} (before : ClientStorage.Proper client)
    (served : Bool) : ClientStorage.Proper (change.apply served client) := by
  obtain ⟨conditions, attributes⟩ := before
  cases change with
  | require list => exact ⟨proper, attributes⟩
  | attributes list => exact ⟨conditions, proper⟩
  | _ => exact ⟨conditions, attributes⟩

/-- The change puts an empty text into a list. -/
def Blank : Change → Prop
  | audiences list => [] ∈ list
  | azp list => [] ∈ list
  | require conditions => ∃ condition ∈ conditions, [] ∈ condition.values
  | rolesFrom list => [] ∈ list
  | rolesConstant list => [] ∈ list
  | attributes list => ∃ each ∈ list, each.isConstant = false ∧ [] ∈ each.paths
  | subject list => [] ∈ list
  | flows list => [] ∈ list
  | _ => False

end Change

/-- A part of the client has no empty text in a list. -/
def PartWhole (client : IdentityClient) : Part → Prop
  | .audiences => [] ∉ client.audiences
  | .azp => [] ∉ client.azp
  | .require => ∀ condition ∈ client.conditions, [] ∉ condition.values
  | .rolesFrom => [] ∉ client.rolesFrom
  | .rolesConstant => [] ∉ client.rolesConstant
  | .attributes => ∀ each ∈ client.attributes, each.isConstant = true ∨ [] ∉ each.paths
  | .subject => [] ∉ client.subject
  | .flows => [] ∉ client.flows
  | _ => True

theorem whole_iff_parts {client : IdentityClient} : Whole client ↔ ∀ part, PartWhole client part := by
  constructor
  · intro whole part
    cases part with
    | audiences => exact whole.audiences
    | azp => exact whole.azp
    | require => exact whole.conditions
    | rolesFrom => exact whole.rolesFrom
    | rolesConstant => exact whole.rolesConstant
    | attributes => exact whole.attributes
    | subject => exact whole.subject
    | flows => exact whole.flows
    | _ => exact trivial
  · intro parts
    exact {
      audiences := parts .audiences
      azp := parts .azp
      conditions := parts .require
      rolesFrom := parts .rolesFrom
      rolesConstant := parts .rolesConstant
      attributes := parts .attributes
      subject := parts .subject
      flows := parts .flows }

namespace Change

/-- The other parts stay as they are. -/
theorem apply_other {change : Change} {part : Part} (other : change.part ≠ part) (served : Bool) (client : IdentityClient) :
    PartWhole (change.apply served client) part ↔ PartWhole client part := by
  cases change <;> cases part <;> first | exact absurd rfl other | exact Iff.rfl

/-- The part written is without empty texts exactly when the change is. -/
theorem apply_part (change : Change) (served : Bool) (client : IdentityClient) :
    PartWhole (change.apply served client) change.part ↔ ¬ change.Blank := by
  cases change with
  | require conditions =>
    rw [Blank, not_exists]
    exact forall_congr' fun condition => not_and.symm
  | attributes list =>
    rw [Blank, not_exists]
    refine forall_congr' fun each => ?_
    rw [not_and]
    refine imp_congr_right fun _ => ?_
    cases constant : each.isConstant with
    | true => simp
    | false => simp
  | unmapped asRole => exact iff_of_true trivial id
  | tokenType text => exact iff_of_true trivial id
  | clientId text => exact iff_of_true trivial id
  | secret text => exact iff_of_true trivial id
  | service text => exact iff_of_true trivial id
  | _ => exact Iff.rfl

/-- Changes leave the parts alone that none of them writes. -/
theorem foldl_other {part : Part} (changes : List Change) (others : ∀ change ∈ changes, change.part ≠ part) :
    ∀ state, PartWhole (changes.foldl step state).1 part ↔ PartWhole state.1 part := by
  induction changes with
  | nil => exact fun state => Iff.rfl
  | cons change changes ih =>
    intro state
    rw [List.foldl_cons, ih fun other member => others other (List.mem_cons_of_mem _ member)]
    exact apply_other (others change List.mem_cons_self) state.2 state.1

/-- Changes of separate parts leave a client without empty texts exactly when none of them has one. -/
theorem foldl_whole (changes : List Change) (separate : changes.Pairwise fun one two => one.part ≠ two.part) :
    ∀ state, (∀ part, (∀ change ∈ changes, change.part ≠ part) → PartWhole state.1 part) →
      (Whole (changes.foldl step state).1 ↔ ∀ change ∈ changes, ¬ change.Blank) := by
  induction changes with
  | nil =>
    intro state parts
    refine iff_of_true (whole_iff_parts.mpr fun part => parts part fun _ member => by cases member) ?_
    exact fun _ member => by cases member
  | cons change changes ih =>
    intro state parts
    obtain ⟨apart, separate⟩ := List.pairwise_cons.mp separate
    rw [List.foldl_cons, List.forall_mem_cons]
    by_cases blank : change.Blank
    · refine iff_of_false (fun whole => ?_) fun none => none.1 blank
      have written := whole_iff_parts.mp whole change.part
      rw [foldl_other changes fun other member => (apart other member).symm] at written
      exact (apply_part change state.2 state.1).mp written blank
    · rw [and_iff_right blank]
      refine ih separate _ fun part others => ?_
      by_cases same : change.part = part
      · subst same
        exact (apply_part change state.2 state.1).mpr blank
      · refine (apply_other same state.2 state.1).mpr (parts part fun other member => ?_)
        rcases List.mem_cons.mp member with rfl | member
        · exact same
        · exact others other member

theorem foldl_proper (changes : List Change) (each : ∀ change ∈ changes, change.Proper) :
    ∀ state, ClientStorage.Proper state.1 → ClientStorage.Proper (changes.foldl step state).1 := by
  induction changes with
  | nil => exact fun _ proper => proper
  | cons change changes ih =>
    intro state proper
    rw [List.foldl_cons]
    exact ih (fun other member => each other (List.mem_cons_of_mem _ member)) _
      (apply_proper (each change List.mem_cons_self) proper state.2)

end Change

/-! ## A property and its change -/

variable (yyjsonRead : Text → Option JsonValue)

/-- The change that a property makes. -/
def changeOf (key : Text) (value : JsonValue) : Except Text Change :=
  if key = "audiences".toList then (stringArray value key).map .audiences
  else if key = "azp".toList then (stringArray value key).map .azp
  else if key = "require".toList then (conditionsOf value).map .require
  else if key = "roles_from".toList then (stringArray value key).map .rolesFrom
  else if key = "roles_constant".toList then
    (stringArray value key).bind fun rolesConstant =>
      if [] ∈ rolesConstant then bad "ROLES CONSTANT names a role - '' is none".toList
      else .ok (.rolesConstant rolesConstant)
  else if key = "unmapped".toList then
    (stringOf value key).bind fun text =>
      let unmapped := Text.fold text
      if unmapped = "as_role".toList ∨ unmapped = "as role".toList then .ok (.unmapped true)
      else if unmapped = "ignore".toList ∨ unmapped = [] then .ok (.unmapped false)
      else bad ("UNMAPPED is IGNORE or AS ROLE - got ".toList ++ quoted unmapped)
  else if key = "attributes".toList then (attributesOf value).map .attributes
  else if key = "claim_map".toList then
    (stringOf value key).bind fun text => (claimMapOf yyjsonRead text).map .attributes
  else if key = "subject".toList then (stringArray value key).map .subject
  else if key = "token_type".toList then (stringOf value key).map .tokenType
  else if key = "client_id".toList then (stringOf value key).map .clientId
  else if key = "flows".toList then
    (stringArray value key).bind fun flows =>
      match (flows.map Text.fold).find? fun flow => !isKnownFlow flow with
      | some flow =>
        bad ("unknown flow ".toList ++ quoted flow ++ " - FLOWS names password, authcode, device or client_credentials".toList)
      | none => .ok (.flows (flows.map Text.fold))
  else if key = "secret".toList then (stringOf value key).map .secret
  else if key = "service".toList then (stringOf value key).map .service
  else bad ("unknown client property ".toList ++ quoted key)

private theorem map_map {α β γ : Type} {x : Except Text α} {f : α → γ} {f' : α → β} {g : β → γ} (each : ∀ a, f a = g (f' a)) :
    x.map f = (x.map f').map g := by
  cases x with
  | error e => rfl
  | ok a => exact congrArg Except.ok (each a)

private theorem bind_map {α β γ : Type} {x : Except Text α} {f : α → Except Text γ} {f' : α → Except Text β} {g : β → γ}
    (each : ∀ a, f a = (f' a).map g) : x.bind f = (x.bind f').map g := by
  cases x with
  | error e => rfl
  | ok a => exact each a

private theorem ite_map {α β : Type} {c : Prop} [Decidable c] {x y : Except Text β} {x' y' : Except Text α} {f : α → β}
    (yes : x = x'.map f) (no : y = y'.map f) : (if c then x else y) = (if c then x' else y').map f := by
  split_ifs
  · exact yes
  · exact no

/-- A property is applied as its change is. -/
theorem applyProperty_eq (client : IdentityClient) (named : List Text) (key : Text) (value : JsonValue) :
    applyProperty yyjsonRead client named key value =
      (changeOf yyjsonRead key value).map (Change.apply (decide ("service".toList ∈ named)) client) := by
  unfold applyProperty changeOf
  refine ite_map (map_map fun _ => rfl) (ite_map (map_map fun _ => rfl) (ite_map (map_map fun _ => rfl)
    (ite_map (map_map fun _ => rfl) (ite_map (bind_map fun _ => ite_map rfl rfl)
      (ite_map (bind_map fun _ => ite_map rfl (ite_map rfl rfl)) (ite_map (map_map fun _ => rfl)
        (ite_map (bind_map fun _ => map_map fun _ => rfl) (ite_map (map_map fun _ => rfl) (ite_map (map_map fun _ => rfl)
          (ite_map (map_map fun _ => rfl) (ite_map (bind_map fun flows => ?_) (ite_map (map_map fun secret => ?_)
            (ite_map (map_map fun _ => rfl) rfl)))))))))))))
  · cases (flows.map Text.fold).find? fun flow => !isKnownFlow flow <;> rfl
  · simp only [Change.apply, decide_eq_true_eq]

/-- What a property's change was read from. -/
inductive Makes (yyjsonRead : Text → Option JsonValue) (value : JsonValue) : Text → Change → Prop where
  | audiences {list : List Text} (read : stringArray value "audiences".toList = .ok list) :
      Makes yyjsonRead value "audiences".toList (.audiences list)
  | azp {list : List Text} (read : stringArray value "azp".toList = .ok list) : Makes yyjsonRead value "azp".toList (.azp list)
  | require {conditions : List ClaimCondition} (read : conditionsOf value = .ok conditions) :
      Makes yyjsonRead value "require".toList (.require conditions)
  | rolesFrom {list : List Text} (read : stringArray value "roles_from".toList = .ok list) :
      Makes yyjsonRead value "roles_from".toList (.rolesFrom list)
  | rolesConstant {list : List Text} (named : [] ∉ list) : Makes yyjsonRead value "roles_constant".toList (.rolesConstant list)
  | unmapped (asRole : Bool) : Makes yyjsonRead value "unmapped".toList (.unmapped asRole)
  | attributes {list : List AttributeDef} (read : attributesOf value = .ok list) :
      Makes yyjsonRead value "attributes".toList (.attributes list)
  | claimMap {text : Text} {list : List AttributeDef} (read : claimMapOf yyjsonRead text = .ok list) :
      Makes yyjsonRead value "claim_map".toList (.attributes list)
  | subject {list : List Text} (read : stringArray value "subject".toList = .ok list) :
      Makes yyjsonRead value "subject".toList (.subject list)
  | tokenType (text : Text) : Makes yyjsonRead value "token_type".toList (.tokenType text)
  | clientId (text : Text) : Makes yyjsonRead value "client_id".toList (.clientId text)
  | flows {list : List Text} (known : ∀ flow ∈ list, isKnownFlow flow = true) :
      Makes yyjsonRead value "flows".toList (.flows list)
  | secret (text : Text) : Makes yyjsonRead value "secret".toList (.secret text)
  | service (text : Text) : Makes yyjsonRead value "service".toList (.service text)

private theorem ite_ok {α : Type} {c : Prop} [Decidable c] {x y : Except Text α} {a : α} {p : Prop} (yes : c → x = .ok a → p)
    (no : ¬ c → y = .ok a → p) (read : (if c then x else y) = .ok a) : p := by
  split_ifs at read with which
  · exact yes which read
  · exact no which read

variable {yyjsonRead}

theorem changeOf_makes {key : Text} {value : JsonValue} {change : Change} (read : changeOf yyjsonRead key value = .ok change) :
    Makes yyjsonRead value key change := by
  unfold changeOf at read
  revert read
  refine ite_ok (fun is read => ?_) fun _ => ite_ok (fun is read => ?_) fun _ => ite_ok (fun is read => ?_) fun _ =>
    ite_ok (fun is read => ?_) fun _ => ite_ok (fun is read => ?_) fun _ => ite_ok (fun is read => ?_) fun _ =>
    ite_ok (fun is read => ?_) fun _ => ite_ok (fun is read => ?_) fun _ => ite_ok (fun is read => ?_) fun _ =>
    ite_ok (fun is read => ?_) fun _ => ite_ok (fun is read => ?_) fun _ => ite_ok (fun is read => ?_) fun _ =>
    ite_ok (fun is read => ?_) fun _ => ite_ok (fun is read => ?_) fun _ read => ?_
  all_goals first
    | cases read
    | subst is
  · obtain ⟨list, isList, rfl⟩ := map_eq_ok.mp read
    exact .audiences isList
  · obtain ⟨list, isList, rfl⟩ := map_eq_ok.mp read
    exact .azp isList
  · obtain ⟨list, isList, rfl⟩ := map_eq_ok.mp read
    exact .require isList
  · obtain ⟨list, isList, rfl⟩ := map_eq_ok.mp read
    exact .rolesFrom isList
  · obtain ⟨list, -, answered⟩ := Outcome.bind_ok read
    split_ifs at answered with empty
    · cases answered
    · cases answered
      exact .rolesConstant empty
  · obtain ⟨text, -, answered⟩ := Outcome.bind_ok read
    dsimp only at answered
    refine ite_ok (fun _ made => ?_) (fun _ => ite_ok (fun _ made => ?_) fun _ made => ?_) answered
    · cases made
      exact .unmapped true
    · cases made
      exact .unmapped false
    · cases made
  · obtain ⟨list, isList, rfl⟩ := map_eq_ok.mp read
    exact .attributes isList
  · obtain ⟨text, -, answered⟩ := Outcome.bind_ok read
    obtain ⟨list, isList, rfl⟩ := map_eq_ok.mp answered
    exact .claimMap isList
  · obtain ⟨list, isList, rfl⟩ := map_eq_ok.mp read
    exact .subject isList
  · obtain ⟨text, -, rfl⟩ := map_eq_ok.mp read
    exact .tokenType text
  · obtain ⟨text, -, rfl⟩ := map_eq_ok.mp read
    exact .clientId text
  · obtain ⟨list, -, answered⟩ := Outcome.bind_ok read
    split at answered
    · cases answered
    · next known =>
      cases answered
      exact .flows fun flow member => by simpa using List.find?_eq_none.mp known flow member
  · obtain ⟨text, -, rfl⟩ := map_eq_ok.mp read
    exact .secret text
  · obtain ⟨text, -, rfl⟩ := map_eq_ok.mp read
    exact .service text

/-- A property's name is one of the names of the part it writes. -/
theorem changeOf_key {key : Text} {value : JsonValue} {change : Change} (read : changeOf yyjsonRead key value = .ok change) :
    key ∈ change.part.keys := by
  cases changeOf_makes read
  case claimMap => exact List.mem_cons_of_mem _ List.mem_cons_self
  all_goals exact List.mem_cons_self

private theorem claimMapOf_read {text : Text} {attributes : List AttributeDef} (read : claimMapOf yyjsonRead text = .ok attributes) :
    attributes = [] ∨ ∃ members, attributesOf (some (.obj members)) = .ok attributes := by
  unfold claimMapOf at read
  split_ifs at read
  · exact .inl (Except.ok.inj read).symm
  · split at read
    · exact .inr ⟨_, read⟩
    · cases read

theorem changeOf_proper {key : Text} {value : JsonValue} {change : Change} (read : changeOf yyjsonRead key value = .ok change) :
    change.Proper := by
  cases changeOf_makes read with
  | require isList => exact conditionsOf_proper isList
  | attributes isList => exact attributesOf_proper isList
  | claimMap isList =>
    rcases claimMapOf_read isList with rfl | ⟨members, isMap⟩
    · exact fun each member => by cases member
    · exact attributesOf_proper isMap
  | _ => exact trivial

/-! ## The properties in turn -/

/-- Names of which a specification may give both. -/
def Apart (one two : Text) : Prop :=
  one ≠ two ∧ ¬ (one = "attributes".toList ∧ two = "claim_map".toList) ∧ ¬ (one = "claim_map".toList ∧ two = "attributes".toList)

theorem Apart.symm {one two : Text} (apart : Apart one two) : Apart two one :=
  ⟨apart.1.symm, fun both => apart.2.2 ⟨both.2, both.1⟩, fun both => apart.2.1 ⟨both.2, both.1⟩⟩

/-- Such names write different parts. -/
theorem Apart.parts {one two : Text} (apart : Apart one two) {part other : Part} (isPart : one ∈ part.keys)
    (isOther : two ∈ other.keys) : part ≠ other := by
  rintro rfl
  obtain ⟨distinct, noMap, noAttributes⟩ := apart
  cases part with
  | attributes =>
    rw [Part.keys, List.mem_pair] at isPart isOther
    rcases isPart with rfl | rfl
    · rcases isOther with rfl | rfl
      · exact distinct rfl
      · exact noMap ⟨rfl, rfl⟩
    · rcases isOther with rfl | rfl
      · exact noAttributes ⟨rfl, rfl⟩
      · exact distinct rfl
  | _ => exact distinct ((List.mem_singleton.mp isPart).trans (List.mem_singleton.mp isOther).symm)

private theorem service_key {key : Text} {part : Part} (isPart : key ∈ part.keys) : part = .service ↔ key = "service".toList := by
  constructor
  · rintro rfl
    exact List.mem_singleton.mp isPart
  · rintro rfl
    revert isPart
    cases part <;> simp [Part.keys]

/-- The name of a member. -/
def keyOf (entry : Text × JsonValue) : Text := Text.fold entry.1

/-- A member is applied when its change is read and its name may stand beside the names so far. -/
theorem applyMember_eq_ok {client client' : IdentityClient} {named named' : List Text} {entry : Text × JsonValue} :
    applyMember yyjsonRead (client, named) entry = .ok (client', named') ↔
      ∃ change, changeOf yyjsonRead (keyOf entry) entry.2 = .ok change ∧ (∀ name ∈ named, Apart (keyOf entry) name) ∧
        client' = change.apply (decide ("service".toList ∈ keyOf entry :: named)) client ∧ named' = keyOf entry :: named := by
  have distinct : "attributes".toList ≠ "claim_map".toList := by simp
  have accepted : (keyOf entry ∉ named ∧ ¬ ((keyOf entry = "attributes".toList ∧ "claim_map".toList ∈ keyOf entry :: named) ∨
      (keyOf entry = "claim_map".toList ∧ "attributes".toList ∈ keyOf entry :: named))) ↔
        ∀ name ∈ named, Apart (keyOf entry) name := by
    constructor
    · rintro ⟨fresh, single⟩ name member
      refine ⟨fun same => fresh (same ▸ member), fun both => ?_, fun both => ?_⟩
      · exact single (.inl ⟨both.1, List.mem_cons_of_mem _ (both.2 ▸ member)⟩)
      · exact single (.inr ⟨both.1, List.mem_cons_of_mem _ (both.2 ▸ member)⟩)
    · intro each
      refine ⟨fun member => (each _ member).1 rfl, ?_⟩
      rintro (⟨isAttributes, member⟩ | ⟨isMap, member⟩)
      · rcases List.mem_cons.mp member with same | member
        · exact distinct (isAttributes.symm.trans same.symm)
        · exact (each _ member).2.1 ⟨isAttributes, rfl⟩
      · rcases List.mem_cons.mp member with same | member
        · exact distinct (same.trans isMap)
        · exact (each _ member).2.2 ⟨isMap, rfl⟩
  rw [applyMember]
  dsimp only
  rw [← keyOf, applyProperty_eq]
  constructor
  · intro ran
    split_ifs at ran with twice both
    · cases ran
    · cases ran
    · obtain ⟨after, applied, same⟩ := map_eq_ok.mp ran
      obtain ⟨change, read, rfl⟩ := map_eq_ok.mp applied
      cases same
      exact ⟨change, read, accepted.mp ⟨twice, both⟩, rfl, rfl⟩
  · rintro ⟨change, read, each, rfl, rfl⟩
    obtain ⟨fresh, single⟩ := accepted.mpr each
    rw [if_neg fresh, if_neg single, read]
    rfl

/-- The changes of members, where each is read. -/
def Changes (yyjsonRead : Text → Option JsonValue) (members : List (Text × JsonValue)) (changes : List Change) : Prop :=
  List.Forall₂ (fun entry change => changeOf yyjsonRead (keyOf entry) entry.2 = .ok change) members changes

private theorem changes_member {members : List (Text × JsonValue)} {changes : List Change}
    (each : Changes yyjsonRead members changes) {change : Change} (member : change ∈ changes) :
    ∃ entry ∈ members, changeOf yyjsonRead (keyOf entry) entry.2 = .ok change := by
  induction each with
  | nil => cases member
  | @cons entry first members changes read _ ih =>
    rcases List.mem_cons.mp member with rfl | member
    · exact ⟨entry, List.mem_cons_self, read⟩
    · obtain ⟨other, among, same⟩ := ih member
      exact ⟨other, List.mem_cons_of_mem _ among, same⟩

private theorem member_changes {members : List (Text × JsonValue)} {changes : List Change}
    (each : Changes yyjsonRead members changes) {entry : Text × JsonValue} (member : entry ∈ members) :
    ∃ change ∈ changes, changeOf yyjsonRead (keyOf entry) entry.2 = .ok change := by
  induction each with
  | nil => cases member
  | @cons first change members changes read _ ih =>
    rcases List.mem_cons.mp member with rfl | member
    · exact ⟨change, List.mem_cons_self, read⟩
    · obtain ⟨other, among, same⟩ := ih member
      exact ⟨other, List.mem_cons_of_mem _ among, same⟩

/-- Names that may stand beside each other make changes of separate parts. -/
private theorem changes_separate {members : List (Text × JsonValue)} {changes : List Change}
    (each : Changes yyjsonRead members changes) (apart : (members.map keyOf).Pairwise Apart) :
    changes.Pairwise fun one two => one.part ≠ two.part := by
  induction each with
  | nil => exact .nil
  | @cons entry change members changes read later ih =>
    rw [List.map_cons, List.pairwise_cons] at apart
    refine List.pairwise_cons.mpr ⟨fun other member => ?_, ih apart.2⟩
    obtain ⟨another, among, isOther⟩ := changes_member later member
    exact (apart.1 _ (List.mem_map_of_mem among)).parts (changeOf_key read) (changeOf_key isOther)

/-- The client after one change, and the names with its property's. -/
private theorem served_step {key : Text} {value : JsonValue} {change : Change} (read : changeOf yyjsonRead key value = .ok change)
    (named : List Text) (client : IdentityClient) :
    Change.step (client, decide ("service".toList ∈ named)) change =
      (change.apply (decide ("service".toList ∈ key :: named)) client, decide ("service".toList ∈ key :: named)) := by
  have service := service_key (changeOf_key read)
  rw [Change.step]
  by_cases isService : key = "service".toList
  · have isPart := service.mpr isService
    rw [decide_eq_true (List.mem_cons.mpr (.inl isService.symm)), isPart]
    refine Prod.ext ?_ (Bool.or_true _)
    cases change with
    | service text => rfl
    | _ => cases isPart
  · have notPart : change.part ≠ .service := fun same => isService (service.mp same)
    have same : ("service".toList ∈ key :: named) ↔ "service".toList ∈ named := by
      rw [List.mem_cons, or_iff_right fun same => isService same.symm]
    rw [decide_eq_decide.mpr same, decide_eq_false notPart, Bool.or_false]

/-- Members are applied when their changes are read and their names may stand beside each other, and then they
are the changes in turn. -/
theorem foldlM_applyMember {members : List (Text × JsonValue)} {client client' : IdentityClient} {named : List Text} :
    (members.foldlM (applyMember yyjsonRead) (client, named)).map Prod.fst = .ok client' ↔
      ∃ changes, Changes yyjsonRead members changes ∧ (members.map keyOf).Pairwise Apart ∧
        (∀ entry ∈ members, ∀ name ∈ named, Apart (keyOf entry) name) ∧
          client' = (changes.foldl Change.step (client, decide ("service".toList ∈ named))).1 := by
  induction members generalizing client named with
  | nil =>
    constructor
    · intro ran
      cases ran
      exact ⟨[], .nil, .nil, fun _ member => (List.not_mem_nil member).elim, rfl⟩
    · rintro ⟨changes, each, -, -, rfl⟩
      cases each
      rfl
  | cons entry members ih =>
    rw [map_eq_ok, List.foldlM_cons]
    constructor
    · rintro ⟨state, ran, isClient⟩
      obtain ⟨⟨client'', named'⟩, first, ran⟩ := Outcome.bind_eq_ok.mp ran
      obtain ⟨change, read, apart, rfl, rfl⟩ := applyMember_eq_ok.mp first
      obtain ⟨changes, each, separate, others, same⟩ := ih.mp (map_eq_ok.mpr ⟨state, ran, isClient⟩)
      refine ⟨change :: changes, .cons read each, ?_, ?_, ?_⟩
      · rw [List.map_cons, List.pairwise_cons]
        refine ⟨fun name member => ?_, separate⟩
        obtain ⟨other, isMember, rfl⟩ := List.mem_map.mp member
        exact (others other isMember _ List.mem_cons_self).symm
      · intro other member name isName
        rcases List.mem_cons.mp member with rfl | member
        · exact apart name isName
        · exact others other member name (List.mem_cons_of_mem _ isName)
      · rw [same, List.foldl_cons, served_step read named client]
    · rintro ⟨changes, each, separate, others, same⟩
      cases each with
      | @cons _ change _ changes read later =>
        rw [List.map_cons, List.pairwise_cons] at separate
        have first := applyMember_eq_ok.mpr
          ⟨change, read, others entry List.mem_cons_self, (rfl : _ = change.apply _ client), rfl⟩
        have rest := ih.mpr ⟨changes, later, separate.2, fun other member name isName => ?_, by
          rw [same, List.foldl_cons, served_step read named client]⟩
        · obtain ⟨state, ran, isClient⟩ := map_eq_ok.mp rest
          exact ⟨state, Outcome.bind_eq_ok.mpr ⟨_, first, ran⟩, isClient⟩
        · rcases List.mem_cons.mp isName with rfl | isName
          · exact (separate.1 _ (List.mem_map_of_mem member)).symm
          · exact others other (List.mem_cons_of_mem _ member) name isName

/-- Members in another order are applied alike. -/
theorem foldlM_perm {members members' : List (Text × JsonValue)} (reordered : members.Perm members')
    {client client' : IdentityClient} (ran : (members.foldlM (applyMember yyjsonRead) (client, [])).map Prod.fst = .ok client') :
    (members'.foldlM (applyMember yyjsonRead) (client, [])).map Prod.fst = .ok client' := by
  obtain ⟨changes, each, separate, -, rfl⟩ := foldlM_applyMember.mp ran
  obtain ⟨changes', each', moved⟩ := List.perm_comp_forall₂ reordered.symm each
  refine foldlM_applyMember.mpr ⟨changes', each', ?_, fun _ _ _ none => (List.not_mem_nil none).elim, ?_⟩
  · exact ((reordered.map keyOf).pairwise_iff fun apart => apart.symm).mp separate
  · have apart := changes_separate each separate
    have commute : ∀ one ∈ changes, ∀ two ∈ changes, ∀ state,
        Change.step (Change.step state one) two = Change.step (Change.step state two) one :=
      List.Pairwise.forall_of_forall_of_flip (fun _ _ _ => rfl) (apart.imp Change.step_comm)
        (apart.imp fun other => Change.step_comm other.symm)
    exact congrArg Prod.fst (moved.symm.foldl_eq' commute _)

/-! ## Empty texts of a specification -/

/-- A value that puts an empty text into a list of the client: a single `""` where a list goes. -/
def BlankValue (key : Text) (value : JsonValue) : Prop :=
  (key ∈ ["audiences".toList, "azp".toList, "roles_from".toList, "subject".toList] ∧ value = .str []) ∨
  (key = "require".toList ∧ ∃ items, value = .arr items ∧
    ∃ members, JsonValue.obj members ∈ items ∧ objGet members "values" = some (.str [])) ∨
  (key = "attributes".toList ∧ ∃ items, value = .arr items ∧
    ∃ members, JsonValue.obj members ∈ items ∧ constantOf members = none ∧ objGet members "paths" = some (.str []))

private theorem stringItems_full {key : Text} {items : List JsonValue} {list : List Text}
    (read : stringItems key items = .ok list) : [] ∉ list := by
  induction items generalizing list with
  | nil =>
    cases read
    exact List.not_mem_nil
  | cons item items ih =>
    cases item with
    | str text =>
      rw [stringItems] at read
      obtain ⟨later, isLater, rfl⟩ := map_eq_ok.mp read
      have none := ih isLater
      split_ifs with empty
      · exact none
      · exact fun member => (List.mem_cons.mp member).elim (fun same => empty same.symm) none
    | _ => cases read

/-- A list holds an empty text only as the list of one. -/
theorem stringArray_blank {value : Option JsonValue} {key : Text} {list : List Text}
    (read : stringArray value key = .ok list) : [] ∈ list ↔ value = some (.str []) := by
  unfold stringArray at read
  split at read
  · cases read
    exact iff_of_false List.not_mem_nil fun same => by cases same
  · cases read
    exact iff_of_false List.not_mem_nil fun same => by cases same
  · next text =>
    cases read
    rw [List.mem_singleton, Option.some.injEq, JsonValue.str.injEq]
    exact eq_comm
  · exact iff_of_false (stringItems_full read) fun same => by cases same
  · cases read

private theorem conditionOf_blank {item : JsonValue} {condition : ClaimCondition} (read : conditionOf item = .ok condition) :
    [] ∈ condition.values ↔ ∃ members, item = .obj members ∧ objGet members "values" = some (.str []) := by
  cases item with
  | obj members =>
    rw [conditionOf, Outcome.bind_eq_ok] at read
    obtain ⟨path, -, read⟩ := read
    obtain ⟨name, -, read⟩ := Outcome.bind_eq_ok.mp read
    obtain ⟨op, -, read⟩ := Outcome.bind_eq_ok.mp read
    obtain ⟨values, isValues, read⟩ := Outcome.bind_eq_ok.mp read
    split_ifs at read
    · cases read
    · cases read
    · cases read
      rw [stringArray_blank isValues]
      constructor
      · exact fun blank => ⟨members, rfl, blank⟩
      · rintro ⟨_, same, blank⟩
        cases same
        exact blank
  | _ => cases read

private theorem attributeOf_blank {item : JsonValue} {each : AttributeDef} (read : attributeOf item = .ok each) :
    (each.isConstant = false ∧ [] ∈ each.paths) ↔
      ∃ members, item = .obj members ∧ constantOf members = none ∧ objGet members "paths" = some (.str []) := by
  cases item with
  | obj members =>
    rw [attributeOf, Outcome.bind_eq_ok] at read
    obtain ⟨name, -, read⟩ := read
    obtain ⟨made, isMade, read⟩ := Outcome.bind_eq_ok.mp read
    split_ifs at read
    · cases read
    · cases read
      rw [readAttribute] at isMade
      cases constant : constantOf members with
      | some value =>
        rw [constant] at isMade
        obtain ⟨text, -, rfl⟩ := map_eq_ok.mp isMade
        refine iff_of_false (fun both => by cases both.1) ?_
        rintro ⟨_, same, none, -⟩
        cases same
        rw [constant] at none
        cases none
      | none =>
        rw [constant] at isMade
        obtain ⟨list, isList, rfl⟩ := map_eq_ok.mp isMade
        rw [and_iff_right rfl, stringArray_blank isList]
        constructor
        · exact fun blank => ⟨members, rfl, constant, blank⟩
        · rintro ⟨_, same, -, blank⟩
          cases same
          exact blank
  | _ => cases read

/-- A sequence answers with one of a kind exactly when an item is of the kind that each such answer comes from. -/
private theorem mapM_exists {α β : Type} {step : α → Except Text β} {kind : β → Prop} {sort : α → Prop}
    (each : ∀ item answer, step item = .ok answer → (kind answer ↔ sort item)) {items : List α} {answers : List β}
    (ran : items.mapM step = .ok answers) : (∃ answer ∈ answers, kind answer) ↔ ∃ item ∈ items, sort item := by
  induction items generalizing answers with
  | nil =>
    cases ran
    simp
  | cons item items ih =>
    rw [List.mapM_cons, Outcome.bind_eq_ok] at ran
    obtain ⟨first, here, ran⟩ := ran
    obtain ⟨rest, later, ran⟩ := Outcome.bind_eq_ok.mp ran
    cases ran
    rw [List.exists_mem_cons_iff, List.exists_mem_cons_iff, each item first here, ih later]

private theorem conditionsOf_blank {value : JsonValue} {conditions : List ClaimCondition}
    (read : conditionsOf (some value) = .ok conditions) :
    (∃ condition ∈ conditions, [] ∈ condition.values) ↔
      ∃ items, value = .arr items ∧ ∃ members, JsonValue.obj members ∈ items ∧ objGet members "values" = some (.str []) := by
  cases value with
  | arr items =>
    rw [mapM_exists (fun _ _ => conditionOf_blank) read]
    constructor
    · rintro ⟨_, member, members, rfl, blank⟩
      exact ⟨items, rfl, members, member, blank⟩
    · rintro ⟨_, same, members, member, blank⟩
      cases same
      exact ⟨_, member, members, rfl, blank⟩
  | null =>
    cases read
    refine iff_of_false (fun some => by obtain ⟨_, member, -⟩ := some; cases member) ?_
    exact fun some => by obtain ⟨_, same, -⟩ := some; cases same
  | _ => cases read

private theorem attributesOf_blank {value : JsonValue} {attributes : List AttributeDef}
    (read : attributesOf (some value) = .ok attributes) :
    (∃ each ∈ attributes, each.isConstant = false ∧ [] ∈ each.paths) ↔
      ∃ items, value = .arr items ∧ ∃ members, JsonValue.obj members ∈ items ∧ constantOf members = none ∧
        objGet members "paths" = some (.str []) := by
  cases value with
  | arr items =>
    rw [mapM_exists (fun _ _ => attributeOf_blank) read]
    constructor
    · rintro ⟨_, member, members, rfl, blank⟩
      exact ⟨items, rfl, members, member, blank⟩
    · rintro ⟨_, same, members, member, blank⟩
      cases same
      exact ⟨_, member, members, rfl, blank⟩
  | obj members =>
    refine iff_of_false ?_ fun some => by obtain ⟨_, same, -⟩ := some; cases same
    rintro ⟨each, member, -, blank⟩
    obtain ⟨entry, -, isMapped⟩ := mem_of_mapM read member
    exact (mappedAttribute_proper isMapped).2 blank
  | null =>
    cases read
    refine iff_of_false (fun some => by obtain ⟨_, member, -⟩ := some; cases member) ?_
    exact fun some => by obtain ⟨_, same, -⟩ := some; cases same
  | _ => cases read

private theorem isKnownFlow_full : isKnownFlow [] = false := by
  simp [isKnownFlow]

private theorem claimMapOf_blank {text : Text} {attributes : List AttributeDef}
    (read : claimMapOf yyjsonRead text = .ok attributes) : ¬ ∃ each ∈ attributes, each.isConstant = false ∧ [] ∈ each.paths := by
  rcases claimMapOf_read read with rfl | ⟨members, isMap⟩
  · rintro ⟨_, member, -⟩
    cases member
  · rw [attributesOf_blank isMap]
    rintro ⟨_, same, -⟩
    cases same

private theorem blank_list {key : Text} {value : JsonValue}
    (isList : key ∈ ["audiences".toList, "azp".toList, "roles_from".toList, "subject".toList]) :
    BlankValue key value ↔ some value = some (.str []) := by
  have others : "require".toList ∉ ["audiences".toList, "azp".toList, "roles_from".toList, "subject".toList] ∧
      "attributes".toList ∉ ["audiences".toList, "azp".toList, "roles_from".toList, "subject".toList] := by simp
  rw [Option.some.injEq]
  constructor
  · rintro (⟨-, same⟩ | ⟨rfl, -⟩ | ⟨rfl, -⟩)
    · exact same
    · exact absurd isList others.1
    · exact absurd isList others.2
  · exact fun same => .inl ⟨isList, same⟩

private theorem blank_none {key : Text} {value : JsonValue}
    (other : key ∉ ["audiences".toList, "azp".toList, "roles_from".toList, "subject".toList, "require".toList, "attributes".toList]) :
    ¬ BlankValue key value := by
  rintro (⟨isList, -⟩ | ⟨rfl, -⟩ | ⟨rfl, -⟩)
  · exact other (List.mem_append_left ["require".toList, "attributes".toList] isList)
  · exact other (by simp)
  · exact other (by simp)

private theorem blank_require {key : Text} {value : JsonValue} (isRequire : key = "require".toList) :
    BlankValue key value ↔
      ∃ items, value = .arr items ∧ ∃ members, JsonValue.obj members ∈ items ∧ objGet members "values" = some (.str []) := by
  subst isRequire
  constructor
  · rintro (⟨isList, -⟩ | ⟨-, blank⟩ | ⟨same, -⟩)
    · exact absurd isList (by simp)
    · exact blank
    · exact absurd same (by simp)
  · exact fun blank => .inr (.inl ⟨rfl, blank⟩)

private theorem blank_attributes {key : Text} {value : JsonValue} (isAttributes : key = "attributes".toList) :
    BlankValue key value ↔
      ∃ items, value = .arr items ∧ ∃ members, JsonValue.obj members ∈ items ∧ constantOf members = none ∧
        objGet members "paths" = some (.str []) := by
  subst isAttributes
  constructor
  · rintro (⟨isList, -⟩ | ⟨same, -⟩ | ⟨-, blank⟩)
    · exact absurd isList (by simp)
    · exact absurd same (by simp)
    · exact blank
  · exact fun blank => .inr (.inr ⟨rfl, blank⟩)

/-- The change of a property puts an empty text into a list exactly when its value does. -/
theorem changeOf_blank {key : Text} {value : JsonValue} {change : Change} (read : changeOf yyjsonRead key value = .ok change) :
    change.Blank ↔ BlankValue key value := by
  cases changeOf_makes read with
  | audiences isList => exact (stringArray_blank isList).trans (blank_list (by simp)).symm
  | azp isList => exact (stringArray_blank isList).trans (blank_list (by simp)).symm
  | require isList => exact (conditionsOf_blank isList).trans (blank_require rfl).symm
  | rolesFrom isList => exact (stringArray_blank isList).trans (blank_list (by simp)).symm
  | rolesConstant named => exact iff_of_false named (blank_none (by simp))
  | attributes isList => exact (attributesOf_blank isList).trans (blank_attributes rfl).symm
  | claimMap isList => exact iff_of_false (claimMapOf_blank isList) (blank_none (by simp))
  | subject isList => exact (stringArray_blank isList).trans (blank_list (by simp)).symm
  | flows known =>
    refine iff_of_false (fun member => ?_) (blank_none (by simp))
    have flow := known [] member
    rw [isKnownFlow_full] at flow
    cases flow
  | _ => exact iff_of_false id (blank_none (by simp))

/-! ## The specification and the reload -/

/-- Two specifications of the same members, in some order each. -/
def Reordered (yyjsonRead : Text → Option JsonValue) (spec spec' : Text) : Prop :=
  spec ≠ [] ∧ spec' ≠ [] ∧ ∃ members members', yyjsonRead spec = some (.obj members) ∧ yyjsonRead spec' = some (.obj members') ∧
    members.Perm members'

/-- A property of the specification puts an empty text into a list. -/
def GivesBlank (yyjsonRead : Text → Option JsonValue) (spec : Text) : Prop :=
  spec ≠ [] ∧ ∃ members, yyjsonRead spec = some (.obj members) ∧ ∃ entry ∈ members, BlankValue (keyOf entry) entry.2

private theorem applied_members {client client' : IdentityClient} {spec : Text}
    (accepted : applyClientSpec yyjsonRead client spec = .ok client') (given : spec ≠ []) :
    ∃ members, yyjsonRead spec = some (.obj members) ∧
      (members.foldlM (applyMember yyjsonRead) (client, [])).map Prod.fst = .ok client' := by
  unfold applyClientSpec at accepted
  rw [if_neg given] at accepted
  split at accepted
  · next members read => exact ⟨members, read, accepted⟩
  · cases accepted

private theorem members_applied {client : IdentityClient} {spec : Text} {members : List (Text × JsonValue)} (given : spec ≠ [])
    (read : yyjsonRead spec = some (.obj members)) :
    applyClientSpec yyjsonRead client spec = (members.foldlM (applyMember yyjsonRead) (client, [])).map Prod.fst := by
  rw [applyClientSpec, if_neg given, read]

/-- The order of a specification's properties does not matter. -/
theorem applyClientSpec_reordered {client client' : IdentityClient} {spec spec' : Text}
    (accepted : applyClientSpec yyjsonRead client spec = .ok client') (reordered : Reordered yyjsonRead spec spec') :
    applyClientSpec yyjsonRead client spec' = .ok client' := by
  obtain ⟨given, given', members, members', read, read', moved⟩ := reordered
  rw [members_applied given read] at accepted
  rw [members_applied given' read']
  exact foldlM_perm moved accepted

/-- A client that was read as stored has no empty text after a specification exactly when that gives none. -/
theorem applyClientSpec_whole (reads : JsonValue.Reads yyjsonRead) {client client' : IdentityClient} {spec : Text}
    (stored : reload yyjsonRead client = .ok client) (accepted : applyClientSpec yyjsonRead client spec = .ok client') :
    Proper client' ∧ (Whole client' ↔ ¬ GivesBlank yyjsonRead spec) := by
  have proper := proper_of_reload stored
  have whole := (reload_iff reads proper).mp stored
  by_cases given : spec = []
  · rw [applyClientSpec, if_pos given] at accepted
    cases accepted
    exact ⟨proper, iff_of_true whole fun blank => blank.1 given⟩
  · obtain ⟨members, read, ran⟩ := applied_members accepted given
    obtain ⟨changes, each, separate, -, rfl⟩ := foldlM_applyMember.mp ran
    refine ⟨Change.foldl_proper changes (fun change member => ?_) _ proper, ?_⟩
    · obtain ⟨entry, -, isChange⟩ := changes_member each member
      exact changeOf_proper isChange
    · rw [Change.foldl_whole changes (changes_separate each separate) _ fun part _ => whole_iff_parts.mp whole part]
      constructor
      · rintro none ⟨-, members', read', entry, member, blank⟩
        rw [read] at read'
        cases read'
        obtain ⟨change, among, isChange⟩ := member_changes each member
        exact none change among ((changeOf_blank isChange).mpr blank)
      · intro none change member blank
        obtain ⟨entry, among, isChange⟩ := changes_member each member
        exact none ⟨given, members, read, entry, among, (changeOf_blank isChange).mp blank⟩

/-- A specification's client is read as it was stored, and does not depend on the order of the properties,
exactly when no property puts an empty text into a list. -/
theorem spec_survives_iff (reads : JsonValue.Reads yyjsonRead) {client client' : IdentityClient} {spec : Text}
    (stored : reload yyjsonRead client = .ok client) (accepted : applyClientSpec yyjsonRead client spec = .ok client') :
    (reload yyjsonRead client' = .ok client' ∧
        ∀ spec', Reordered yyjsonRead spec spec' → applyClientSpec yyjsonRead client spec' = .ok client') ↔
      ¬ GivesBlank yyjsonRead spec := by
  obtain ⟨proper, whole⟩ := applyClientSpec_whole reads stored accepted
  rw [reload_iff reads proper, whole]
  exact and_iff_left fun spec' reordered => applyClientSpec_reordered accepted reordered

/-- A new client. -/
def webClient : IdentityClient := { name := "web".toList, issuer := "corp".toList }

/-- Its specification. -/
def webSpec : Text := "\x7b\"audiences\":[\"api\",\"app\"],\"roles_constant\":\"reader\"\x7d".toList

private theorem webSpec_read (reads : JsonValue.Reads yyjsonRead) :
    yyjsonRead webSpec = some (.obj [("audiences".toList, .arr [.str "api".toList, .str "app".toList]),
      ("roles_constant".toList, .str "reader".toList)]) := by
  have plain : ∀ text ∈ ["audiences".toList, "api".toList, "app".toList, "roles_constant".toList, "reader".toList],
      plainText text = true := by simp [plainText]
  have spelled (text : Text) (member : text ∈ ["audiences".toList, "api".toList, "app".toList, "roles_constant".toList,
      "reader".toList]) : JsonValue.Spelled text text := spelled_plain (plain text member)
  have audiences := JsonValue.Written.arr (.cons (.str (spelled "api".toList (by simp))) no_blank
    (.one (.str (spelled "app".toList (by simp)))))
  have roles := JsonValue.Members.one (spelled "roles_constant".toList (by simp)) no_blank (.str (spelled "reader".toList (by simp)))
  have written := JsonValue.Written.obj (.cons (spelled "audiences".toList (by simp)) no_blank audiences no_blank roles)
  simp only [List.append_assoc, List.cons_append, List.nil_append] at written
  exact reads _ _ written

/-- Two audiences and a role of their own survive. -/
theorem spec_survives_web :
    reload JsonValue.readText webClient = .ok webClient ∧
      applyClientSpec JsonValue.readText webClient webSpec =
        .ok { webClient with audiences := ["api".toList, "app".toList], rolesConstant := ["reader".toList] } ∧
      reload JsonValue.readText { webClient with audiences := ["api".toList, "app".toList], rolesConstant := ["reader".toList] } =
        .ok { webClient with audiences := ["api".toList, "app".toList], rolesConstant := ["reader".toList] } := by
  have stored : reload JsonValue.readText webClient = .ok webClient := by decide +kernel
  have accepted : applyClientSpec JsonValue.readText webClient webSpec =
      .ok { webClient with audiences := ["api".toList, "app".toList], rolesConstant := ["reader".toList] } := by decide +kernel
  refine ⟨stored, accepted, ((spec_survives_iff JsonValue.readText_reads stored accepted).mpr ?_).1⟩
  rintro ⟨-, members, same, entry, member, blank⟩
  rw [webSpec_read JsonValue.readText_reads] at same
  cases same
  rcases List.mem_pair.mp member with rfl | rfl
  · rcases blank with ⟨-, same⟩ | ⟨isRequire, -⟩ | ⟨isAttributes, -⟩
    · cases same
    · exact absurd isRequire (by decide)
    · exact absurd isAttributes (by decide)
  · exact blank_none (by decide) blank

/-- An audience of `''` is stored as a list that is read as none: the client is left without an audience. -/
theorem blank_audience_lifted :
    applyClientSpec JsonValue.readText webClient "\x7b\"audiences\":\"\"\x7d".toList = .ok { webClient with audiences := [[]] } ∧
      reload JsonValue.readText { webClient with audiences := [[]] } = .ok webClient ∧
        ({ webClient with audiences := [[]] } : IdentityClient) ≠ webClient := by
  decide +kernel

end DuckAcl.ClientStorage
