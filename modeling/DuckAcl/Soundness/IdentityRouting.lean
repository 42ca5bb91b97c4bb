import Mathlib.Data.List.Pairwise
import DuckAcl.Model.Identity

/-! # Routing a token to a client

The validator compares the audiences of two clients when a write touches either. A touched client's are
those its secret gives, an untouched one's those stored with it, so a pair is told apart for good unless a
write touched one of the two while the other kept its audiences in its secret. Such a pair is told apart by
no write, and a token that fits both is refused when it comes.
-/

namespace DuckAcl

/-! ## Picking among the accepting clients -/

/-- What the loop of `PickClient` knows of the specificities it passed. -/
def BestOf (passed : List ℕ) : Option (ℕ × ℕ) × Bool → Prop
  | (none, ambiguous) => passed = [] ∧ ambiguous = false
  | (some (i, top), ambiguous) => passed[i]? = some top ∧ (∀ other ∈ passed, other ≤ top) ∧
      (ambiguous = true ↔ 2 ≤ passed.count top)

theorem BestOf.raised {passed : List ℕ} {specificity : ℕ} (above : ∀ other ∈ passed, other < specificity) :
    BestOf (passed ++ [specificity]) (some (passed.length, specificity), false) := by
  have absent : passed.count specificity = 0 :=
    List.count_eq_zero.mpr fun member => Nat.lt_irrefl _ (above specificity member)
  refine ⟨by simp, ?_, by simp [List.count_append, absent]⟩
  intro other member
  rcases List.mem_append.mp member with old | new
  · exact (above other old).le
  · obtain rfl := List.mem_singleton.mp new
    exact le_rfl

theorem BestOf.pickFrom {rest passed : List ℕ} {best : Option (ℕ × ℕ)} {ambiguous : Bool}
    (known : BestOf passed (best, ambiguous)) : BestOf (passed ++ rest) (pickFrom passed.length best ambiguous rest) := by
  induction rest generalizing passed best ambiguous with
  | nil => simpa [DuckAcl.pickFrom] using known
  | cons specificity rest ih =>
    rw [List.append_cons]
    have length : passed.length + 1 = (passed ++ [specificity]).length := by simp
    match best, known with
    | none, known =>
      rw [DuckAcl.pickFrom, length]
      exact ih (BestOf.raised (by simp [known.1]))
    | some (i, top), ⟨there, greatest, tied⟩ =>
      have bound : i < passed.length := (List.getElem?_eq_some_iff.mp there).1
      have still : (passed ++ [specificity])[i]? = some top := by rw [List.getElem?_append_left bound, there]
      rw [DuckAcl.pickFrom, length]
      split_ifs with above equal
      · exact ih (BestOf.raised fun other member => (greatest other member).trans_lt above)
      · refine ih ⟨still, ?_, ?_⟩
        · intro other member
          rcases List.mem_append.mp member with old | new
          · exact greatest other old
          · obtain rfl := List.mem_singleton.mp new
            exact equal.le
        · have some : 0 < passed.count top := List.count_pos_iff.mpr (List.mem_of_getElem? there)
          subst equal
          simp [List.count_append]
          exact List.count_pos_iff.mp some
      · refine ih ⟨still, ?_, ?_⟩
        · intro other member
          rcases List.mem_append.mp member with old | new
          · exact greatest other old
          · obtain rfl := List.mem_singleton.mp new
            exact Nat.le_of_not_lt above
        · rw [tied, List.count_append]
          simp [equal]

/-- The client of greatest specificity, with no other as specific. -/
def UniqueGreatest (candidates : List IdentityClient) (client : IdentityClient) : Prop :=
  candidates.filter (fun other => client.specificity ≤ other.specificity) = [client]

/-- The greatest specificity is attained more than once. -/
def Tied (candidates : List IdentityClient) : Prop :=
  ∃ top, (∀ other ∈ candidates, other.specificity ≤ top) ∧ 2 ≤ candidates.countP (·.specificity = top)

private theorem count_specificity (candidates : List IdentityClient) (top : ℕ) :
    (candidates.map (·.specificity)).count top = candidates.countP (·.specificity = top) := by
  rw [List.count, List.countP_map]
  congr 1

private theorem filter_greatest {candidates : List IdentityClient} {top : ℕ}
    (greatest : ∀ other ∈ candidates, other.specificity ≤ top) :
    (candidates.filter fun other => top ≤ other.specificity).length = candidates.countP (·.specificity = top) := by
  rw [← List.countP_eq_length_filter]
  refine List.countP_congr fun other member => ?_
  have := greatest other member
  simp only [decide_eq_true_eq]
  omega

/-- The loop's answer, over the clients themselves. -/
private theorem best_candidates (candidates : List IdentityClient) :
    candidates = [] ∧ routed candidates = (none, false) ∨
      ∃ client ∈ candidates, (∀ other ∈ candidates, other.specificity ≤ client.specificity) ∧
        routed candidates = if 2 ≤ candidates.countP (·.specificity = client.specificity) then (none, true)
          else (some client, false) := by
  have known : BestOf (candidates.map (·.specificity)) (pickFrom 0 none false (candidates.map (·.specificity))) := by
    have start : BestOf [] (none, false) := ⟨rfl, rfl⟩
    exact start.pickFrom
  unfold routed pickClient
  dsimp only
  generalize pickFrom 0 none false (candidates.map (·.specificity)) = answer at known
  match answer, known with
  | (none, ambiguous), known =>
    obtain ⟨empty, rfl⟩ := known
    exact .inl ⟨List.map_eq_nil_iff.mp empty, rfl⟩
  | (some (i, top), ambiguous), known =>
    obtain ⟨there, greatest, tied⟩ := known
    rw [List.getElem?_map, Option.map_eq_some_iff] at there
    obtain ⟨client, there, rfl⟩ := there
    refine .inr ⟨client, List.mem_of_getElem? there, ?_, ?_⟩
    · exact fun other member => greatest _ (List.mem_map_of_mem member)
    · rw [count_specificity] at tied
      cases ambiguous with
      | true => simp [tied.mp rfl]
      | false =>
        have alone : ¬ 2 ≤ candidates.countP (·.specificity = client.specificity) := fun two => by simpa using tied.mpr two
        simp [alone, there]

theorem routed_eq_some_iff {candidates : List IdentityClient} {client : IdentityClient} :
    (routed candidates).1 = some client ↔ UniqueGreatest candidates client := by
  unfold UniqueGreatest
  rcases best_candidates candidates with ⟨rfl, picked⟩ | ⟨best, member, greatest, picked⟩
  · simp [picked]
  · have length := filter_greatest greatest
    have among : best ∈ candidates.filter fun other => best.specificity ≤ other.specificity := by simp [member]
    rw [picked]
    constructor
    · intro found
      split_ifs at found with tied
      obtain rfl := Option.some.inj found
      have one : (candidates.filter fun other => best.specificity ≤ other.specificity).length = 1 := by
        have := List.length_pos_of_mem among
        omega
      obtain ⟨only, alone⟩ := List.length_eq_one_iff.mp one
      rw [alone] at among ⊢
      rw [List.mem_singleton.mp among]
    · intro alone
      have client_mem : client ∈ candidates := List.mem_of_mem_filter (alone ▸ List.mem_singleton_self client)
      have inside : best ∈ candidates.filter fun other => client.specificity ≤ other.specificity := by
        simp [member, greatest client client_mem]
      rw [alone] at inside
      obtain rfl := List.mem_singleton.mp inside
      rw [alone] at length
      simp [← length]

theorem routed_ambiguous_iff {candidates : List IdentityClient} : (routed candidates).2 = true ↔ Tied candidates := by
  unfold Tied
  rcases best_candidates candidates with ⟨rfl, picked⟩ | ⟨best, member, greatest, picked⟩
  · simp [picked]
  · rw [picked]
    constructor
    · intro ambiguous
      split_ifs at ambiguous with tied
      exact ⟨best.specificity, greatest, tied⟩
    · rintro ⟨top, bound, tied⟩
      obtain ⟨other, among, same⟩ := List.countP_pos_iff.mp (by omega : 0 < candidates.countP (·.specificity = top))
      simp only [decide_eq_true_eq] at same
      have equal : top = best.specificity := le_antisymm (same ▸ greatest other among) (bound best member)
      subst equal
      simp [tied]

/-- The client does not depend on the order of the candidates, nor does the ambiguity. -/
theorem routed_perm {candidates others : List IdentityClient} (same : candidates.Perm others) :
    routed candidates = routed others := by
  refine Prod.ext ?_ ?_
  · refine Option.ext fun client => ?_
    rw [routed_eq_some_iff, routed_eq_some_iff]
    have filtered := same.filter fun other => client.specificity ≤ other.specificity
    constructor
    · intro alone
      exact List.perm_singleton.mp (filtered.symm.trans (.of_eq alone))
    · intro alone
      exact List.perm_singleton.mp (filtered.trans (.of_eq alone))
  · rw [Bool.eq_iff_iff, routed_ambiguous_iff, routed_ambiguous_iff]
    unfold Tied
    simp only [same.mem_iff, same.countP_eq]

namespace IdentityNode

variable {node : IdentityNode}

/-- Whether a client of the issuer accepts the token with its resolved audiences. -/
def fits (node : IdentityNode) (issuer : Text) (claims : TokenClaims) (client : IdentityClient) : Bool :=
  Text.ciEquals client.issuer issuer &&
    match node.resolveClient client with
    | .error _ => false
    | .ok connection => client.accepts connection.audiences claims

theorem candidates_eq_ok {issuer : Text} {claims : TokenClaims} {clients candidates : List IdentityClient} :
    node.candidates issuer claims clients = .ok candidates ↔
      (∀ client ∈ clients, Text.ciEquals client.issuer issuer = true → ∃ connection,
        node.resolveClient client = .ok connection) ∧ candidates = clients.filter (node.fits issuer claims) := by
  induction clients generalizing candidates with
  | nil =>
    simp only [IdentityNode.candidates, Except.ok.injEq, List.not_mem_nil, false_implies, implies_true, true_and,
      List.filter_nil]
    exact eq_comm
  | cons client rest ih =>
    rw [IdentityNode.candidates, List.forall_mem_cons]
    split_ifs with other
    · have own : Text.ciEquals client.issuer issuer = false := by simpa using other
      simp [ih, own, fits]
    · have own : Text.ciEquals client.issuer issuer = true := by simpa using other
      cases resolved : node.resolveClient client with
      | error e => simp [own, bind, Except.bind]
      | ok connection =>
        simp only [own, true_implies, Except.ok.injEq, exists_eq', true_and, Outcome.bind_eq_ok, exists_eq_left', ih]
        cases accepted : client.accepts connection.audiences claims with
        | true =>
          simp only [↓reduceIte, Except.ok.injEq]
          rw [List.filter_cons_of_pos (by simp [fits, own, resolved, accepted])]
          exact ⟨fun ⟨later, ⟨all, same⟩, made⟩ => ⟨all, by rw [← made, same]⟩,
            fun ⟨all, made⟩ => ⟨_, ⟨all, rfl⟩, made.symm⟩⟩
        | false =>
          simp only [Bool.false_eq_true, ↓reduceIte, Except.ok.injEq]
          rw [List.filter_cons_of_neg (by simp [fits, own, resolved, accepted])]
          exact ⟨fun ⟨later, ⟨all, same⟩, made⟩ => ⟨all, by rw [← made, same]⟩,
            fun ⟨all, made⟩ => ⟨_, ⟨all, rfl⟩, made.symm⟩⟩

/-! ## What an accepted write tells of its clients -/

/-- The audiences a client's secret gives. -/
def secretAudiences (node : IdentityNode) (client : IdentityClient) : List Text :=
  if client.secret = [] then []
  else
    match node.readIdentitySecret client.secretService client.secret "oidc_client".toList with
    | .ok (some fields) => (node.parseStoredList (fields.field "audiences")).toOption.getD []
    | _ => []

/-- The audiences a client's secret gives, else those stored with it. -/
def allAudiences (node : IdentityNode) (client : IdentityClient) : List Text :=
  if node.secretAudiences client ≠ [] then node.secretAudiences client else client.audiences

theorem secretAudiences_read {client : IdentityClient} {fields : SecretFields} (secret : client.secret ≠ [])
    (read : node.readIdentitySecret client.secretService client.secret "oidc_client".toList = .ok (some fields)) :
    node.secretAudiences client = (node.parseStoredList (fields.field "audiences")).toOption.getD [] := by
  rw [secretAudiences, if_neg secret, read]

theorem resolveClient_audiences {client : IdentityClient} {connection : ResolvedClient}
    (resolved : node.resolveClient client = .ok connection) : connection.audiences = node.allAudiences client := by
  unfold resolveClient at resolved
  by_cases bare : client.secret = []
  · rw [if_pos bare] at resolved
    obtain rfl := Except.ok.inj resolved
    simp [allAudiences, secretAudiences, bare]
  · rw [if_neg bare] at resolved
    obtain ⟨found, read, resolved⟩ := Outcome.bind_eq_ok.mp resolved
    cases found with
    | none => cases resolved
    | some fields =>
      obtain ⟨audiences, parsed, resolved⟩ := Outcome.bind_eq_ok.mp resolved
      rw [allAudiences, secretAudiences_read bare read, parsed]
      dsimp only at resolved
      by_cases twoHomes : (audiences ≠ [] ∧ client.audiences ≠ []) ∨ (fields.field "client_id" ≠ [] ∧ client.clientId ≠ [])
      · rw [if_pos twoHomes] at resolved
        cases resolved
      · rw [if_neg twoHomes] at resolved
        obtain rfl := Except.ok.inj resolved
        rfl

private theorem judgedConnection_audiences {client : IdentityClient} {connection : List Text × Text × Bool}
    (said : node.judgedConnection client = .ok connection) (some : connection.1 ≠ []) :
    connection.1 = node.allAudiences client := by
  unfold judgedConnection at said
  by_cases bare : client.secret = []
  · rw [if_pos bare] at said
    obtain rfl := Except.ok.inj said
    simp [allAudiences, secretAudiences, bare]
  · rw [if_neg bare] at said
    obtain ⟨found, read, said⟩ := Outcome.bind_eq_ok.mp said
    match found with
    | none => cases said
    | .some fields =>
      rw [allAudiences, secretAudiences_read bare read]
      dsimp only at said
      by_cases twoHomes : fields.field "audiences" ≠ [] ∧ client.audiences ≠ []
      · rw [if_pos twoHomes] at said
        cases said
      rw [if_neg twoHomes] at said
      by_cases sameId : fields.field "client_id" ≠ [] ∧ client.clientId ≠ []
      · simp only [if_pos sameId] at said
        split_ifs at said
        · obtain ⟨_, _, said⟩ := Outcome.bind_eq_ok.mp said
          cases said
        · cases said
      simp only [if_neg sameId] at said
      by_cases inSecret : fields.field "audiences" ≠ []
      · rw [if_pos inSecret] at said
        obtain ⟨listed, parsed, said⟩ := Outcome.bind_eq_ok.mp said
        obtain rfl := Except.ok.inj said
        simp only [parsed, Except.toOption, Option.getD_some]
        rw [if_pos some]
      · rw [if_neg inSecret] at said
        obtain ⟨listed, parsed, said⟩ := Outcome.bind_eq_ok.mp said
        obtain rfl := Except.ok.inj parsed
        obtain rfl := Except.ok.inj said
        have empty : fields.field "audiences" = [] := not_not.mp inSecret
        simp [empty, parseStoredList, Text.trim, Except.toOption]

/-- A judged client's audiences are those it resolves to. -/
theorem checkClient_audiences {client : IdentityClient} {audiences : List Text}
    (judged : node.checkClient client = .ok audiences) : audiences = node.allAudiences client := by
  obtain ⟨⟨stated, clientId, confidential⟩, said, judged⟩ := Outcome.bind_eq_ok.mp judged
  have kept : stated ≠ [] ∧ stated = audiences := by
    dsimp only at judged
    split_ifs at judged with empty
    · cases judged
    · cases judged
    · cases judged
    · split at judged
      · cases judged
      · cases judged
    · split at judged
      · cases judged
      · split at judged
        · cases judged
        · exact ⟨empty, Except.ok.inj judged⟩
  obtain ⟨some, rfl⟩ := kept
  exact judgedConnection_audiences said some

/-- What the loop over the clients leaves: a pair for each, judged where it was touched, and no name twice. -/
theorem checkClients_ok {touched : Touched} {model : IdentityModel} {names : List Text} {clients : List IdentityClient}
    {judged : List (IdentityClient × List Text)} (checked : node.checkClients touched model names clients = .ok judged) :
    judged.map Prod.fst = clients ∧
      (∀ pair ∈ judged, pair.2 = if touched .client pair.1.name then node.allAudiences pair.1 else pair.1.audiences) ∧
      (∀ client ∈ clients, ∀ name ∈ names, Text.ciEquals name client.name = false) ∧
      clients.Pairwise fun a b => Text.ciEquals a.name b.name = false := by
  induction clients generalizing names judged with
  | nil =>
    obtain rfl := Except.ok.inj checked
    simp
  | cons client rest ih =>
    rw [checkClients] at checked
    by_cases nameless : client.name = []
    · rw [if_pos nameless] at checked
      cases checked
    rw [if_neg nameless] at checked
    by_cases again : names.any (Text.ciEquals · client.name) = true
    · rw [if_pos again] at checked
      cases checked
    rw [if_neg again] at checked
    by_cases orphan : model.issuer client.issuer = none
    · rw [if_pos orphan] at checked
      cases checked
    rw [if_neg orphan] at checked
    obtain ⟨audiences, own, later, passed, rfl⟩ : ∃ audiences,
        (if touched .client client.name then node.checkClient client else .ok client.audiences) = .ok audiences ∧
          ∃ later, node.checkClients touched model (client.name :: names) rest = .ok later ∧
            judged = (client, audiences) :: later := by
      split_ifs at checked with judgedNow
      · obtain ⟨audiences, own, checked⟩ := Outcome.bind_eq_ok.mp checked
        obtain ⟨later, checked, made⟩ := Outcome.bind_eq_ok.mp checked
        exact ⟨audiences, by rw [if_pos judgedNow, own], later, checked, (Except.ok.inj made).symm⟩
      · obtain ⟨audiences, own, checked⟩ := Outcome.bind_eq_ok.mp checked
        obtain ⟨later, checked, made⟩ := Outcome.bind_eq_ok.mp checked
        exact ⟨audiences, by rw [if_neg judgedNow, own], later, checked, (Except.ok.inj made).symm⟩
    obtain ⟨same, audiencesOf, fresh, distinct⟩ := ih passed
    refine ⟨by simp [same], List.forall_mem_cons.mpr ⟨?_, audiencesOf⟩, List.forall_mem_cons.mpr ⟨?_, ?_⟩,
      List.pairwise_cons.mpr ⟨?_, distinct⟩⟩
    · dsimp only
      split_ifs at own ⊢
      · exact checkClient_audiences own
      · exact (Except.ok.inj own).symm
    · intro name member
      simpa using fun found => again (List.any_eq_true.mpr ⟨name, member, found⟩)
    · exact fun other member name there => fresh other member name (List.mem_cons_of_mem _ there)
    · exact fun other member => fresh other member client.name List.mem_cons_self

end IdentityNode

/-- No pair that the loop over the pairs passed overlaps. -/
theorem checkPairs_ok {touched : Touched} {judged : List (IdentityClient × List Text)}
    (checked : checkPairs touched judged = .ok ()) : judged.Pairwise fun a b => overlaps touched a b = false := by
  induction judged with
  | nil => exact List.Pairwise.nil
  | cons first rest ih =>
    rw [checkPairs] at checked
    split at checked
    · cases checked
    · rename_i absent
      refine List.pairwise_cons.mpr ⟨?_, ih checked⟩
      exact fun other member => by simpa using List.find?_eq_none.mp absent other member

theorem intersects_iff {a b : List Text} : intersects a b = true ↔ ∃ x ∈ a, x ∈ b := by
  simp [intersects]

theorem intersects_comm (a b : List Text) : intersects a b = intersects b a := by
  rw [Bool.eq_iff_iff, intersects_iff, intersects_iff]
  exact ⟨fun ⟨x, left, right⟩ => ⟨x, right, left⟩, fun ⟨x, left, right⟩ => ⟨x, right, left⟩⟩

theorem ciEquals_comm (a b : Text) : Text.ciEquals a b = Text.ciEquals b a := by
  rw [Bool.eq_iff_iff]
  exact ⟨Text.ciEquals_symm, Text.ciEquals_symm⟩

theorem overlaps_comm (touched : Touched) (a b : IdentityClient × List Text) :
    overlaps touched a b = overlaps touched b a := by
  unfold overlaps
  rw [ciEquals_comm a.1.issuer, intersects_comm a.2, intersects_comm a.1.azp, Bool.or_comm (touched .client a.1.name),
    Bool.and_comm (decide (a.1.conditions = [])), Bool.and_comm (decide (a.1.azp = []))]
  simp only [eq_comm]

/-! ## Clients told apart -/

/-- Of one issuer, without conditions and equally specific. -/
def Comparable (a b : IdentityClient) : Prop :=
  Text.ciEquals a.issuer b.issuer = true ∧ a.conditions = [] ∧ b.conditions = [] ∧ a.specificity = b.specificity

/-- No audience and authorized party fits both. -/
def Apart (node : IdentityNode) (a b : IdentityClient) : Prop :=
  Comparable a b → intersects (node.allAudiences a) (node.allAudiences b) = true →
    ¬ ((a.azp = [] ∧ b.azp = []) ∨ intersects a.azp b.azp = true)

/-- A token with one audience is accepted by one of two clients told apart, or by none. -/
theorem Apart.accepts {node : IdentityNode} {a b : IdentityClient} {claims : TokenClaims} {audience : Text}
    (apart : Apart node a b) (single : claims.audiences = [audience]) (comparable : Comparable a b) :
    ¬ (a.accepts (node.allAudiences a) claims = true ∧ b.accepts (node.allAudiences b) claims = true) := by
  rintro ⟨first, second⟩
  simp only [IdentityClient.accepts, Bool.and_eq_true, intersects_iff, single, List.mem_singleton, exists_eq_left,
    Bool.or_eq_true, decide_eq_true_eq, List.contains_iff_mem] at first second
  obtain ⟨⟨⟨⟨_, hasA⟩, partyA⟩, _⟩, _⟩ := first
  obtain ⟨⟨⟨⟨_, hasB⟩, partyB⟩, _⟩, _⟩ := second
  refine apart comparable (intersects_iff.mpr ⟨audience, hasA, hasB⟩) ?_
  obtain ⟨-, noneA, noneB, specific⟩ := comparable
  simp only [IdentityClient.specificity, noneA, noneB, ne_eq, not_true_eq_false, or_false] at specific
  rcases partyA with emptyA | inA
  · rcases partyB with emptyB | inB
    · exact .inl ⟨emptyA, emptyB⟩
    · have some : b.azp ≠ [] := List.ne_nil_of_mem inB
      simp only [emptyA, some, not_true_eq_false, not_false_eq_true, if_true, if_false] at specific
      split_ifs at specific
      omega
  · rcases partyB with emptyB | inB
    · have some : a.azp ≠ [] := List.ne_nil_of_mem inA
      simp only [emptyB, some, not_true_eq_false, not_false_eq_true, if_true, if_false] at specific
      split_ifs at specific
      omega
    · exact .inr (intersects_iff.mpr ⟨_, inA, inB⟩)

/-! ## A client that a write did not change -/

theorem storedConditions_eq_nil {conditions : List ClaimCondition} : storedConditions conditions = [] ↔ conditions = [] := by
  simp [storedConditions, bracketed]

namespace IdentityNode

variable {node : IdentityNode}

theorem secretService_congr {a b service : Text} (same : Text.ciEquals a b = true) :
    node.secretService a = .ok service → node.secretService b = .ok service := by
  have empty : a = [] ↔ b = [] := by
    rw [← Text.fold_eq_nil, ← Text.fold_eq_nil (a := b), Text.ciEquals_iff.mp same]
  have test : (Text.ciEquals · a) = (Text.ciEquals · b) := by
    funext service
    exact Text.ciEquals_congr_right same service
  intro found
  unfold secretService at found ⊢
  by_cases bare : a = []
  · rw [if_neg (not_not.mpr bare)] at found
    rwa [if_neg (not_not.mpr (empty.mp bare))]
  · rw [if_pos bare, test] at found
    rw [if_pos fun other => bare (empty.mpr other)]
    split at found
    · exact found
    · cases found

theorem secretAudiences_congr {a b : IdentityClient} (secret : a.secret = b.secret)
    (service : Text.ciEquals a.secretService b.secretService = true) :
    node.secretAudiences a = node.secretAudiences b := by
  unfold secretAudiences readIdentitySecret
  rw [secret]
  cases found : node.secretService a.secretService with
  | ok resolved => rw [secretService_congr service found]
  | error e =>
    cases found' : node.secretService b.secretService with
    | ok resolved =>
      rw [secretService_congr (Text.ciEquals_symm service) found'] at found
      cases found
    | error e' => simp [Except.map]

end IdentityNode

/-- A client that stayed the same is told apart as it was. -/
theorem Apart.same {node : IdentityNode} {a b a' b' : IdentityClient} (apart : Apart node a b) (sameA : a.same a' = true)
    (sameB : b.same b' = true) : Apart node a' b' := by
  have alike : ∀ {c c' : IdentityClient}, c.same c' = true → Text.ciEquals c.issuer c'.issuer = true ∧ c.azp = c'.azp ∧
      (c.conditions = [] ↔ c'.conditions = []) ∧ c.specificity = c'.specificity ∧
      node.allAudiences c = node.allAudiences c' := by
    intro c c' same
    simp only [IdentityClient.same, Bool.and_eq_true, decide_eq_true_eq] at same
    obtain ⟨⟨⟨⟨⟨⟨⟨⟨⟨⟨⟨⟨⟨⟨issuer, audiences⟩, azp⟩, conditions⟩, _⟩, _⟩, _⟩, _⟩, _⟩, _⟩, _⟩, _⟩, secret⟩, service⟩, short⟩ := same
    have none : c.conditions = [] ↔ c'.conditions = [] := by
      rw [← storedConditions_eq_nil, conditions, storedConditions_eq_nil]
    refine ⟨issuer, azp, none, ?_, ?_⟩
    · simp only [IdentityClient.specificity, azp, ne_eq, none, short]
    · simp only [IdentityNode.allAudiences, IdentityNode.secretAudiences_congr secret service, audiences]
  obtain ⟨issuerA, azpA, noneA, specificA, audiencesA⟩ := alike sameA
  obtain ⟨issuerB, azpB, noneB, specificB, audiencesB⟩ := alike sameB
  rintro ⟨issuer, conditionsA, conditionsB, specific⟩ meet
  rw [← azpA, ← azpB]
  refine apart ⟨?_, noneA.mpr conditionsA, noneB.mpr conditionsB, ?_⟩ ?_
  · exact Text.ciEquals_trans issuerA (Text.ciEquals_trans issuer (Text.ciEquals_symm issuerB))
  · rw [specificA, specific, specificB]
  · rw [audiencesA, audiencesB, meet]

/-! ## Runs of writes -/

/-- A write that touches `a` and not `b`, whose audiences are in its secret. -/
def Blind (node : IdentityNode) (before edited : IdentityModel) (a b : Text) : Prop :=
  before.touched edited .client a = true ∧ before.touched edited .client b = false ∧
    ∃ client ∈ edited.clients, Text.ciEquals client.name b = true ∧ node.secretAudiences client ≠ []

instance (node : IdentityNode) (before edited : IdentityModel) (a b : Text) : Decidable (Blind node before edited a b) :=
  inferInstanceAs (Decidable (_ ∧ _ ∧ _))

/-- No write of the run is blind to one of two clients. -/
def Seen (node : IdentityNode) (writes : List IdentityModel) (a b : Text) : Prop :=
  Runs.Along node.write (fun before edited => ¬ Blind node before edited a b ∧ ¬ Blind node before edited b a) {} writes

/-- The clients of two names are told apart. -/
def Separated (node : IdentityNode) (a b : Text) (model : IdentityModel) : Prop :=
  ∀ c ∈ model.clients, ∀ d ∈ model.clients, Text.ciEquals c.name a = true → Text.ciEquals d.name b = true → Apart node c d

theorem touched_congr {before edited : IdentityModel} {a b : Text} (same : Text.ciEquals a b = true) :
    before.touched edited .client a = before.touched edited .client b := by
  have test : (fun client : IdentityClient => Text.ciEquals client.name a) = fun client => Text.ciEquals client.name b := by
    funext client
    exact Text.ciEquals_congr_right same client.name
  simp only [IdentityModel.touched, test]

/-- What a write kept: each client settled, judged by what the write touched. -/
theorem write_some {node : IdentityNode} {before edited after : IdentityModel} (written : node.write before edited = some after) :
    edited.clients.mapM (node.settleClient before) = .ok after.clients ∧ ∃ judged,
      node.checkClients (before.touched edited) after [] after.clients = .ok judged ∧
        checkPairs (before.touched edited) judged = .ok () := by
  unfold IdentityNode.write at written
  have ran : node.editIdentity before edited = .ok after := by
    cases answer : node.editIdentity before edited with
    | error e => simp [answer, Except.toOption] at written
    | ok model =>
      simp only [answer, Except.toOption, Option.some.injEq] at written
      rw [written]
  obtain ⟨issuers, _, ran⟩ := Outcome.bind_eq_ok.mp ran
  obtain ⟨clients, settled, ran⟩ := Outcome.bind_eq_ok.mp ran
  obtain ⟨_, checked, ran⟩ := Outcome.bind_eq_ok.mp ran
  obtain rfl := Except.ok.inj ran
  obtain ⟨_, _, checked⟩ := Outcome.bind_eq_ok.mp checked
  obtain ⟨judged, passed, checked⟩ := Outcome.bind_eq_ok.mp checked
  obtain ⟨_, pairs, _⟩ := Outcome.bind_eq_ok.mp checked
  exact ⟨settled, judged, passed, pairs⟩

private theorem mem_mapM {α β ε : Type} {f : α → Except ε β} {items : List α} {answers : List β} {answer : β}
    (mapped : items.mapM f = .ok answers) (member : answer ∈ answers) : ∃ item ∈ items, f item = .ok answer := by
  induction items generalizing answers with
  | nil =>
    obtain rfl := Except.ok.inj mapped
    cases member
  | cons item rest ih =>
    rw [List.mapM_cons] at mapped
    obtain ⟨first, answered, mapped⟩ := Outcome.bind_eq_ok.mp mapped
    obtain ⟨later, rested, made⟩ := Outcome.bind_eq_ok.mp mapped
    obtain rfl := Outcome.pure_eq_ok.mp made
    rcases List.mem_cons.mp member with rfl | there
    · exact ⟨item, List.mem_cons_self, answered⟩
    · obtain ⟨other, among, found⟩ := ih rested there
      exact ⟨other, List.mem_cons_of_mem _ among, found⟩

/-- A client the write did not touch is one of the edited model, and the same as one there was. -/
theorem untouched_client {node : IdentityNode} {before edited : IdentityModel} {clients : List IdentityClient}
    {client : IdentityClient} (settled : edited.clients.mapM (node.settleClient before) = .ok clients)
    (member : client ∈ clients) (untouched : before.touched edited .client client.name = false) :
    client ∈ edited.clients ∧ ∃ old ∈ before.clients, Text.ciEquals old.name client.name = true ∧ old.same client = true := by
  obtain ⟨source, among, made⟩ := mem_mapM settled member
  have name : source.name = client.name := by
    unfold IdentityNode.settleClient at made
    split_ifs at made
    · cases found : node.secretService source.secretService with
      | error e => simp [found, Except.map] at made
      | ok service =>
        simp only [found, Except.map, Except.ok.injEq] at made
        rw [← made]
    · exact congrArg IdentityClient.name (Except.ok.inj made)
  have unchanged : before.changedClient source = false := by
    by_contra changed
    rw [Bool.not_eq_false] at changed
    have found : before.touched edited .client client.name = true :=
      List.any_eq_true.mpr ⟨source, List.mem_filter.mpr ⟨among, changed⟩, by simp [name]⟩
    rw [untouched] at found
    cases found
  have kept : source = client := by
    rw [IdentityNode.settleClient, if_neg (by simp [unchanged])] at made
    exact Except.ok.inj made
  subst kept
  refine ⟨among, ?_⟩
  simp only [IdentityModel.changedClient, Bool.not_eq_false', Option.any_eq_true] at unchanged
  obtain ⟨old, found, same⟩ := unchanged
  exact ⟨old, List.mem_of_find?_eq_some found, by simpa using List.find?_some found, same⟩

/-- A write that is blind to neither keeps two clients apart. -/
theorem Separated.write {node : IdentityNode} {before edited after : IdentityModel} {a b : Text}
    (differ : Text.ciEquals a b = false) (held : Separated node a b before)
    (seen : ¬ Blind node before edited a b ∧ ¬ Blind node before edited b a)
    (written : node.write before edited = some after) : Separated node a b after := by
  obtain ⟨settled, judged, checked, pairs⟩ := write_some written
  obtain ⟨clients, audiences, -, -⟩ := IdentityNode.checkClients_ok checked
  intro c memberC d memberD nameC nameD
  -- an untouched client's stored audiences are all it has when the write touched the other
  have compared : ∀ {c d : IdentityClient} {other own : Text}, c ∈ after.clients → Text.ciEquals c.name own = true →
      Text.ciEquals d.name other = true → ¬ Blind node before edited other own →
      (before.touched edited .client c.name || before.touched edited .client d.name) = true →
      (if before.touched edited .client c.name then node.allAudiences c else c.audiences) = node.allAudiences c := by
    intro c d other own member nameC nameD seen either
    split_ifs with touched
    · rfl
    · rw [Bool.not_eq_true] at touched
      rw [touched, Bool.false_or, touched_congr nameD] at either
      have bare : node.secretAudiences c = [] := by
        by_contra some
        refine seen ⟨either, ?_, c, (untouched_client settled member touched).1, nameC, some⟩
        rw [← touched_congr nameC, touched]
      simp [IdentityNode.allAudiences, bare]
  by_cases either : (before.touched edited .client c.name || before.touched edited .client d.name) = true
  · have listed : ∀ {e : IdentityClient}, e ∈ after.clients → ∃ pair ∈ judged, pair.1 = e := by
      intro e member
      rw [← clients] at member
      exact List.mem_map.mp member
    obtain ⟨first, inFirst, rfl⟩ := listed memberC
    obtain ⟨second, inSecond, rfl⟩ := listed memberD
    have distinct : first ≠ second := by
      rintro rfl
      have same := Text.ciEquals_trans (Text.ciEquals_symm nameC) nameD
      rw [differ] at same
      cases same
    have : Std.Symm fun x y => overlaps (before.touched edited) x y = false := ⟨fun x y clear => by rw [overlaps_comm, clear]⟩
    have passed := (checkPairs_ok pairs).forall inFirst inSecond distinct
    have audiencesC := audiences first inFirst
    have audiencesD := audiences second inSecond
    rw [compared memberC nameC nameD seen.2 either] at audiencesC
    rw [compared memberD nameD nameC seen.1 (by rw [Bool.or_comm, either])] at audiencesD
    rintro ⟨issuer, noneC, noneD, specific⟩ meet party
    rw [← audiencesC, ← audiencesD] at meet
    have clash : overlaps (before.touched edited) first second = true := by
      simp only [overlaps, issuer, specific, noneC, noneD, either, meet, decide_true, Bool.true_and, Bool.or_eq_true,
        Bool.and_eq_true, decide_eq_true_eq]
      exact party
    rw [passed] at clash
    cases clash
  · rw [Bool.not_eq_true, Bool.or_eq_false_iff] at either
    obtain ⟨-, oldC, inC, sameNameC, sameC⟩ := untouched_client settled memberC either.1
    obtain ⟨-, oldD, inD, sameNameD, sameD⟩ := untouched_client settled memberD either.2
    exact (held oldC inC oldD inD (Text.ciEquals_trans sameNameC nameC)
      (Text.ciEquals_trans sameNameD nameD)).same sameC sameD

/-- No name is given to two clients. -/
def NamesDistinct (model : IdentityModel) : Prop :=
  model.clients.Pairwise fun a b => Text.ciEquals a.name b.name = false

theorem names_distinct {node : IdentityNode} {writes : List IdentityModel} {model : IdentityModel}
    (reached : Runs.run node.write {} writes = some model) : NamesDistinct model := by
  have start : NamesDistinct {} := List.Pairwise.nil
  have keeps : ∀ {before after edited : IdentityModel}, NamesDistinct before → True →
      node.write before edited = some after → NamesDistinct after := by
    intro before after edited _ _ written
    obtain ⟨-, judged, checked, -⟩ := write_some written
    exact (IdentityNode.checkClients_ok checked).2.2.2
  exact Runs.run_keeps node.write _ keeps start (Runs.along_true _ _ _) reached

/-- After every run of accepted writes, no two comparable clients accept one token, when no write of the run
touched one of them while the other, not touched, kept its audiences in its secret. Whatever clients accept
a token, the one picked is the one of greatest specificity and none as specific, or several are greatest,
in any order of the clients. -/
theorem identity_routing (node : IdentityNode) (writes : List IdentityModel) (model : IdentityModel)
    (reached : Runs.run node.write {} writes = some model) :
    (model.clients.Pairwise fun a b => Seen node writes a.name b.name → Comparable a b →
      ∀ (claims : TokenClaims) (audience : Text), claims.audiences = [audience] →
        ∀ (ra rb : ResolvedClient), node.resolveClient a = .ok ra → node.resolveClient b = .ok rb →
          ¬ (a.accepts ra.audiences claims = true ∧ b.accepts rb.audiences claims = true)) ∧
      ∀ (any : IdentityModel) (issuer : Text) (claims : TokenClaims) (candidates : List IdentityClient),
        node.candidates issuer claims any.clients = .ok candidates →
          (∀ client, (routed candidates).1 = some client ↔ UniqueGreatest candidates client) ∧
          ((routed candidates).2 = true ↔ Tied candidates) ∧
          ∀ clients, any.clients.Perm clients → ∃ others, node.candidates issuer claims clients = .ok others ∧
            routed others = routed candidates := by
  refine ⟨?_, ?_⟩
  · refine (names_distinct reached).imp_of_mem ?_
    intro a b memberA memberB differ seen comparable claims audience single ra rb resolvedA resolvedB
    have start : Separated node a.name b.name {} := fun c member => by cases member
    have separated : Separated node a.name b.name model :=
      Runs.run_keeps node.write _ (fun held met written => Separated.write differ held met written) start seen reached
    rw [IdentityNode.resolveClient_audiences resolvedA, IdentityNode.resolveClient_audiences resolvedB]
    exact (separated a memberA b memberB (by simp) (by simp)).accepts single comparable
  · intro any issuer claims candidates found
    refine ⟨fun client => routed_eq_some_iff, routed_ambiguous_iff, ?_⟩
    intro clients same
    obtain ⟨resolved, rfl⟩ := IdentityNode.candidates_eq_ok.mp found
    refine ⟨_, IdentityNode.candidates_eq_ok.mpr ⟨?_, rfl⟩, ?_⟩
    · exact fun client member => resolved client (same.mem_iff.mpr member)
    · exact routed_perm (same.symm.filter _)

/-- A node whose one service keeps one client's audiences. -/
def vaultNode : IdentityNode where
  services := ["vault".toList]
  secret := fun service name type =>
    if service = "vault".toList ∧ name = "s".toList ∧ type = "oidc_client".toList then
      some fun field => if field = "audiences".toList then some "api".toList else none
    else none
  privileged := fun _ => false
  jsonList := fun _ => none

def secretClient : IdentityClient :=
  { name := "a".toList, issuer := "kc".toList, rolesFrom := ["r".toList], secretService := "vault".toList,
    secret := "s".toList }

def openClient (name audience : String) : IdentityClient :=
  { name := name.toList, issuer := "kc".toList, audiences := [audience.toList], rolesFrom := ["r".toList] }

def oneIssuer (clients : List IdentityClient) : IdentityModel :=
  { issuers := [{ name := "kc".toList, url := "https://kc".toList }], clients }

theorem identity_routing_open :
    Runs.run vaultNode.write {} [oneIssuer [openClient "a" "web"], oneIssuer [openClient "a" "web", openClient "b" "api"]] =
        some (oneIssuer [openClient "a" "web", openClient "b" "api"]) ∧
      ¬ ((openClient "a" "web").accepts ["web".toList] { audiences := ["api".toList] } = true ∧
        (openClient "b" "api").accepts ["api".toList] { audiences := ["api".toList] } = true) := by
  have reached : Runs.run vaultNode.write {}
      [oneIssuer [openClient "a" "web"], oneIssuer [openClient "a" "web", openClient "b" "api"]] =
        some (oneIssuer [openClient "a" "web", openClient "b" "api"]) := by decide
  refine ⟨reached, ?_⟩
  have pairs := (identity_routing vaultNode _ _ reached).1
  have seen : Seen vaultNode [oneIssuer [openClient "a" "web"], oneIssuer [openClient "a" "web", openClient "b" "api"]]
      "a".toList "b".toList := by
    unfold Seen
    decide
  exact (List.pairwise_cons.mp pairs).1 (openClient "b" "api") (by simp) seen ⟨by decide, rfl, rfl, rfl⟩
    { audiences := ["api".toList] } "api".toList rfl { audiences := ["web".toList], clientId := [] }
    { audiences := ["api".toList], clientId := [] } rfl rfl

/-- A client with its audiences in its secret, then another with the same audience on itself: the second write
compares it with none. -/
theorem identity_routing_blind :
    ¬ ∀ (node : IdentityNode) (writes : List IdentityModel) (model : IdentityModel),
      Runs.run node.write {} writes = some model →
        model.clients.Pairwise fun a b => Comparable a b →
          ∀ (claims : TokenClaims) (audience : Text), claims.audiences = [audience] →
            ∀ (ra rb : ResolvedClient), node.resolveClient a = .ok ra → node.resolveClient b = .ok rb →
              ¬ (a.accepts ra.audiences claims = true ∧ b.accepts rb.audiences claims = true) := by
  intro every
  have reached : Runs.run vaultNode.write {} [oneIssuer [secretClient], oneIssuer [secretClient, openClient "b" "api"]] =
      some (oneIssuer [secretClient, openClient "b" "api"]) := by decide
  have pairs := every vaultNode _ _ reached
  have resolved : vaultNode.resolveClient secretClient = .ok { audiences := ["api".toList], clientId := [] } := by
    rfl
  refine (List.pairwise_cons.mp pairs).1 (openClient "b" "api") (by simp) ⟨by decide, rfl, rfl, rfl⟩
    { audiences := ["api".toList] } "api".toList rfl { audiences := ["api".toList], clientId := [] }
    { audiences := ["api".toList], clientId := [] } resolved rfl ⟨by decide, by decide⟩

end DuckAcl
