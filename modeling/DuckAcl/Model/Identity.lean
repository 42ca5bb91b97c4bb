import DuckAcl.Library.Outcome
import DuckAcl.Library.Runs
import DuckAcl.Library.Text

/-! # Issuers, clients and mappings

A token is routed to an issuer by its URL and then to one client of that issuer: the most specific of those
that accept it (`acl_identity.cpp`, `acl_identity_store.cpp`). A write edits the model, names what it
touched, and is kept when `ValidateIdentity` accepts the result.

The services attached, what they keep, the roles that hold an administration scope and the reading of a
JSON list are parameters. A token is the claims the code reads of it.
-/

namespace DuckAcl

inductive ConditionOp where
  | equals
  | oneOf
  | contains
  | like
deriving DecidableEq, Repr

/-- `ClaimCondition`: a line of a client's REQUIRE. -/
structure ClaimCondition where
  path : Text
  op : ConditionOp := .equals
  values : List Text
deriving DecidableEq, Repr

structure AttributeDef where
  name : Text
  paths : List Text := []
  isConstant : Bool := false
  constant : Text := []
deriving DecidableEq, Repr

structure IdentityIssuer where
  name : Text
  url : Text := []
  secretService : Text := []
  secret : Text := []
deriving DecidableEq, Repr

/-- `IdentityClient`: no audiences means they are in its secret. -/
structure IdentityClient where
  name : Text
  issuer : Text
  audiences : List Text := []
  azp : List Text := []
  conditions : List ClaimCondition := []
  rolesFrom : List Text := []
  rolesConstant : List Text := []
  unmappedAsRole : Bool := false
  attributes : List AttributeDef := []
  subject : List Text := []
  tokenType : Text := []
  clientId : Text := []
  flows : List Text := []
  secretService : Text := []
  secret : Text := []
  implicit : Bool := false
deriving DecidableEq, Repr

structure IdentityMapping where
  scopeKind : Text
  scopeName : Text
  source : Text
  externalValue : Text
  role : Text
deriving DecidableEq, Repr

structure IdentityModel where
  issuers : List IdentityIssuer := []
  clients : List IdentityClient := []
  mappings : List IdentityMapping := []
deriving DecidableEq, Repr

namespace IdentityModel

/-- `Issuer`. -/
def issuer (model : IdentityModel) (name : Text) : Option IdentityIssuer :=
  model.issuers.find? (Text.ciEquals ·.name name)

/-- `Client`. -/
def client (model : IdentityModel) (name : Text) : Option IdentityClient :=
  model.clients.find? (Text.ciEquals ·.name name)

end IdentityModel

/-- What a secret says, by field. -/
abbrev SecretFields := Text → Option Text

/-- The node around the model. -/
structure IdentityNode where
  services : List Text
  secret : Text → Text → Text → Option SecretFields
  privileged : Text → Bool
  jsonList : Text → Option (List Text)

namespace IdentityNode

/-- `SecretService`. -/
def secretService (node : IdentityNode) (named : Text) : Except Text Text :=
  if named ≠ [] then
    match node.services.find? (Text.ciEquals · named) with
    | some service => .ok service
    | none =>
      .error ("acl: \"".toList ++ named ++ "\" is not a secrets service attached to this node - secrets are managed ".toList ++
        "through the ACL only in a catalog of type tresor".toList)
  else
    match node.services with
    | [] =>
      .error ("acl: no secrets service is attached to this node (a catalog of type tresor) - ".toList ++
        "secrets are not managed through the ACL here".toList)
    | [service] => .ok service
    | several =>
      .error ("acl: several secrets services are attached to this node (".toList ++ ", ".toList.intercalate several ++
        ") - name one: IN <catalog> (CREATE SECRET), FROM <catalog> (DROP / GRANT / REVOKE SECRET)".toList)

/-- `ReadIdentitySecret`. -/
def readIdentitySecret (node : IdentityNode) (service name type : Text) : Except Text (Option SecretFields) :=
  (node.secretService service).map fun resolved => node.secret resolved name type

/-- `ParseStoredList`. -/
def parseStoredList (node : IdentityNode) (text : Text) : Except Text (List Text) :=
  match Text.trim text with
  | [] => .ok []
  | '[' :: rest =>
    match node.jsonList ('[' :: rest) with
    | some values => .ok values
    | none => .error ("acl: a stored list is not valid JSON: ".toList ++ '[' :: rest)
  | trimmed => .ok (((trimmed.splitOn ',').map Text.trim).filter (· ≠ []))

end IdentityNode

/-- `Field`. -/
def SecretFields.field (fields : SecretFields) (name : String) : Text := (fields name.toList).getD []

/-! ## The stored shapes -/

/-- A hexadecimal digit. -/
def hexDigit (n : ℕ) : Char := if n < 10 then Char.ofNat (48 + n) else Char.ofNat (87 + n)

/-- `Quote`. -/
def jsonQuote (value : Text) : Text :=
  '"' :: (value.flatMap fun c =>
    match c with
    | '"' => ['\\', '"']
    | '\\' => ['\\', '\\']
    | '\n' => ['\\', 'n']
    | '\r' => ['\\', 'r']
    | '\t' => ['\\', 't']
    | c => if c.toNat < 32 then ['\\', 'u', '0', '0', hexDigit (c.toNat / 16), hexDigit (c.toNat % 16)] else [c]) ++ ['"']

/-- Items between brackets; nothing for none. -/
def bracketed (items : List Text) : Text :=
  if items = [] then [] else '[' :: [','].intercalate items ++ [']']

/-- `StoredList`. -/
def storedList (values : List Text) : Text := bracketed (values.map jsonQuote)

/-- `OpName`. -/
def ConditionOp.text : ConditionOp → Text
  | .equals => "eq".toList
  | .oneOf => "in".toList
  | .contains => "contains".toList
  | .like => "like".toList

/-- `StoredConditions`. -/
def storedConditions (conditions : List ClaimCondition) : Text :=
  bracketed (conditions.map fun condition =>
    "\x7b\"path\":".toList ++ jsonQuote condition.path ++ ",\"op\":".toList ++ jsonQuote condition.op.text ++
      ",\"values\":".toList ++ storedList condition.values ++ "\x7d".toList)

/-- `StoredAttributes`. -/
def storedAttributes (attributes : List AttributeDef) : Text :=
  bracketed (attributes.map fun each =>
    "\x7b\"name\":".toList ++ jsonQuote each.name ++
      (if each.isConstant then ",\"constant\":".toList ++ jsonQuote each.constant
        else ",\"paths\":".toList ++ storedList each.paths) ++ "\x7d".toList)

/-! ## Accepting a token -/

/-- `TokenClaims`, with the header's type. -/
structure TokenClaims where
  audiences : List Text
  azp : Text := []
  ver : Text := []
  appid : Text := []
  strings : Text → List Text := fun _ => []
  tokenType : Text := []

/-- `AuthorizedParty`: only a version 1 token names it `appid`. -/
def TokenClaims.authorizedParty (claims : TokenClaims) : Text :=
  if claims.azp ≠ [] then claims.azp else if claims.ver = "1.0".toList then claims.appid else []

/-- `Intersects`. -/
def intersects (a b : List Text) : Bool := a.any fun x => b.any (x = ·)

/-- What a pattern's next run of the loop meets: a mismatch, the end of the value, or a `%`. -/
inductive LikeRun where
  | mismatch
  | ended (pattern : Text)
  | star (value pattern : Text)
deriving DecidableEq, Repr

def likeRun : Text → Text → LikeRun
  | [], pattern => .ended pattern
  | v :: value, p :: pattern =>
    if p = '%' then .star (v :: value) pattern
    else if p = '_' ∨ p = v then likeRun value pattern
    else .mismatch
  | _ :: _, [] => .mismatch

theorem likeRun_star {value pattern value' pattern' : Text} (met : likeRun value pattern = .star value' pattern') :
    pattern'.length < pattern.length := by
  induction value generalizing pattern with
  | nil => simp [likeRun] at met
  | cons v value ih =>
    cases pattern with
    | nil => simp [likeRun] at met
    | cons p pattern =>
      rw [likeRun] at met
      split_ifs at met
      · obtain ⟨_, rfl⟩ := LikeRun.star.inj met
        simp
      · exact (ih met).trans (Nat.lt_succ_self _)

/-- The loop of `LikeMatches` after a `%`: a mismatch goes back to it, with one more character passed. -/
def likeAfter (pattern value : Text) : Bool :=
  match met : likeRun value pattern with
  | .ended rest => rest.all (· = '%')
  | .star value' pattern' =>
    have := likeRun_star met
    likeAfter pattern' value'
  | .mismatch =>
    match value with
    | [] => false
    | _ :: later => likeAfter pattern later
termination_by (pattern.length, value.length)

/-- `LikeMatches`. -/
def likeMatches (value pattern : Text) : Bool :=
  match likeRun value pattern with
  | .ended rest => rest.all (· = '%')
  | .star value' pattern' => likeAfter pattern' value'
  | .mismatch => false

/-- Whether a condition holds of a token. -/
def ClaimCondition.holds (condition : ClaimCondition) (claims : TokenClaims) : Bool :=
  match condition.op, claims.strings condition.path with
  | .contains, values => condition.values.head?.any (values.contains ·)
  | .equals, [value] => condition.values.head? = some value
  | .oneOf, [value] => condition.values.contains value
  | .like, [value] => condition.values.head?.any (likeMatches value)
  | _, _ => false

/-- A token's type without the media type's start. -/
def bareType (type : Text) : Text :=
  let lower := Text.fold type
  if "application/".toList.isPrefixOf lower then lower.drop 12 else lower

/-- `ClientAccepts`. -/
def IdentityClient.accepts (client : IdentityClient) (audiences : List Text) (claims : TokenClaims) : Bool :=
  audiences ≠ [] && intersects claims.audiences audiences &&
    (client.azp = [] || client.azp.contains claims.authorizedParty) && client.conditions.all (·.holds claims) &&
    (client.tokenType = [] || bareType claims.tokenType = bareType client.tokenType)

/-- `ClientSpecificity`. -/
def IdentityClient.specificity (client : IdentityClient) : ℕ :=
  if client.azp ≠ [] ∨ client.conditions ≠ [] then 2 else if client.implicit then 0 else 1

/-- The loop of `PickClient` from an index on: the best with its specificity, and whether another ties. -/
def pickFrom : ℕ → Option (ℕ × ℕ) → Bool → List ℕ → Option (ℕ × ℕ) × Bool
  | _, best, ambiguous, [] => (best, ambiguous)
  | i, none, _, specificity :: rest => pickFrom (i + 1) (some (i, specificity)) false rest
  | i, some best, ambiguous, specificity :: rest =>
    if best.2 < specificity then pickFrom (i + 1) (some (i, specificity)) false rest
    else if specificity = best.2 then pickFrom (i + 1) (some best) true rest
    else pickFrom (i + 1) (some best) ambiguous rest

/-- `PickClient`: none and ambiguous, or the index. -/
def pickClient (specificities : List ℕ) : Option ℕ × Bool :=
  let picked := pickFrom 0 none false specificities
  if picked.2 then (none, true) else (picked.1.map Prod.fst, false)

/-- `ResolvedClient`. -/
structure ResolvedClient where
  audiences : List Text
  clientId : Text
  clientSecret : Text := []
deriving DecidableEq, Repr

/-- `ResolveClient`: what a client says together with its secret; two homes for one parameter are refused. -/
def IdentityNode.resolveClient (node : IdentityNode) (client : IdentityClient) : Except Text ResolvedClient :=
  if client.secret = [] then .ok { audiences := client.audiences, clientId := client.clientId }
  else do
    match ← node.readIdentitySecret client.secretService client.secret "oidc_client".toList with
    | none =>
      .error ("the secret of client \"".toList ++ client.name ++ "\" (".toList ++ client.secretService ++
        '.' :: client.secret ++ ") cannot be read".toList)
    | some fields =>
      let audiences ← node.parseStoredList (fields.field "audiences")
      let clientId := fields.field "client_id"
      if (audiences ≠ [] ∧ client.audiences ≠ []) ∨ (clientId ≠ [] ∧ client.clientId ≠ []) then
        .error ("client \"".toList ++ client.name ++ "\" has a parameter both on itself and in its secret".toList)
      else
        .ok
          { audiences := if audiences ≠ [] then audiences else client.audiences
            clientId := if clientId ≠ [] then clientId else client.clientId
            clientSecret := fields.field "client_secret" }

/-- The clients of an issuer that accept a token, in the order stored: the loop of `VerifyJwtPrincipal`. A
client whose secret cannot be read refuses the token. -/
def IdentityNode.candidates (node : IdentityNode) (issuer : Text) (claims : TokenClaims) :
    List IdentityClient → Except Text (List IdentityClient)
  | [] => .ok []
  | client :: rest =>
    if !Text.ciEquals client.issuer issuer then node.candidates issuer claims rest
    else do
      let connection ← node.resolveClient client
      let later ← node.candidates issuer claims rest
      if client.accepts connection.audiences claims then .ok (client :: later) else .ok later

/-- The client a token is routed to, if any, and whether several fit equally. -/
def routed (candidates : List IdentityClient) : Option IdentityClient × Bool :=
  let picked := pickClient (candidates.map (·.specificity))
  (picked.1.bind (candidates[·]?), picked.2)

/-! ## Roles -/

/-- `ClientRoles`. -/
structure ClientRoles where
  roles : List Text := []
  droppedPrivileged : List Text := []
deriving DecidableEq, Repr

/-- A role is told once, whatever its case, and a privileged one only by the client's own mapping. -/
def ClientRoles.add (isPrivileged : Text → Bool) (out : ClientRoles) (offer : Text × Bool) : ClientRoles :=
  if out.roles.any (Text.ciEquals · offer.1) then out
  else if !offer.2 && isPrivileged offer.1 then { out with droppedPrivileged := out.droppedPrivileged ++ [offer.1] }
  else { out with roles := out.roles ++ [offer.1] }

/-- A mapping at the client's own scope. -/
def IdentityMapping.own (mapping : IdentityMapping) (client : IdentityClient) : Bool :=
  mapping.scopeKind = "client".toList && Text.ciEquals mapping.scopeName client.name

/-- A mapping at the scope of the client's issuer. -/
def IdentityMapping.issuerWide (mapping : IdentityMapping) (client : IdentityClient) : Bool :=
  mapping.scopeKind = "issuer".toList && Text.ciEquals mapping.scopeName client.issuer

/-- The mapping tells a role for the value. -/
def IdentityMapping.tells (mapping : IdentityMapping) (client : IdentityClient) (raw : Text) : Bool :=
  (mapping.own client || mapping.issuerWide client) && decide (mapping.externalValue = raw)

/-- The loop over the mappings for one value, and the client's rule for a value none of them tells of. -/
def addCandidate (knownRole isPrivileged : Text → Bool) (model : IdentityModel) (client : IdentityClient) (out : ClientRoles)
    (raw : Text) : ClientRoles :=
  let mapped := model.mappings.foldl (fun out mapping =>
    if mapping.tells client raw then out.add isPrivileged (mapping.role, mapping.own client) else out) out
  if !model.mappings.any (·.tells client raw) && client.unmappedAsRole && knownRole raw then
    mapped.add isPrivileged (raw, false)
  else mapped

/-- `RolesFor`. -/
def rolesFor (model : IdentityModel) (client : IdentityClient) (claims : TokenClaims) (knownRole isPrivileged : Text → Bool) :
    ClientRoles :=
  let candidates := client.rolesFrom.flatMap claims.strings
  let out := candidates.foldl (addCandidate knownRole isPrivileged model client) {}
  client.rolesConstant.foldl (fun out role => out.add isPrivileged (role, false)) out

/-! ## Writing -/

/-- `SameIssuer`. -/
def IdentityIssuer.same (a b : IdentityIssuer) : Bool :=
  a.url = b.url && a.secret = b.secret && Text.ciEquals a.secretService b.secretService

/-- `SameClient`. -/
def IdentityClient.same (a b : IdentityClient) : Bool :=
  Text.ciEquals a.issuer b.issuer && a.audiences = b.audiences && a.azp = b.azp &&
    storedConditions a.conditions = storedConditions b.conditions && a.rolesFrom = b.rolesFrom &&
    a.rolesConstant = b.rolesConstant && a.unmappedAsRole = b.unmappedAsRole &&
    storedAttributes a.attributes = storedAttributes b.attributes && a.subject = b.subject &&
    a.tokenType = b.tokenType && a.clientId = b.clientId && a.flows = b.flows && a.secret = b.secret &&
    Text.ciEquals a.secretService b.secretService && a.implicit = b.implicit

/-- The same mapping: its name and role up to case. -/
def IdentityMapping.same (a b : IdentityMapping) : Bool :=
  a.scopeKind = b.scopeKind && Text.ciEquals a.scopeName b.scopeName && a.source = b.source &&
    a.externalValue = b.externalValue && Text.ciEquals a.role b.role

def IdentityMapping.key (mapping : IdentityMapping) : Text :=
  ['\x1f'].intercalate [mapping.scopeKind, mapping.scopeName, mapping.source, mapping.externalValue, mapping.role]

/-- The kinds of objects a write touches. -/
inductive IdentityKind where
  | issuer
  | client
  | mapping
deriving DecidableEq, Repr

/-- `touched`: whether a write changed an object, by kind and name. Unset is every object. -/
abbrev Touched := IdentityKind → Text → Bool

/-- `Bad`. -/
def bad {α : Type} (what : List Text) : Except Text α := .error ("acl admin: ".toList ++ what.flatten)

namespace IdentityNode

/-- What `ValidateIdentity` reads of a judged issuer's secret: the URL. -/
def judgedUrl (node : IdentityNode) (issuer : IdentityIssuer) : Except Text Text :=
  if issuer.secret = [] then .ok issuer.url
  else do
    match ← node.readIdentitySecret issuer.secretService issuer.secret "oidc_issuer".toList with
    | none =>
      bad ["issuer \"".toList, issuer.name, "\" names secret \"".toList, issuer.secret, "\", and ".toList,
        issuer.secretService, " has no secret of type oidc_issuer by that name".toList]
    | some fields =>
      if fields.field "url" ≠ [] ∧ issuer.url ≠ [] then
        bad ["issuer \"".toList, issuer.name,
          "\" has its URL both on the issuer and in its secret - keep it in one place".toList]
      else do
        let algs ← match fields "algs".toList with
          | none => .ok []
          | some text => node.parseStoredList text
        match algs.find? fun alg => alg ≠ "RS256".toList ∧ alg ≠ "ES256".toList ∧ alg ≠ "HS256".toList with
        | some alg =>
          bad ["issuer \"".toList, issuer.name, "\": ALGS names RS256, ES256 or HS256 - got \"".toList, alg, "\"".toList]
        | none =>
          if fields.field "keys" ≠ [] ∧ fields.field "keys_from" ≠ [] then
            bad ["issuer \"".toList, issuer.name, "\": its secret carries both KEYS and KEYS_FROM - keep one".toList]
          else .ok (if fields.field "url" ≠ [] then fields.field "url" else issuer.url)

/-- The loop over the issuers, with the names met and the issuer of each URL. -/
def checkIssuers (node : IdentityNode) (touched : Touched) : List Text → List (Text × Text) → List IdentityIssuer →
    Except Text Unit
  | _, _, [] => .ok ()
  | names, urls, issuer :: rest =>
    if issuer.name = [] then bad ["an issuer needs a name".toList]
    else if names.any (Text.ciEquals · issuer.name) then
      bad ["issuer \"".toList, issuer.name, "\" is defined twice".toList]
    else if issuer.secret ≠ [] ∧ touched .issuer issuer.name = false then
      node.checkIssuers touched (issuer.name :: names) urls rest
    else do
      let url ← node.judgedUrl issuer
      if url = [] then
        bad ["issuer \"".toList, issuer.name, "\" has no URL - write URL '<url>' or keep it in its secret".toList]
      else
        match urls.find? (Text.ciEquals ·.1 url) with
        | some taken =>
          bad ["issuers \"".toList, taken.2, "\" and \"".toList, issuer.name, "\" have the same URL \"".toList, url,
            "\" - one IdP is one issuer; tell its applications apart with clients".toList]
        | none => node.checkIssuers touched (issuer.name :: names) ((url, issuer.name) :: urls) rest

/-- A judged client's audiences and client id, and whether it is confidential. -/
def judgedConnection (node : IdentityNode) (client : IdentityClient) : Except Text (List Text × Text × Bool) :=
  if client.secret = [] then .ok (client.audiences, client.clientId, false)
  else do
    match ← node.readIdentitySecret client.secretService client.secret "oidc_client".toList with
    | none =>
      bad ["client \"".toList, client.name, "\" names secret \"".toList, client.secret, "\", and ".toList,
        client.secretService, " has no secret of type oidc_client by that name".toList]
    | some fields =>
      if fields.field "audiences" ≠ [] ∧ client.audiences ≠ [] then
        bad ["client \"".toList, client.name,
          "\" has its AUDIENCES both on the client and in its secret - keep them in one place".toList]
      else do
        let audiences ←
          if fields.field "audiences" ≠ [] then node.parseStoredList (fields.field "audiences") else .ok client.audiences
        if fields.field "client_id" ≠ [] ∧ client.clientId ≠ [] then
          bad ["client \"".toList, client.name,
            "\" has its CLIENT ID both on the client and in its secret - keep it in one place".toList]
        else
          .ok (audiences, if fields.field "client_id" ≠ [] then fields.field "client_id" else client.clientId,
            fields.field "client_secret" ≠ [])

/-- The first name that was met before, up to case. -/
def twice : List Text → List Text → Option Text
  | _, [] => none
  | met, name :: rest => if met.any (Text.ciEquals · name) then some name else twice (name :: met) rest

/-- What a judged client says: its audiences. -/
def checkClient (node : IdentityNode) (client : IdentityClient) : Except Text (List Text) := do
  let (audiences, clientId, confidential) ← node.judgedConnection client
  if audiences = [] then
    bad ["client \"".toList, client.name,
      "\" accepts no audience - AUDIENCES is required (on the client or in its secret), so a token ".toList,
      "issued for another API is never accepted here".toList]
  else if client.flows ≠ [] ∧ clientId = [] then
    bad ["client \"".toList, client.name, "\" names FLOWS but has no CLIENT ID to run them as".toList]
  else if confidential ∧ clientId = [] then
    bad ["client \"".toList, client.name, "\" has a CLIENT_SECRET but no CLIENT ID".toList]
  else
    match client.rolesConstant.find? node.privileged with
    | some role =>
      bad ["client \"".toList, client.name, "\": ROLES CONSTANT names \"".toList, role,
        "\", which holds an administration scope - a privileged role is reached only through an ".toList,
        "explicit mapping of the client itself".toList]
    | none =>
      if client.rolesFrom = [] ∧ client.rolesConstant = [] then
        bad ["client \"".toList, client.name,
          "\" yields no roles - name ROLES FROM (claim paths) or ROLES CONSTANT".toList]
      else
        match twice [] (client.attributes.map (·.name)) with
        | some name => bad ["client \"".toList, client.name, "\" defines attribute \"".toList, name, "\" twice".toList]
        | none => .ok audiences

/-- The loop over the clients: each with its `client_audiences`, as stored where the write did not touch it.
The names met are distinct, so the map by name is kept beside the clients. -/
def checkClients (node : IdentityNode) (touched : Touched) (model : IdentityModel) : List Text → List IdentityClient →
    Except Text (List (IdentityClient × List Text))
  | _, [] => .ok []
  | names, client :: rest =>
    if client.name = [] then bad ["a client needs a name".toList]
    else if names.any (Text.ciEquals · client.name) then
      bad ["client \"".toList, client.name, "\" is defined twice".toList]
    else if model.issuer client.issuer = none then
      bad ["client \"".toList, client.name, "\" names issuer \"".toList, client.issuer, "\", which does not exist".toList]
    else do
      let audiences ← if touched .client client.name then node.checkClient client else .ok client.audiences
      let later ← node.checkClients touched model (client.name :: names) rest
      .ok ((client, audiences) :: later)

end IdentityNode

/-- Two clients that would accept the same tokens, as far as their audiences and AZP tell. -/
def overlaps (touched : Touched) (a b : IdentityClient × List Text) : Bool :=
  Text.ciEquals a.1.issuer b.1.issuer && a.1.specificity = b.1.specificity &&
    (touched .client a.1.name || touched .client b.1.name) && intersects a.2 b.2 &&
    (a.1.conditions = [] && b.1.conditions = []) &&
    ((a.1.azp = [] && b.1.azp = []) || intersects a.1.azp b.1.azp)

/-- The loop over the pairs of clients. -/
def checkPairs (touched : Touched) : List (IdentityClient × List Text) → Except Text Unit
  | [] => .ok ()
  | a :: rest =>
    match rest.find? (overlaps touched a) with
    | some b =>
      bad ["clients \"".toList, a.1.name, "\" and \"".toList, b.1.name, "\" of issuer \"".toList, a.1.issuer,
        "\" would accept the same tokens - tell them apart by AUDIENCES, AZP or REQUIRE".toList]
    | none => checkPairs touched rest

/-- The loop body over the mappings. -/
def IdentityNode.checkMapping (node : IdentityNode) (touched : Touched) (model : IdentityModel) (mapping : IdentityMapping) :
    Except Text Unit := do
  if mapping.scopeKind = "client".toList then
    if model.client mapping.scopeName = none then
      bad ["a mapping names client \"".toList, mapping.scopeName, "\", which does not exist".toList]
  else if mapping.scopeKind = "issuer".toList then
    if model.issuer mapping.scopeName = none then
      bad ["a mapping names issuer \"".toList, mapping.scopeName, "\", which does not exist".toList]
    if touched .mapping mapping.key && node.privileged mapping.role then
      bad ["role \"".toList, mapping.role,
        "\" holds an administration scope, so it is mapped FROM CLIENT only - never for every ".toList,
        "client of an issuer".toList]
  else bad ["a mapping is scoped to a CLIENT or an ISSUER".toList]
  if mapping.source ≠ "group".toList ∧ mapping.source ≠ "claim-value".toList then
    bad ["a mapping's source is group or claim-value".toList]

/-- `ValidateIdentity`. -/
def IdentityNode.validateIdentity (node : IdentityNode) (touched : Touched) (model : IdentityModel) : Except Text Unit := do
  node.checkIssuers touched [] [] model.issuers
  let judged ← node.checkClients touched model [] model.clients
  checkPairs touched judged
  model.mappings.forM (node.checkMapping touched model)

namespace IdentityModel

/-- Whether an edit changed a client, or added it. -/
def changedClient (before : IdentityModel) (client : IdentityClient) : Bool :=
  !(before.client client.name).any (·.same client)

def changedIssuer (before : IdentityModel) (issuer : IdentityIssuer) : Bool :=
  !(before.issuer issuer.name).any (·.same issuer)

/-- What an edit touched. -/
def touched (before edited : IdentityModel) : Touched
  | .issuer, name => (edited.issuers.filter before.changedIssuer).any (Text.ciEquals ·.name name)
  | .client, name => (edited.clients.filter before.changedClient).any (Text.ciEquals ·.name name)
  | .mapping, name =>
    (edited.mappings.filter fun mapping => !before.mappings.any (·.same mapping)).any (Text.ciEquals ·.key name)

end IdentityModel

namespace IdentityNode

/-- A changed issuer with the service its secret lives in. -/
def settleIssuer (node : IdentityNode) (before : IdentityModel) (issuer : IdentityIssuer) : Except Text IdentityIssuer :=
  if before.changedIssuer issuer ∧ issuer.secret ≠ [] then
    (node.secretService issuer.secretService).map fun service => { issuer with secretService := service }
  else .ok issuer

/-- A changed client with the service its secret lives in. -/
def settleClient (node : IdentityNode) (before : IdentityModel) (client : IdentityClient) : Except Text IdentityClient :=
  if before.changedClient client ∧ client.secret ≠ [] then
    (node.secretService client.secretService).map fun service => { client with secretService := service }
  else .ok client

/-- `EditIdentity`, given the model the edit made. -/
def editIdentity (node : IdentityNode) (before edited : IdentityModel) : Except Text IdentityModel := do
  let issuers ← edited.issuers.mapM (node.settleIssuer before)
  let clients ← edited.clients.mapM (node.settleClient before)
  let model := { edited with issuers, clients }
  node.validateIdentity (before.touched edited) model
  .ok model

/-- A write that is accepted. -/
def write (node : IdentityNode) (before edited : IdentityModel) : Option IdentityModel :=
  (node.editIdentity before edited).toOption

end IdentityNode

end DuckAcl
