import DuckAcl.Library.ListEdits
import DuckAcl.Model.ClientStorage

/-! # Editing issuers, clients and mappings

The functions that administer the identity model (`acl_admin_functions.cpp`): each is an edit of the model, which
`EditIdentity` then settles, validates and keeps. What is stored is read back as it was written.
-/

namespace DuckAcl

namespace IdentityModel

/-- `IdentityMode`: whether to write. -/
def identityMode (mode : Text) (known : Bool) (kind : String) (name : Text) : Except Text Bool :=
  if !known then .ok true
  else if mode = "skip".toList then .ok false
  else if mode = "replace".toList then .ok true
  else
    .error ("acl admin: ".toList ++ kind.toList ++ " \"".toList ++ name ++
      "\" already exists - CREATE OR REPLACE to overwrite it, or ALTER it".toList)

def missing {α : Type} (kind : String) (name : Text) : Except Text α :=
  .error ("acl admin: ".toList ++ kind.toList ++ " \"".toList ++ name ++ "\" does not exist".toList)

section Reader

variable (yyjsonRead : Text → Option JsonValue) (yyjsonWrite : JsonValue → Text) (services : IdentityNode)

/-- The loop body of `ApplyIssuerSpec`: the issuer, the client's specification and the names so far. -/
def applyIssuerMember (state : IdentityIssuer × Text × List Text) (entry : Text × JsonValue) :
    Except Text (IdentityIssuer × Text × List Text) :=
  let (issuer, clientSpec, named) := state
  let key := Text.fold entry.1
  if key ∈ named then ClientStorage.bad ("an issuer spec names ".toList ++ ClientStorage.quoted key ++ " twice".toList)
  else
    let named := key :: named
    if key = "url".toList then
      (ClientStorage.stringOf (some entry.2) key).map fun url => ({ issuer with url }, clientSpec, named)
    else if key = "secret".toList then
      (ClientStorage.stringOf (some entry.2) key).map fun secret =>
        ({ issuer with secret, secretService := if "service".toList ∈ named then issuer.secretService else [] }, clientSpec,
          named)
    else if key = "service".toList then
      (ClientStorage.stringOf (some entry.2) key).map fun secretService => ({ issuer with secretService }, clientSpec, named)
    else if key = "client".toList then
      match entry.2 with
      | .obj members => .ok (issuer, yyjsonWrite (.obj members), named)
      | _ => ClientStorage.bad "an issuer's \"client\" is the client spec object".toList
    else ClientStorage.bad ("unknown issuer property ".toList ++ ClientStorage.quoted key)

/-- `ApplyIssuerSpec`: the issuer, and the specification of its implicit client. -/
def applyIssuerSpec (issuer : IdentityIssuer) (specJson : Text) : Except Text (IdentityIssuer × Text) :=
  if specJson = [] then .ok (issuer, [])
  else
    match yyjsonRead specJson with
    | some (.obj members) =>
      (members.foldlM (applyIssuerMember yyjsonWrite) (issuer, [], [])).map fun state => (state.1, state.2.1)
    | _ => ClientStorage.bad "an issuer spec is a JSON object".toList

/-- `written.count("flows")`. -/
def writesFlows (specJson : Text) : Bool :=
  match yyjsonRead specJson with
  | some (.obj members) => members.any fun entry => decide (Text.fold entry.1 = "flows".toList)
  | _ => false

/-- The flows a fresh implicit client is given. -/
def defaultFlows (client : IdentityClient) : Except Text IdentityClient := do
  let fields ←
    if client.secret = [] then .ok none
    else do
      let service ← if client.secretService = [] then services.secretService [] else .ok client.secretService
      services.readIdentitySecret service client.secret "oidc_client".toList
  let stored (name : String) : Text := (fields.map fun fields => fields.field name).getD []
  let clientId := if stored "client_id" ≠ [] then stored "client_id" else client.clientId
  if clientId = [] then return client
  return { client with flows := if stored "client_secret" ≠ [] then ["password".toList] else ["authcode".toList, "device".toList] }

/-- The implicit client of an issuer. -/
def isImplicitOf (issuer : Text) (client : IdentityClient) : Bool := Text.ciEquals client.issuer issuer && client.implicit

/-- `ApplyImplicitClient`. -/
def applyImplicitClient (model : IdentityModel) (issuer clientSpec : Text) : Except Text IdentityModel :=
  match (model.clients.filter (isImplicitOf issuer)).getLast? with
  | some client => do
    let client ← ClientStorage.applyClientSpec yyjsonRead client clientSpec
    return { model with clients := replaceLast (isImplicitOf issuer) client model.clients }
  | none => do
    let created : IdentityClient :=
      { name := issuer, issuer, implicit := true, unmappedAsRole := true, rolesFrom := ["roles".toList] }
    let client ← ClientStorage.applyClientSpec yyjsonRead created clientSpec
    let client ← if writesFlows yyjsonRead clientSpec then .ok client else defaultFlows services client
    return { model with clients := model.clients ++ [client] }

/-- A mapping of a replaced issuer: at its scope, or at its implicit client's. -/
def replacedWith (model : IdentityModel) (name : Text) (mapping : IdentityMapping) : Bool :=
  Text.ciEquals mapping.scopeName name &&
    (mapping.scopeKind = "issuer".toList ||
      (mapping.scopeKind = "client".toList && (model.client name).any (·.implicit)))

/-- The edit of `AclDefineIssuerFunc`: a replaced issuer starts over. -/
def defineIssuer (model : IdentityModel) (name spec mode : Text) : Except Text IdentityModel := do
  if ← identityMode mode (model.issuer name).isSome "issuer" name then
    let cleared : IdentityModel :=
      { mappings := model.mappings.filter (!model.replacedWith name ·)
        issuers := model.issuers.filter (!Text.ciEquals ·.name name)
        clients := model.clients.filter (!isImplicitOf name ·) }
    let (issuer, clientSpec) ← applyIssuerSpec yyjsonRead yyjsonWrite { name } spec
    let defined := { cleared with issuers := cleared.issuers ++ [issuer] }
    if clientSpec = [] then return defined
    applyImplicitClient yyjsonRead services defined issuer.name clientSpec
  else return model

/-- The edit of `AclAlterIssuerFunc`. -/
def alterIssuer (model : IdentityModel) (name spec : Text) : Except Text IdentityModel :=
  match (model.issuers.filter (Text.ciEquals ·.name name)).getLast? with
  | none => missing "issuer" name
  | some issuer => do
    let (issuer, clientSpec) ← applyIssuerSpec yyjsonRead yyjsonWrite issuer spec
    let altered := { model with issuers := replaceLast (Text.ciEquals ·.name name) issuer model.issuers }
    if clientSpec = [] then return altered
    applyImplicitClient yyjsonRead services altered issuer.name clientSpec

end Reader

/-- The names of the clients of an issuer. -/
def clientsOf (model : IdentityModel) (name : Text) : List Text :=
  (model.clients.filter (Text.ciEquals ·.issuer name)).map (·.name)

/-- The edit of `AclDropIssuerFunc`: the issuer, its implicit client and the mappings at either's scope. -/
def dropIssuer (model : IdentityModel) (name mode : Text) : Except Text IdentityModel :=
  if (model.issuer name).isNone then if mode = "skip".toList then .ok model else missing "issuer" name
  else
    match model.clients.find? fun client => Text.ciEquals client.issuer name && !client.implicit with
    | some client =>
      .error ("acl admin: issuer \"".toList ++ name ++ "\" still has client \"".toList ++ client.name ++
        "\" - drop the client first".toList)
    | none =>
      let gone (client : Text) : Bool := (model.clientsOf name).any (Text.ciEquals · client)
      .ok
        { mappings := model.mappings.filter fun mapping =>
            !((mapping.scopeKind = "issuer".toList && Text.ciEquals mapping.scopeName name) ||
              (mapping.scopeKind = "client".toList && gone mapping.scopeName))
          clients := model.clients.filter fun client => !gone client.name
          issuers := model.issuers.filter (!Text.ciEquals ·.name name) }

/-- A mapping at the scope of a client. -/
def atClient (name : Text) (mapping : IdentityMapping) : Bool :=
  mapping.scopeKind = "client".toList && Text.ciEquals mapping.scopeName name

/-- The refusal to change an implicit client by its own name. -/
def isShortForm {α : Type} (name : Text) (client : IdentityClient) (instead : String) : Except Text α :=
  .error ("acl admin: \"".toList ++ name ++ "\" is the client of issuer \"".toList ++ client.issuer ++
    "\"'s short form - ".toList ++ instead.toList)

/-- The edit of `AclDefineClientFunc`: a client moved to another issuer starts without mappings. -/
def defineClient (yyjsonRead : Text → Option JsonValue) (model : IdentityModel) (name issuer spec mode : Text) :
    Except Text IdentityModel := do
  let existing := model.client name
  match existing.filter (·.implicit) with
  | some client => isShortForm name client "ALTER ISSUER changes it"
  | none =>
    if ← identityMode mode existing.isSome "client" name then
      let moved := existing.any fun client => !Text.ciEquals client.issuer issuer
      match model.issuer issuer with
      | none => missing "issuer" issuer
      | some anchor =>
        let client ← ClientStorage.applyClientSpec yyjsonRead { name, issuer := anchor.name } spec
        return { model with
          mappings := if moved then model.mappings.filter (!atClient name ·) else model.mappings
          clients := model.clients.filter (!Text.ciEquals ·.name name) ++ [client] }
    else return model

/-- The edit of `AclAlterClientFunc`. -/
def alterClient (yyjsonRead : Text → Option JsonValue) (model : IdentityModel) (name spec : Text) :
    Except Text IdentityModel :=
  match model.client name with
  | none => missing "client" name
  | some client =>
    if client.implicit then isShortForm name client "ALTER ISSUER changes it"
    else do
      let client ← ClientStorage.applyClientSpec yyjsonRead client spec
      return { model with clients := replaceFirst (Text.ciEquals ·.name name) client model.clients }

/-- The edit of `AclDropClientFunc`: an explicit client and the mappings at its scope. -/
def dropClient (model : IdentityModel) (name mode : Text) : Except Text IdentityModel :=
  match model.client name with
  | none => if mode = "skip".toList then .ok model else missing "client" name
  | some client =>
    if client.implicit then isShortForm name client "DROP ISSUER removes it"
    else
      .ok { model with
        mappings := model.mappings.filter (!atClient name ·)
        clients := model.clients.filter (!Text.ciEquals ·.name name) }

/-- `MappingScope`: the kind and the object's own name. -/
def mappingScope (model : IdentityModel) (kind name : Text) : Except Text (Text × Text) :=
  if Text.fold kind = "client".toList then
    match model.client name with
    | some client => .ok (Text.fold kind, client.name)
    | none => missing "client" name
  else if Text.fold kind = "issuer".toList then
    match model.issuer name with
    | some issuer => .ok (Text.fold kind, issuer.name)
    | none => missing "issuer" name
  else
    .error ("acl admin: a mapping is scoped to a client or an issuer, not \"".toList ++ kind ++ "\"".toList)

/-- The edit of `AclMapRoleFunc`: a value mapped to the role already stays so. -/
def mapRole (model : IdentityModel) (kind scope source external role : Text) : Except Text IdentityModel :=
  (model.mappingScope kind scope).map fun (scopeKind, scopeName) =>
    let mapping : IdentityMapping := { scopeKind, scopeName, source, externalValue := external, role }
    if model.mappings.any (·.same mapping) then model else { model with mappings := model.mappings ++ [mapping] }

/-- The edit of `AclDropRoleMappingFunc`. -/
def dropRoleMapping (model : IdentityModel) (kind scope source external role : Text) : Except Text IdentityModel :=
  (model.mappingScope kind scope).bind fun (scopeKind, scopeName) =>
    let mapping : IdentityMapping := { scopeKind, scopeName, source, externalValue := external, role }
    if model.mappings.any (·.same mapping) then
      .ok { model with mappings := model.mappings.filter (!IdentityMapping.same · mapping) }
    else
      .error ("acl admin: no mapping of ".toList ++ source ++ " \"".toList ++ external ++ "\" from ".toList ++ scopeKind ++
        " \"".toList ++ scopeName ++ "\" to role \"".toList ++ role ++ "\"".toList)

end IdentityModel

end DuckAcl
