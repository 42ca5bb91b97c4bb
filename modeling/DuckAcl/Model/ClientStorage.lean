import DuckAcl.Library.JsonText
import DuckAcl.Model.Identity

/-! # The stored shapes of a client

A client specification is a JSON object whose properties are applied in turn (`ApplyClientSpec` in
`acl_identity.cpp`). A client is stored as texts, its lists as JSON, and read from them after a reload
(`ClientValues`, `CatalogBackend::IdentityFromRows`). The reader of JSON is a parameter.
-/

namespace DuckAcl.ClientStorage

/-- `Bad`. -/
def bad {α : Type} (what : Text) : Except Text α := .error ("acl admin: ".toList ++ what)

/-- A name between quotation marks. -/
def quoted (key : Text) : Text := '"' :: (key ++ ['"'])

/-! ## Reading values -/

/-- `Text`: an integer is read as signed. -/
def textOf : JsonValue → Text
  | .str value => value
  | .int value => (toString value).toList
  | .real printed => printed
  | .bool value => if value then "true".toList else "false".toList
  | _ => []

/-- `yyjson_obj_get`: the first member of a name. -/
def objGet (members : List (Text × JsonValue)) (key : String) : Option JsonValue :=
  (members.find? fun entry => entry.1 = key.toList).map Prod.snd

/-- The loop of `StringArray`. -/
def stringItems (key : Text) : List JsonValue → Except Text (List Text)
  | [] => .ok []
  | .str text :: rest => (stringItems key rest).map fun later => if text = [] then later else text :: later
  | _ :: _ => bad (quoted key ++ " must be a list of strings".toList)

/-- `StringArray`: a single value is the list of one. -/
def stringArray (value : Option JsonValue) (key : Text) : Except Text (List Text) :=
  match value with
  | none => .ok []
  | some .null => .ok []
  | some (.str text) => .ok [text]
  | some (.arr items) => stringItems key items
  | some _ => bad (quoted key ++ " must be a list of strings".toList)

/-- `StringOf`. -/
def stringOf (value : Option JsonValue) (key : Text) : Except Text Text :=
  match value with
  | none => .ok []
  | some .null => .ok []
  | some (.str text) => .ok text
  | some _ => bad (quoted key ++ " must be a string".toList)

/-- `ParseOp`. -/
def parseOp (name : Text) : Except Text ConditionOp :=
  if Text.ciEquals name "eq".toList || name = "=".toList then .ok .equals
  else if Text.ciEquals name "in".toList then .ok .oneOf
  else if Text.ciEquals name "contains".toList then .ok .contains
  else if Text.ciEquals name "like".toList then .ok .like
  else bad ("a REQUIRE condition's operator is one of =, IN, contains (v IN path) or LIKE - got ".toList ++ quoted name)

/-- The loop body of `ConditionsOf`. -/
def conditionOf : JsonValue → Except Text ClaimCondition
  | .obj members => do
    let path ← stringOf (objGet members "path") "path".toList
    let name ← stringOf (objGet members "op") "op".toList
    let op ← parseOp name
    let values ← stringArray (objGet members "values") "values".toList
    if path = [] ∨ values = [] then bad "a REQUIRE condition names a claim path and at least one value".toList
    else if op ≠ .oneOf ∧ values.length ≠ 1 then
      bad "only IN compares a claim against a list - =, contains and LIKE take one value".toList
    else .ok { path, op, values }
  | _ => bad "a REQUIRE condition is \x7b\"path\", \"op\", \"values\"\x7d".toList

/-- `ConditionsOf`. -/
def conditionsOf (value : Option JsonValue) : Except Text (List ClaimCondition) :=
  match value with
  | none => .ok []
  | some .null => .ok []
  | some (.arr items) => items.mapM conditionOf
  | some _ => bad "\"require\" must be a list of conditions".toList

/-- A member of a claim map. -/
def mappedAttribute (entry : Text × JsonValue) : Except Text AttributeDef :=
  if textOf entry.2 = [] ∨ entry.1 = [] then bad "a claim map pairs a JWT path with an attribute name".toList
  else .ok { name := textOf entry.2, paths := [entry.1] }

/-- Whether an attribute is a constant: `null` is none. -/
def constantOf (members : List (Text × JsonValue)) : Option JsonValue :=
  match objGet members "constant" with
  | some .null => none
  | constant => constant

/-- A constant, or the paths an attribute is read from. -/
def readAttribute (name : Text) (members : List (Text × JsonValue)) : Except Text AttributeDef :=
  match constantOf members with
  | some value => (stringOf (some value) "constant".toList).map fun constant => { name, isConstant := true, constant }
  | none => (stringArray (objGet members "paths") "paths".toList).map fun paths => { name, paths }

/-- The loop body of `AttributesOf`. -/
def attributeOf : JsonValue → Except Text AttributeDef
  | .obj members => do
    let name ← stringOf (objGet members "name") "name".toList
    let read ← readAttribute name members
    if read.name = [] ∨ (read.isConstant = false ∧ read.paths = []) then
      bad "an attribute has a name and either the claim paths it is read from or a CONSTANT".toList
    else .ok read
  | _ => bad "an attribute is \x7b\"name\", \"paths\" | \"constant\"\x7d".toList

/-- `AttributesOf`. -/
def attributesOf (value : Option JsonValue) : Except Text (List AttributeDef) :=
  match value with
  | none => .ok []
  | some .null => .ok []
  | some (.obj members) => members.mapM mappedAttribute
  | some (.arr items) => items.mapM attributeOf
  | some _ => bad "\"attributes\" must be a list of \x7b\"name\", \"paths\" | \"constant\"\x7d".toList

/-! ## A specification -/

/-- `IsKnownFlow`. -/
def isKnownFlow (flow : Text) : Bool :=
  flow = "password".toList || flow = "authcode".toList || flow = "device".toList || flow = "client_credentials".toList

section Reader

variable (yyjsonRead : Text → Option JsonValue)

/-- The value of `claim_map`, a text. -/
def claimMapOf (text : Text) : Except Text (List AttributeDef) :=
  if text = [] then .ok []
  else
    match yyjsonRead text with
    | some (.obj members) => attributesOf (some (.obj members))
    | _ => bad "CLAIM MAP is a JSON object \x7b\"<jwt path>\": \"<name>\"\x7d".toList

/-- The branches on a property's name; `named` are the names so far, this one among them. -/
def applyProperty (client : IdentityClient) (named : List Text) (key : Text) (value : JsonValue) : Except Text IdentityClient :=
  if key = "audiences".toList then (stringArray value key).map fun audiences => { client with audiences }
  else if key = "azp".toList then (stringArray value key).map fun azp => { client with azp }
  else if key = "require".toList then (conditionsOf value).map fun conditions => { client with conditions }
  else if key = "roles_from".toList then (stringArray value key).map fun rolesFrom => { client with rolesFrom }
  else if key = "roles_constant".toList then
    (stringArray value key).bind fun rolesConstant =>
      if [] ∈ rolesConstant then bad "ROLES CONSTANT names a role - '' is none".toList
      else .ok { client with rolesConstant }
  else if key = "unmapped".toList then
    (stringOf value key).bind fun text =>
      let unmapped := Text.fold text
      if unmapped = "as_role".toList ∨ unmapped = "as role".toList then .ok { client with unmappedAsRole := true }
      else if unmapped = "ignore".toList ∨ unmapped = [] then .ok { client with unmappedAsRole := false }
      else bad ("UNMAPPED is IGNORE or AS ROLE - got ".toList ++ quoted unmapped)
  else if key = "attributes".toList then (attributesOf value).map fun attributes => { client with attributes }
  else if key = "claim_map".toList then
    (stringOf value key).bind fun text => (claimMapOf yyjsonRead text).map fun attributes => { client with attributes }
  else if key = "subject".toList then (stringArray value key).map fun subject => { client with subject }
  else if key = "token_type".toList then (stringOf value key).map fun tokenType => { client with tokenType }
  else if key = "client_id".toList then (stringOf value key).map fun clientId => { client with clientId }
  else if key = "flows".toList then
    (stringArray value key).bind fun flows =>
      match (flows.map Text.fold).find? fun flow => !isKnownFlow flow with
      | some flow =>
        bad ("unknown flow ".toList ++ quoted flow ++ " - FLOWS names password, authcode, device or client_credentials".toList)
      | none => .ok { client with flows := flows.map Text.fold }
  else if key = "secret".toList then
    (stringOf value key).map fun secret =>
      { client with secret, secretService := if "service".toList ∈ named then client.secretService else [] }
  else if key = "service".toList then (stringOf value key).map fun secretService => { client with secretService }
  else bad ("unknown client property ".toList ++ quoted key)

/-- The loop body of `ApplyClientSpec`: the client and the names so far. -/
def applyMember (state : IdentityClient × List Text) (entry : Text × JsonValue) : Except Text (IdentityClient × List Text) :=
  let key := Text.fold entry.1
  if key ∈ state.2 then bad ("a client spec names ".toList ++ quoted key ++ " twice".toList)
  else
    let named := key :: state.2
    if (key = "attributes".toList ∧ "claim_map".toList ∈ named) ∨ (key = "claim_map".toList ∧ "attributes".toList ∈ named) then
      bad "a client spec names both \"attributes\" and \"claim_map\" - both write the attributes; name one".toList
    else (applyProperty yyjsonRead state.1 named key entry.2).map fun client => (client, named)

/-- `ApplyClientSpec`. -/
def applyClientSpec (client : IdentityClient) (specJson : Text) : Except Text IdentityClient :=
  if specJson = [] then .ok client
  else
    match yyjsonRead specJson with
    | some (.obj members) => (members.foldlM (applyMember yyjsonRead) (client, [])).map Prod.fst
    | _ => bad "a client spec is a JSON object".toList

/-! ## The stored texts -/

/-- `ParseStoredList`. -/
def parseStoredList (text : Text) : Except Text (List Text) :=
  match Text.trim text with
  | [] => .ok []
  | '[' :: rest =>
    match yyjsonRead ('[' :: rest) with
    | some root => stringArray root "list".toList
    | none => .error ("acl: a stored list is not valid JSON: ".toList ++ '[' :: rest)
  | trimmed => .ok (((trimmed.splitOn ',').map Text.trim).filter (· ≠ []))

/-- `ParseStoredConditions`. -/
def parseStoredConditions (text : Text) : Except Text (List ClaimCondition) :=
  let trimmed := Text.trim text
  if trimmed = [] then .ok []
  else
    match yyjsonRead trimmed with
    | some root => conditionsOf root
    | none => .error ("acl: stored conditions are not valid JSON: ".toList ++ trimmed)

/-- `ParseStoredAttributes`. -/
def parseStoredAttributes (text : Text) : Except Text (List AttributeDef) :=
  let trimmed := Text.trim text
  if trimmed = [] then .ok []
  else
    match yyjsonRead trimmed with
    | some root => attributesOf root
    | none => .error ("acl: stored attributes are not valid JSON: ".toList ++ trimmed)

end Reader

/-- A row of `identity_clients`; an empty text is NULL where the column may be. -/
structure ClientRow where
  name : Text
  issuer : Text
  audiences : Option Text
  azp : Option Text
  conditions : Option Text
  rolesFrom : Option Text
  rolesConstant : Option Text
  unmapped : Text
  attributes : Option Text
  subject : Option Text
  tokenType : Option Text
  clientId : Option Text
  flows : Option Text
  secretService : Option Text
  secret : Option Text
  implicit : Option Bool

/-- `LitOrNull`. -/
def litOrNull (value : Text) : Option Text := if value = [] then none else some value

/-- `Cell`. -/
def cell (value : Option Text) : Text := value.getD []

/-- `ClientValues`. -/
def clientValues (client : IdentityClient) : ClientRow where
  name := client.name
  issuer := client.issuer
  audiences := litOrNull (storedList client.audiences)
  azp := litOrNull (storedList client.azp)
  conditions := litOrNull (storedConditions client.conditions)
  rolesFrom := litOrNull (storedList client.rolesFrom)
  rolesConstant := litOrNull (storedList client.rolesConstant)
  unmapped := if client.unmappedAsRole then "as_role".toList else "ignore".toList
  attributes := litOrNull (storedAttributes client.attributes)
  subject := litOrNull (storedList client.subject)
  tokenType := litOrNull client.tokenType
  clientId := litOrNull client.clientId
  flows := litOrNull (storedList client.flows)
  secretService := litOrNull client.secretService
  secret := litOrNull client.secret
  implicit := some client.implicit

/-- The clients' part of `CatalogBackend::IdentityFromRows`. -/
def clientFromRow (yyjsonRead : Text → Option JsonValue) (row : ClientRow) : Except Text IdentityClient := do
  let audiences ← parseStoredList yyjsonRead (cell row.audiences)
  let azp ← parseStoredList yyjsonRead (cell row.azp)
  let conditions ← parseStoredConditions yyjsonRead (cell row.conditions)
  let rolesFrom ← parseStoredList yyjsonRead (cell row.rolesFrom)
  let rolesConstant ← parseStoredList yyjsonRead (cell row.rolesConstant)
  let attributes ← parseStoredAttributes yyjsonRead (cell row.attributes)
  let subject ← parseStoredList yyjsonRead (cell row.subject)
  let flows ← parseStoredList yyjsonRead (cell row.flows)
  return {
    name := row.name
    issuer := row.issuer
    audiences, azp, conditions, rolesFrom, rolesConstant
    unmappedAsRole := row.unmapped = "as_role".toList
    attributes, subject
    tokenType := cell row.tokenType
    clientId := cell row.clientId
    flows
    secretService := cell row.secretService
    secret := cell row.secret
    implicit := row.implicit.getD false }

/-- The client that a stored one is read as. -/
def reload (yyjsonRead : Text → Option JsonValue) (client : IdentityClient) : Except Text IdentityClient :=
  clientFromRow yyjsonRead (clientValues client)

end DuckAcl.ClientStorage
