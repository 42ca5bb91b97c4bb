import DuckAcl.Library.Json

/-! # The session-state cookie

What a session holds is written into a cookie and read back by another node (`acl_session_state.cpp`):
a JSON object, base64url without padding, of a bounded size. A state past the bound keeps its principal and
its pins. The reader of JSON is a parameter.
-/

namespace DuckAcl

structure SessionState where
  principal : Bytes
  useCatalog : Bytes := []
  useSchema : Bytes := []
  settings : List (Bytes × Bytes) := []
  pinned : List Bytes := []
deriving DecidableEq, Repr

namespace SessionState

/-- `Empty`. -/
def empty (state : SessionState) : Bool :=
  state.useCatalog = [] && state.useSchema = [] && state.settings = [] && state.pinned = []

/-- `SESSION_STATE_MAX_BYTES`. -/
def maxBytes : ℕ := 1024

/-- `SESSION_STATE_MAX_INPUT`. -/
def maxInput : ℕ := 4096

/-- `PORTABLE_SETTINGS`. -/
def portableSettings : List Bytes :=
  ["TimeZone", "Calendar", "acl_metadata_max_rows", "acl_correlation_id", "acl_traceparent", "acl_lineage_parent",
    "acl_lineage_root_parent", "acl_lineage_job"].map ascii

/-- A character in lower case. -/
def lower (c : UInt8) : UInt8 := if 65 ≤ c ∧ c ≤ 90 then c + 32 else c

/-- `PortableSetting`. -/
def portableSetting (name : Bytes) : Option Bytes :=
  portableSettings.find? fun setting => name.map lower = setting.map lower

/-- `IsKnownPin`. -/
def isKnownPin (pin : Bytes) : Bool :=
  pin = ascii "transaction" || pin = ascii "temp" || pin = ascii "view_as" || pin = ascii "context"

/-! ## Base64 -/

def b64Url : Bytes := ascii "ABCDEFGHIJKLMNOPQRSTUVWXYZabcdefghijklmnopqrstuvwxyz0123456789-_"

/-- The character of the six bits at a place. -/
def b64At (n shift : ℕ) : UInt8 := b64Url.getD (n / 2 ^ shift % 64) 0

/-- `Base64UrlEncode`. -/
def base64UrlEncode : Bytes → Bytes
  | a :: b :: c :: rest =>
    let n := a.toNat * 65536 + b.toNat * 256 + c.toNat
    b64At n 18 :: b64At n 12 :: b64At n 6 :: b64At n 0 :: base64UrlEncode rest
  | [a] =>
    let n := a.toNat * 65536
    [b64At n 18, b64At n 12]
  | [a, b] =>
    let n := a.toNat * 65536 + b.toNat * 256
    [b64At n 18, b64At n 12, b64At n 6]
  | [] => []

/-- `B64Value`. -/
def b64Value (c : UInt8) : Option ℕ :=
  if 65 ≤ c ∧ c ≤ 90 then some (c.toNat - 65)
  else if 97 ≤ c ∧ c ≤ 122 then some (c.toNat - 97 + 26)
  else if 48 ≤ c ∧ c ≤ 57 then some (c.toNat - 48 + 52)
  else if c = 45 then some 62
  else if c = 95 then some 63
  else none

/-- The loop of `Base64UrlDecode`: the bits read and not yet written stay in a 32-bit buffer. -/
def decodeFrom (buffer bits : ℕ) : Bytes → Option Bytes
  | [] => if buffer % 2 ^ bits = 0 then some [] else none
  | c :: rest =>
    (b64Value c).bind fun v =>
      let buffer := (buffer * 64 + v) % 2 ^ 32
      let bits := bits + 6
      if 8 ≤ bits then (decodeFrom buffer (bits - 8) rest).map (UInt8.ofNat (buffer / 2 ^ (bits - 8) % 256) :: ·)
      else decodeFrom buffer bits rest

/-- `Base64UrlDecode`. -/
def base64UrlDecode (value : Bytes) : Option Bytes :=
  if value.length % 4 = 1 then none else decodeFrom 0 0 value

/-! ## Writing -/

/-- A hexadecimal digit. -/
def hexByte (n : ℕ) : UInt8 := if n < 10 then UInt8.ofNat (48 + n) else UInt8.ofNat (87 + n)

/-- A character as `Quote` writes it. -/
def escaped (c : UInt8) : Bytes :=
  if c = 34 then [92, 34]
  else if c = 92 then [92, 92]
  else if c = 10 then [92, 110]
  else if c = 13 then [92, 114]
  else if c = 9 then [92, 116]
  else if c < 32 then [92, 117, 48, 48, hexByte (c.toNat / 16), hexByte (c.toNat % 16)]
  else [c]

/-- `Quote`. -/
def quote (value : Bytes) : Bytes := 34 :: (value.flatMap escaped ++ [34])

/-- A member of an object. -/
def member (name : String) (value : Bytes) : Bytes := quote (ascii name) ++ 58 :: value

/-- Items between two characters. -/
def between (start close : UInt8) (items : List Bytes) : Bytes := start :: ([44].intercalate items ++ [close])

/-- `Json`. -/
def json (state : SessionState) : Bytes :=
  between 123 125
    ([member "v" [49], member "p" (quote state.principal)] ++
      (if state.useCatalog ≠ [] ∨ state.useSchema ≠ [] then
        [member "use" (between 123 125 [member "catalog" (quote state.useCatalog), member "schema" (quote state.useSchema)])]
        else []) ++
      (if state.settings ≠ [] then
        [member "set" (between 123 125 (state.settings.map fun setting => quote setting.1 ++ 58 :: quote setting.2))]
        else []) ++
      if state.pinned ≠ [] then [member "pinned" (between 91 93 (state.pinned.map quote))] else [])

/-- The state that is written in place of one past the bound. -/
def bounded (state : SessionState) : SessionState :=
  { principal := state.principal, pinned := state.pinned ++ [ascii "context"] }

/-- `EncodeSessionState`. -/
def encodeSessionState (state : SessionState) : Bytes :=
  if state.empty then []
  else if maxBytes < (base64UrlEncode state.json).length then base64UrlEncode state.bounded.json
  else base64UrlEncode state.json

/-! ## Reading -/

inductive Read where
  | absent
  | ok (state : SessionState)
  | unreadable
deriving DecidableEq, Repr

/-- `Text`: a string without a NUL. -/
def text : Json → Option Bytes
  | .str value => if 0 ∈ value then none else some value
  | _ => none

/-- What the loop over the members has read. -/
structure Reading where
  keys : List Bytes := []
  read : SessionState := { principal := [] }
  versioned : Bool := false
  owned : Bool := false

/-- The loop body over the parts of `use`. -/
def readUse (read : SessionState) (part : Bytes × Json) : Option SessionState :=
  if 0 ∈ part.1 then none
  else
    (text part.2).bind fun value =>
      if part.1 = ascii "catalog" then some { read with useCatalog := value }
      else if part.1 = ascii "schema" then some { read with useSchema := value }
      else none

/-- The loop body over the settings. -/
def readSetting (read : SessionState) (setting : Bytes × Json) : Option SessionState :=
  if 0 ∈ setting.1 then none
  else
    (text setting.2).bind fun value => (portableSetting setting.1).bind fun known =>
      if read.settings.any (·.1 = known) then none
      else some { read with settings := read.settings ++ [(known, value)] }

/-- The loop body over the pins: a reason this build does not know still pins. -/
def readPin (read : SessionState) (pin : Json) : Option SessionState :=
  (text pin).map fun name =>
    { read with pinned := read.pinned ++ [if isKnownPin name then name else ascii "context"] }

/-- The loop body over the members. The version is read as a 32-bit integer. -/
def readMember (reading : Reading) (entry : Bytes × Json) : Option Reading :=
  if 0 ∈ entry.1 ∨ entry.1 ∈ reading.keys then none
  else
    let reading := { reading with keys := reading.keys ++ [entry.1] }
    if entry.1 = ascii "v" then
      match entry.2 with
      | .int version => if version % 2 ^ 32 = 1 then some { reading with versioned := true } else none
      | _ => none
    else if entry.1 = ascii "p" then
      (text entry.2).bind fun principal =>
        if principal = [] then none else some { reading with read := { reading.read with principal }, owned := true }
    else if entry.1 = ascii "use" then
      match entry.2 with
      | .obj parts => (parts.foldlM readUse reading.read).map fun read => { reading with read }
      | _ => none
    else if entry.1 = ascii "set" then
      match entry.2 with
      | .obj settings => (settings.foldlM readSetting reading.read).map fun read => { reading with read }
      | _ => none
    else if entry.1 = ascii "pinned" then
      match entry.2 with
      | .arr pins => (pins.foldlM readPin reading.read).map fun read => { reading with read }
      | _ => none
    else none

/-- `DecodeSessionState`. -/
def decodeSessionState (yyjsonRead : Bytes → Option Json) (value : Bytes) : Read :=
  if value = [] then .absent
  else if maxInput < value.length then .unreadable
  else
    match (base64UrlDecode value).bind yyjsonRead with
    | some (.obj members) =>
      match members.foldlM readMember {} with
      | some reading => if reading.versioned && reading.owned then .ok reading.read else .unreadable
      | none => .unreadable
    | _ => .unreadable

/-- `SessionStateRead`. -/
inductive Answer where
  | absent
  | ok
  | unreadable
deriving DecidableEq, Repr

/-- `DecodeSessionState` with what it leaves in `out`, which it clears first and fills at its end only. -/
def decodeInto (yyjsonRead : Bytes → Option Json) (value : Bytes) : Answer × SessionState :=
  match decodeSessionState yyjsonRead value with
  | .absent => (.absent, { principal := [] })
  | .ok read => (.ok, read)
  | .unreadable => (.unreadable, { principal := [] })

end SessionState

end DuckAcl
