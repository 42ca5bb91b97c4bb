import DuckAcl.Library.Text
import DuckAcl.Library.Entries

/-! # Served sessions

A door verifies a token once and opens a session; each later statement carries the session's handle.
The store keeps the sessions under their handles, the external ids bound to a handle, and the external
ids whose view-as session ended. Each operation reads the clock and the settings before it takes the
store's lock, so a reading is an argument of the operation and readings need not grow from one
operation to the next. Everything under the lock is one step.

A session event carries no handle in the source, since the handle is a credential; here it does, to say
which session an event is about.
-/

namespace DuckAcl

/-- The clock and the settings an operation read before it took the lock. -/
structure Reading where
  now : Int
  skew : Int
  idle : Int
  expBinds : Bool
deriving DecidableEq

/-- The part of a principal's resource groups that an open counts. -/
structure ResourceLimits where
  charged : Text
  chargedMax : Nat
deriving DecidableEq

structure Session (P : Type) where
  principal : P
  id : Text
  expiresAt : Int
  lastUsed : Int
  door : Text := []
  openedAt : Int := 0
  auditLevel : Int := -1
  correlationId : Text := []
  traceparent : Text := []
  lineageParent : Text := []
  lineageRootParent : Text := []
  lineageJob : Text := []
  viewAs : Text := []
  limits : ResourceLimits := ⟨[], 0⟩
deriving DecidableEq

/-- A session event of the audit. -/
inductive SessionEvent (P : Type) where
  | opened (handle : Text) (principal : P) (door id : Text) (level : Int)
  | refused (principal : P) (door code reason : Text)
  | closed (handle : Text) (principal : P) (door id : Text) (level : Int) (how : Text) (lived : Int)
deriving DecidableEq

structure SessionStore (P : Type) where
  sessions : Entries Text (Session P)
  sessionBindings : Entries Text Text
  viewAsEnded : Entries Text Int
  lastSweep : Int
  /-- The notices `QueueClose` took: the session's id and how it ended. -/
  queuedCloses : List (Text × Text)
  events : List (SessionEvent P)

namespace SessionStore

variable {P : Type}

/-- A store nothing was opened in. -/
def init : SessionStore P where
  sessions := .empty
  sessionBindings := .empty
  viewAsEnded := .empty
  lastSweep := 0
  queuedCloses := []
  events := []

def sweepIntervalSeconds : Int := 60

def viewAsEndedSeconds : Int := 86400

/-- Record the end of a session's view-as for every external id bound to its handle. -/
def noteViewAsEnded (bindings : List (Text × Text)) (handle : Text) (now : Int) (ended : Entries Text Int) :
    Entries Text Int :=
  bindings.foldl (fun ended binding => if binding.2 = handle then ended.put binding.1 now else ended) ended

/-- The close of a session being removed. The scan for the session's own address is the lookup of its
handle: a session that was erased already would not be found. -/
def sessionClosed (store : SessionStore P) (handle : Text) (session : Session P) (how : Text) (now : Int) :
    SessionStore P :=
  { store with
    queuedCloses := store.queuedCloses ++ [(session.id, how)]
    viewAsEnded :=
      if session.viewAs ≠ [] ∧ store.sessions.has handle = true then
        noteViewAsEnded store.sessionBindings.list handle now store.viewAsEnded
      else store.viewAsEnded
    events := store.events ++ [.closed handle session.principal session.door session.id session.auditLevel how
      (if 0 < session.openedAt then (now - session.openedAt) * 1000000 else -1)] }

def eraseSession (store : SessionStore P) (handle : Text) : SessionStore P :=
  { store with sessions := store.sessions.drop handle }

/-- Erase the bindings of a handle. -/
def unbind (store : SessionStore P) (handle : Text) : SessionStore P :=
  { store with sessionBindings := store.sessionBindings.keep fun binding => decide (binding.2 ≠ handle) }

/-! ## Judging a session -/

def sessionPrincipal (store : SessionStore P) (handle : Text) (reading : Reading) :
    SessionStore P × Except Text P :=
  match store.sessions.find handle with
  | none => (store, .error "unknown".toList)
  | some session =>
    if reading.expBinds && decide (0 < session.expiresAt) &&
        decide (session.expiresAt + reading.skew < reading.now) then
      ((store.sessionClosed handle session "expired".toList reading.now).eraseSession handle,
        .error "expired".toList)
    else if decide (0 < reading.idle) && decide (session.lastUsed + reading.idle < reading.now) then
      ((store.sessionClosed handle session "idle".toList reading.now).eraseSession handle, .error "idle".toList)
    else
      ({ store with sessions := store.sessions.alter handle fun held => { held with lastUsed := reading.now } },
        .ok session.principal)

def sessionAlive (store : SessionStore P) (handle : Text) (reading : Reading) : Bool :=
  match store.sessions.find handle with
  | none => false
  | some session =>
    if reading.expBinds && decide (0 < session.expiresAt) &&
        decide (session.expiresAt + reading.skew < reading.now) then false
    else if decide (0 < reading.idle) && decide (session.lastUsed + reading.idle < reading.now) then false
    else true

def sessionTouch (store : SessionStore P) (handle : Text) (reading : Reading) : SessionStore P × Bool :=
  match store.sessions.find handle with
  | none => (store, false)
  | some session =>
    if reading.expBinds && decide (0 < session.expiresAt) &&
        decide (session.expiresAt + reading.skew < reading.now) then (store, false)
    else if decide (0 < reading.idle) && decide (session.lastUsed + reading.idle < reading.now) then (store, false)
    else
      ({ store with sessions := store.sessions.alter handle fun held => { held with lastUsed := reading.now } }, true)

def sessionReason (store : SessionStore P) (handle : Text) (reading : Reading) : Text :=
  match store.sessions.find handle with
  | none => "unknown".toList
  | some session =>
    if reading.expBinds && decide (0 < session.expiresAt) &&
        decide (session.expiresAt + reading.skew < reading.now) then "expired".toList
    else if decide (0 < reading.idle) && decide (session.lastUsed + reading.idle < reading.now) then "idle".toList
    else "live".toList

/-- One turn of the sweep's loop over the sessions. -/
def sweepEntry (reading : Reading) (swept : SessionStore P × Nat) (entry : Text × Session P) :
    SessionStore P × Nat :=
  let expired := reading.expBinds && decide (0 < entry.2.expiresAt) &&
    decide (entry.2.expiresAt + reading.skew < reading.now)
  let stale := decide (0 < reading.idle) && decide (entry.2.lastUsed + reading.idle < reading.now)
  if expired || stale then
    ((swept.1.sessionClosed entry.1 entry.2 (if expired then "expired".toList else "idle".toList)
      reading.now).eraseSession entry.1, swept.2 + 1)
  else swept

def sweepLocked (store : SessionStore P) (reading : Reading) : SessionStore P × Nat :=
  let swept := store.sessions.list.foldl (sweepEntry reading) (store, 0)
  ({ swept.1 with
    sessionBindings := swept.1.sessionBindings.keep fun binding => swept.1.sessions.has binding.2
    viewAsEnded := swept.1.viewAsEnded.keep fun ended => !decide (ended.2 + viewAsEndedSeconds < reading.now)
    lastSweep := reading.now }, swept.2)

def sessionSweep (store : SessionStore P) (reading : Reading) : SessionStore P × Nat :=
  store.sweepLocked reading

/-! ## The prefix a door composes -/

/-- The longest part of a text that fits, cut between characters. -/
def truncateUtf8 : Text → Nat → Text
  | [], _ => []
  | c :: rest, maxBytes => if c.utf8Size ≤ maxBytes then c :: truncateUtf8 rest (maxBytes - c.utf8Size) else []

def boundTrace (value : Text) : Text :=
  truncateUtf8 (value.filter fun c => decide (0x20 ≤ c.toNat) && decide (c.toNat ≠ 0x7f)) 128

def boundLineage (value : Text) : Text := truncateUtf8 value 512

def quotedMarker (keyword value : Text) : Text :=
  keyword ++ " '".toList ++ Text.double '\'' value ++ "' ".toList

def lineageMarkers (parent rootParent job : Text) : Text :=
  if parent = [] ∧ rootParent = [] ∧ job = [] then []
  else
    "LINEAGE ".toList ++
      (if parent = [] then [] else quotedMarker "PARENT".toList (boundLineage parent)) ++
      (if rootParent = [] then [] else quotedMarker "ROOT".toList (boundLineage rootParent)) ++
      (if job = [] then [] else quotedMarker "JOB".toList (boundLineage job))

def traceMarkers (correlationId traceparent : Text) : Text :=
  (if correlationId = [] then [] else quotedMarker "TRACE".toList (boundTrace correlationId)) ++
    (if traceparent = [] then [] else quotedMarker "PARENT".toList (boundTrace traceparent))

/-- What a caller carries with a statement. -/
structure Carried where
  correlationId : Text := []
  traceparent : Text := []
  lineageParent : Text := []
  lineageRootParent : Text := []
  lineageJob : Text := []

/-- What the caller carries wins over what the client set on the session. -/
def carriedOr (carried set : Text) : Text := if carried = [] then set else carried

def sessionSql (store : SessionStore P) (handle sql : Text) (carried : Carried) (reading : Reading) :
    SessionStore P × Text :=
  match store.sessions.find handle with
  | none => (store, [])
  | some session =>
    if reading.expBinds && decide (0 < session.expiresAt) &&
        decide (session.expiresAt + reading.skew < reading.now) then (store, [])
    else if decide (0 < reading.idle) && decide (session.lastUsed + reading.idle < reading.now) then (store, [])
    else
      ({ store with sessions := store.sessions.alter handle fun held => { held with lastUsed := reading.now } },
        "ACL SESSION '".toList ++ Text.double '\'' handle ++ "' ".toList ++
          traceMarkers (carriedOr carried.correlationId session.correlationId)
            (carriedOr carried.traceparent session.traceparent) ++
          lineageMarkers (carriedOr carried.lineageParent session.lineageParent)
            (carriedOr carried.lineageRootParent session.lineageRootParent)
            (carriedOr carried.lineageJob session.lineageJob) ++ sql)

/-! ## Opening -/

/-- An open that reached the critical section: the token is verified, the resource groups resolved, the
handle and the id minted. -/
structure OpenRequest (P : Type) where
  principal : P
  door : Text
  expiresAt : Int
  sessionLevel : Int
  limits : ResourceLimits
  replacing : Text
  handle : Text
  id : Text
  reading : Reading
  cap : Int

structure OpenRefusal where
  code : Text
  reason : Text
deriving DecidableEq

/-- Whether the open sweeps before it makes room. -/
def openSweeps (store : SessionStore P) (request : OpenRequest P) : Bool :=
  decide (sweepIntervalSeconds ≤ request.reading.now - store.lastSweep) ||
    (decide (0 < request.cap) && decide (request.cap ≤ store.sessions.list.length))

def sweptForOpen (store : SessionStore P) (request : OpenRequest P) : SessionStore P :=
  if store.openSweeps request then (store.sweepLocked request.reading).1 else store

/-- The sessions that hold a seat of the node: all but the one this open replaces. -/
def occupied (store : SessionStore P) (replacing : Text) : Nat :=
  store.sessions.list.length - if replacing ≠ [] ∧ store.sessions.has replacing = true then 1 else 0

/-- The sessions that hold a seat of the group, as the open counts them. -/
def chargedTo (store : SessionStore P) (charged replacing : Text) : Nat :=
  store.sessions.list.countP fun entry =>
    decide (entry.2.limits.charged = charged) && decide (entry.1 ≠ replacing)

/-- Why an open is refused, in the store it swept. -/
def openRefusal (store : SessionStore P) (request : OpenRequest P) : Option OpenRefusal :=
  if 0 < request.cap ∧ request.cap ≤ store.occupied request.replacing then
    some ⟨"at_capacity".toList,
      "acl: at acl_max_sessions - a new session is refused, never an old one ended".toList⟩
  else if request.limits.charged ≠ [] ∧
      request.limits.chargedMax ≤ store.chargedTo request.limits.charged request.replacing then
    some ⟨"at_capacity".toList,
      "acl: resource group \"".toList ++ request.limits.charged ++ "\" is at its max_sessions (".toList ++
        (toString request.limits.chargedMax).toList ++ ") - a new session is refused".toList⟩
  else none

/-- The session an open seats. -/
def OpenRequest.session (request : OpenRequest P) : Session P where
  principal := request.principal
  id := request.id
  expiresAt := request.expiresAt
  lastUsed := request.reading.now
  door := request.door
  openedAt := request.reading.now
  auditLevel := request.sessionLevel
  limits := request.limits

/-- The critical section of an open. -/
def sessionOpenBody (store : SessionStore P) (request : OpenRequest P) : SessionStore P × Except OpenRefusal Text :=
  let swept := store.sweptForOpen request
  match swept.openRefusal request with
  | some refusal =>
    ({ swept with events := swept.events ++ [.refused request.principal request.door refusal.code refusal.reason] },
      .error refusal)
  | none =>
    ({ swept with
      sessions := swept.sessions.put request.handle request.session
      events := swept.events ++
        [.opened request.handle request.principal request.door request.id request.sessionLevel] },
      .ok request.handle)

/-! ## Ending -/

def sessionEndBound (store : SessionStore P) (externalId how : Text) (now : Int) : SessionStore P :=
  match store.sessionBindings.find externalId with
  | none => store
  | some handle =>
    let ended :=
      match store.sessions.find handle with
      | some session => (store.sessionClosed handle session how now).eraseSession handle
      | none => store
    { ended with sessionBindings := ended.sessionBindings.drop externalId }

def sessionKill (store : SessionStore P) (id : Text) (now : Int) : SessionStore P × Bool :=
  match store.sessions.list.find? fun entry => decide (entry.2.id = id) with
  | some entry =>
    (((store.sessionClosed entry.1 entry.2 "killed".toList now).eraseSession entry.1).unbind entry.1, true)
  | none => (store, false)

def sessionClose (store : SessionStore P) (handle : Text) (now : Int) : SessionStore P :=
  let ended :=
    match store.sessions.find handle with
    | some session => (store.sessionClosed handle session "client".toList now).eraseSession handle
    | none => store
  ended.unbind handle

def sessionBind (store : SessionStore P) (externalId handle : Text) (now : Int) : SessionStore P :=
  let ended :=
    match store.sessionBindings.find externalId with
    | some previous =>
      if previous ≠ handle then
        match store.sessions.find previous with
        | some replaced => (store.sessionClosed previous replaced "client".toList now).eraseSession previous
        | none => store
      else store
    | none => store
  { ended with sessionBindings := ended.sessionBindings.put externalId handle }

def sessionCloseAll (store : SessionStore P) (now : Int) : SessionStore P × Nat :=
  let closed := store.sessions.list.foldl
    (fun closed entry => closed.sessionClosed entry.1 entry.2 "door_stopped".toList now) store
  ({ closed with sessions := .empty, sessionBindings := .empty }, store.sessions.list.length)

def sessionViewAsEnded (store : SessionStore P) (externalId : Text) : Bool := store.viewAsEnded.has externalId

/-! ## What a client or an operator sets on a session -/

/-- Change the first session of an id. -/
def alterById (store : SessionStore P) (id : Text) (change : Session P → Session P) : SessionStore P × Bool :=
  match store.sessions.list.find? fun entry => decide (entry.2.id = id) with
  | some entry => ({ store with sessions := store.sessions.alter entry.1 change }, true)
  | none => (store, false)

def sessionViewAs (store : SessionStore P) (id role : Text) : SessionStore P × Bool :=
  store.alterById id fun session => { session with viewAs := role }

/-- How the setting of a name is kept on a session. -/
def traceSetter (name : Text) : Option (Text → Session P → Session P) :=
  if Text.ciEquals name "acl_correlation_id".toList then
    some fun value session => { session with correlationId := boundTrace value }
  else if Text.ciEquals name "acl_traceparent".toList then
    some fun value session => { session with traceparent := boundTrace value }
  else if Text.ciEquals name "acl_lineage_parent".toList then
    some fun value session => { session with lineageParent := boundLineage value }
  else if Text.ciEquals name "acl_lineage_root_parent".toList then
    some fun value session => { session with lineageRootParent := boundLineage value }
  else if Text.ciEquals name "acl_lineage_job".toList then
    some fun value session => { session with lineageJob := boundLineage value }
  else none

def setSessionTrace (store : SessionStore P) (id name value : Text) : SessionStore P × Bool :=
  match store.sessions.list.find? fun entry => decide (entry.2.id = id) with
  | some entry =>
    match traceSetter name with
    | some set => ({ store with sessions := store.sessions.alter entry.1 (set value) }, true)
    | none => (store, false)
  | none => (store, false)

end SessionStore

/-! ## Runs -/

/-- An operation on the session store that may change it. -/
inductive SessionCall (P : Type) where
  | openBody (request : SessionStore.OpenRequest P)
  | endBound (externalId how : Text) (now : Int)
  | principal (handle : Text) (reading : Reading)
  | touch (handle : Text) (reading : Reading)
  | sql (handle sql : Text) (carried : SessionStore.Carried) (reading : Reading)
  | sweep (reading : Reading)
  | kill (id : Text) (now : Int)
  | close (handle : Text) (now : Int)
  | bind (externalId handle : Text) (now : Int)
  | closeAll (now : Int)
  | viewAs (id role : Text)
  | setTrace (id name value : Text)

namespace SessionStore

variable {P : Type}

def perform (store : SessionStore P) : SessionCall P → SessionStore P
  | .openBody request => (store.sessionOpenBody request).1
  | .endBound externalId how now => store.sessionEndBound externalId how now
  | .principal handle reading => (store.sessionPrincipal handle reading).1
  | .touch handle reading => (store.sessionTouch handle reading).1
  | .sql handle sql carried reading => (store.sessionSql handle sql carried reading).1
  | .sweep reading => (store.sessionSweep reading).1
  | .kill id now => (store.sessionKill id now).1
  | .close handle now => store.sessionClose handle now
  | .bind externalId handle now => store.sessionBind externalId handle now
  | .closeAll now => (store.sessionCloseAll now).1
  | .viewAs id role => (store.sessionViewAs id role).1
  | .setTrace id name value => (store.setSessionTrace id name value).1

/-- The store after a run of operations, in the order in which they take the lock. -/
def performAll (store : SessionStore P) (calls : List (SessionCall P)) : SessionStore P := calls.foldl perform store

/-- The handle an operation minted. -/
def minted : SessionCall P → Option Text
  | .openBody request => some request.handle
  | _ => none

/-- Handles are random hex digits, "never handed out twice". -/
def MintedOnce (calls : List (SessionCall P)) : Prop :=
  (calls.filterMap minted).Nodup ∧ [] ∉ calls.filterMap minted

instance (calls : List (SessionCall P)) : Decidable (MintedOnce calls) := inferInstanceAs (Decidable (_ ∧ _))

end SessionStore

end DuckAcl
