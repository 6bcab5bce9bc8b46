import CallBackend.Server.Types

/-!
# The server and its session manager

The functions of `SessionManager`, `QAppServer` and the authentication service, each as the code
computes it while it holds its lock. Database writes, requests to the native helper and work on files
can fail one by one.

A message is handled in two steps. `acceptMessage` runs under the session lock and binds the message
to a session; `serve` runs the handler later, without that lock. Closing a link first marks it; the
`on_close` clean-up takes one logical id at a time. It is part of `revoke` if the notice breaks the
link.
-/

namespace CallBackend.Server

open Exec Function

def getSession (id : SessionId) : ServerM Session := do
  return (← get).objects id

def setSession (id : SessionId) (session : Session) : ServerM Unit :=
  modify fun st => { st with objects := update st.objects id session }

def setConnection (id : ConnId) (connection : Connection) : ServerM Unit :=
  modify fun st => { st with connections := update st.connections id connection }

/-! ### The session manager -/

/-- One write to the session table. -/
def writeDatabase : ServerM Unit := do
  let st ← get
  modify fun st => { st with dbWrites := st.dbWrites + 1 }
  ensure ((← ask).dbSucceeds st.dbWrites) .databaseError

def persistInterval : Nanos := seconds 60

/-- `SessionManager.create` for a provisional session, and its entry in the logical index. -/
def create (setup : Setup) (id : SessionId) (c : ConnId) (logicalId : LogicalId) : ServerM Unit := do
  let now := (← ask).now
  setSession id {
    provisional := true
    lastSeen := now
    expiresAt := now + setup.config.unauthenticatedSessionTtl
    lastPersistedAt := now
    connection := some c
    qappConnectionId := some logicalId }
  modify fun st => { st with
    known := st.known ++ [id]
    registry := st.registry ++ [id]
    logicalSessions := update st.logicalSessions logicalId (some id) }

/-- A session whose owner has proved an address. -/
def Session.promoted (session : Session) (user : String) (now ttl : Nanos) : Session :=
  { session with
    authenticatedUser := some user
    provisional := false
    lastSeen := now
    expiresAt := now + ttl }

/-- Stores the promoted session, and records the link the proof came on. -/
def ServerState.withProof (st : ServerState) (id : SessionId) (session : Session) : ServerState :=
  { st with
    objects := update st.objects id session
    provedOn := update st.provedOn id session.connection }

def promote (setup : Setup) (id : SessionId) (user : String) : ServerM Unit := do
  ensure (id ∈ (← get).registry) (.valueError "session is no longer active")
  let now := (← ask).now
  let session := (← getSession id).promoted user now setup.config.sessionTtl
  modify (·.withProof id session)
  writeDatabase
  setSession id { session with lastPersistedAt := now }

/-- The part of `touch` for a registered session that is not provisional. -/
def extend (setup : Setup) (id : SessionId) (timestamp : Nanos) : ServerM Unit := do
  let session := { (← getSession id) with
    lastSeen := timestamp, expiresAt := timestamp + setup.config.sessionTtl }
  setSession id session
  if session.lastPersistedAt + persistInterval ≤ timestamp then
    writeDatabase
    setSession id { session with lastPersistedAt := timestamp }

def touch (setup : Setup) (id : SessionId) (timestamp : Nanos) : ServerM Unit := do
  let st ← get
  if id ∈ st.registry then
    if (st.objects id).provisional then
      setSession id { st.objects id with lastSeen := timestamp }
    else extend setup id timestamp

def persist (id : SessionId) : ServerM Unit := do
  let st ← get
  if (st.objects id).provisional ∨ id ∉ st.registry then return
  writeDatabase
  setSession id { st.objects id with lastPersistedAt := (st.objects id).lastSeen }

/-- The registered sessions whose time is up. -/
def ServerState.overdue (st : ServerState) (now : Nanos) : List SessionId :=
  st.registry.filter fun id => decide ((st.objects id).expiresAt ≤ now)

def unregister (id : SessionId) : ServerM Unit :=
  modify fun st => { st with registry := st.registry.erase id }

/-- `SessionManager.expire`: the sessions are gone even if the write fails. -/
def expire (now : Nanos) : ServerM (List SessionId) := do
  let st ← get
  forEach unregister (st.overdue now)
  if (st.overdue now).any fun id => !(st.objects id).provisional then writeDatabase
  return st.overdue now

def discard (id : SessionId) : ServerM Unit := do
  let st ← get
  if id ∈ st.registry then
    unregister id
    if !(st.objects id).provisional then writeDatabase

def ServerState.provisionalCount (st : ServerState) : Nat :=
  (st.registry.filter fun id => (st.objects id).provisional).length

/-- `seen_message`: a window of the most recent message ids. -/
def seenMessage (setup : Setup) (id : SessionId) (messageId : Nat) : ServerM Bool := do
  let session ← getSession id
  let window := session.dedup.erase messageId ++ [messageId]
  setSession id { session with dedup := window.drop (window.length - setup.config.dedupCacheSize) }
  return messageId ∈ session.dedup

/-! ### Leaving the server -/

/-- `AttachTokenAuthority.invalidate_session`. -/
def TokenAuthority.invalidate (tokens : TokenAuthority) (id : SessionId) : TokenAuthority :=
  { tokens with
    grants := tokens.grants.filter fun _ grant => decide (grant.logicalSessionId ≠ id)
    issued := tokens.issued.erase id }

/-- Everything `PrivateTransportService.invalidate_session` takes from a session. -/
def ServerState.withoutCredentials (st : ServerState) (env : ServerEnv) (id : SessionId) :
    ServerState :=
  { st with
    objects := update st.objects id { st.objects id with privateTransport := none }
    tokens := st.tokens.invalidate id
    grantFiles := fun token =>
      if token ∈ st.mediaGrantFiles id ∧ env.unlinks token then none else st.grantFiles token
    mediaGrantFiles := update st.mediaGrantFiles id []
    epoch := update st.epoch id (st.epoch id + 1) }

/-- `PrivateTransportService.invalidate_session` with `close_attached`: the attached transport is
told to close last. -/
def invalidateSession (id : SessionId) : ServerM Unit := do
  let st ← get
  let env ← ask
  modify (·.withoutCredentials env id)
  ensure ((st.mediaGrantFiles id).all env.unlinks) .osError
  if st.mediaGrantFiles id ≠ [] ∨ (st.call.callRoomId id).isSome then
    ensure (env.marksRevoked id) .osError
  ensure ((st.objects id).privateTransport.all env.closeSucceeds) .osError

/-- `_remove_session_indexes`. -/
def ServerState.withoutIndexes (st : ServerState) (id : SessionId) : ServerState :=
  match (st.objects id).qappConnectionId with
  | none => st
  | some logicalId =>
    { st with
      logicalSessions :=
        if st.logicalSessions logicalId = some id then
          update st.logicalSessions logicalId none
        else st.logicalSessions
      connections :=
        match (st.objects id).connection with
        | some c => update st.connections c
            { st.connections c with logicalIds := (st.connections c).logicalIds.erase logicalId }
        | none => st.connections }

/-- `_remove_session_indexes` and `session.connection = None`. -/
def unbind (id : SessionId) : ServerM Unit := do
  modify (·.withoutIndexes id)
  setSession id { (← getSession id) with connection := none }

def discardSession (id : SessionId) : ServerM Unit := do
  invalidateSession id
  unbind id
  discard id

/-- The disconnect handlers; whatever they raise is logged. -/
def disconnectHandlers (setup : Setup) (id : SessionId) : ServerM Unit :=
  rescue (do let _ ← inCalls setup (.disconnected id)) fun _ => pure ()

def revokeSession (setup : Setup) (id : SessionId) : ServerM Unit := do
  if id ∈ (← get).registry then
    disconnectHandlers setup id
    discardSession id

def expireSessions (now : Nanos) : ServerM Unit := do
  let expired ← expire now
  forEach (fun id => do
    invalidateSession id
    unbind id) expired

/-- The part of `_disconnect_logical_session` for a session that has been authenticated. -/
def disconnectSession (setup : Setup) (id : SessionId) : ServerM Unit := do
  invalidateSession id
  unbind id
  setSession id { (← getSession id) with qappConnectionId := none }
  touch setup id (← ask).now
  persist id
  disconnectHandlers setup id

def disconnectLogicalSession (setup : Setup) (c : ConnId) (logicalId : LogicalId) : ServerM Unit := do
  let st ← get
  match st.logicalSessions logicalId with
  | none => pure ()
  | some id =>
    if (st.objects id).connection ≠ some c then pure ()
    else if (st.objects id).provisional then discardSession id
    else disconnectSession setup id

/-! ### Links -/

def markClosed (c : ConnId) : ServerM Unit :=
  modify fun st => { st with
    connections := update st.connections c { st.connections c with closed := true } }

def setCleanup (c : ConnId) (cleanup : Cleanup) : ServerM Unit :=
  modify fun st => { st with
    connections := update st.connections c { st.connections c with cleanup } }

/-- One round of the loop in `_connection_closed`; an exception ends the loop. -/
def cleanupNext (setup : Setup) (c : ConnId) (logicalId : LogicalId) (rest : List LogicalId) :
    ServerM Unit :=
  rescue (do
    setCleanup c (.running rest)
    disconnectLogicalSession setup c logicalId) fun error => do
      setCleanup c .ended
      raise error

/-- The end of `_connection_closed`. -/
def cleanupEnd (c : ConnId) : ServerM Unit :=
  modify fun st => { st with
    connections := update st.connections c
      { st.connections c with logicalIds := [], newTimes := [], cleanup := .ended } }

/-- The beginning of `_connection_closed`. -/
def startCleanup (c : ConnId) : ServerM Unit := do
  let connection := (← get).connections c
  if connection.closed ∧ connection.cleanup = .pending then
    setCleanup c (.running connection.logicalIds)

def nextCleanup (setup : Setup) (c : ConnId) : ServerM Unit := do
  match ((← get).connections c).cleanup with
  | .running (logicalId :: rest) => cleanupNext setup c logicalId rest
  | _ => pure ()

def endCleanup (c : ConnId) : ServerM Unit := do
  match ((← get).connections c).cleanup with
  | .running [] => cleanupEnd c
  | _ => pure ()

/-- `PhysicalConnection.close` with the whole of `_connection_closed`, in one thread. -/
def closeLink (setup : Setup) (c : ConnId) : ServerM Unit := do
  markClosed c
  startCleanup c
  forEach (fun _ => nextCleanup setup c) ((← get).connections c).logicalIds
  endCleanup c

/-- A `CLOSE` control frame for one logical id. -/
def closeLogical (setup : Setup) (c : ConnId) (logicalId : LogicalId) : ServerM Unit := do
  let connection := (← get).connections c
  if logicalId ∈ connection.logicalIds then
    setConnection c { connection with
      logicalIds := connection.logicalIds.erase logicalId
      closedLogicalIds := connection.closedLogicalIds.insert logicalId }
    disconnectLogicalSession setup c logicalId

/-! ### Messages -/

def recentTimes (now : Nanos) (times : List Nanos) : List Nanos :=
  times.dropWhile fun t => decide (t + seconds 60 ≤ now)

def admitLogicalId (setup : Setup) (c : ConnId) (logicalId : LogicalId) (creating : Bool)
    (now : Nanos) : ServerM Unit := do
  let connection := (← get).connections c
  if logicalId ∈ connection.logicalIds then return
  ensure (connection.logicalIds.length < setup.config.maxLogicalSessionsPerLink)
    (.protocolError "logical session limit reached")
  let times := recentTimes now connection.newTimes
  setConnection c { connection with newTimes := times }
  ensure (¬(creating ∧ setup.config.maxNewSessionsPerLinkPerMinute ≤ times.length))
    (.protocolError "logical session creation rate exceeded")
  setConnection c { connection with
    logicalIds := connection.logicalIds.insert logicalId
    newTimes := if creating then times ++ [now] else times }

/-- The branch of `_application_message` that creates a session. -/
def acceptNew (setup : Setup) (c : ConnId) (logicalId : LogicalId) (fresh : SessionId) :
    ServerM SessionId := do
  let now := (← ask).now
  expireSessions now
  ensure ((← get).provisionalCount < setup.config.maxUnauthenticatedSessions)
    (.protocolError "unauthenticated session capacity reached")
  admitLogicalId setup c logicalId true now
  create setup fresh c logicalId
  return fresh

/-- Whether another open link holds the session. -/
def ServerState.heldElsewhere (st : ServerState) (c : ConnId) (id : SessionId) : Bool :=
  (st.objects id).connection.any fun old => old ≠ c && !(st.connections old).closed

/-- The branch of `_application_message` for a logical id that has a session. -/
def acceptExisting (setup : Setup) (c : ConnId) (logicalId : LogicalId) (id : SessionId) :
    ServerM SessionId := do
  admitLogicalId setup c logicalId false (← ask).now
  let st ← get
  if st.heldElsewhere c id then
    setConnection c { st.connections c with
      logicalIds := (st.connections c).logicalIds.erase logicalId }
    raise (.protocolError "logical connection is already active")
  setSession id { st.objects id with connection := some c }
  return id

/-- The part of `_application_message` under the session lock: the session the message is for. -/
def acceptMessage (setup : Setup) (c : ConnId) (logicalId : LogicalId) (fresh : SessionId) :
    ServerM SessionId := do
  let st ← get
  let now := (← ask).now
  match st.logicalSessions logicalId with
  | none => acceptNew setup c logicalId fresh
  | some id =>
    if (st.objects id).expiresAt ≤ now then do
      discardSession id
      acceptNew setup c logicalId fresh
    else acceptExisting setup c logicalId id

/-- The handlers the application registers, other than those of the call service. -/
def otherHandlers : List String :=
  ["echo", "subscribe", "unsubscribe", "server_time", "private_transport_echo", "file_binary",
    "file_request"]

/-- A handler is registered for the message. -/
def isHandled (message : Json) : Bool :=
  match message.get "type" with
  | .str kind => kind = "AUTHENTICATE" || (Call.handlerFor message).isSome || kind ∈ otherHandlers
  | _ => false

/-- A `DATA` frame for a logical id: what it is bound to is handled later. An exception closes the
link. -/
def receive (setup : Setup) (c : ConnId) (logicalId : LogicalId) (messageId : Nat) (message : Json)
    (fresh : SessionId) : ServerM Unit := do
  if logicalId ∈ ((← get).connections c).closedLogicalIds ∨ !isHandled message then return
  rescue (do
    let id ← acceptMessage setup c logicalId fresh
    let now := (← ask).now
    modify fun st => { st with inflight := st.inflight ++ [⟨c, id, messageId, message, now⟩] })
    fun error => do
      markClosed c
      raise error

/-- `QAppAuthenticationService.authenticate`, where `verified` is the address and the Q-App that
the proof shows and the access policy accepts. -/
def authenticate (setup : Setup) (id : SessionId) (verified : Option (String × QAppIdentity)) :
    ServerM Unit :=
  match verified with
  | none => pure ()
  | some (address, identity) => do
    setSession id { (← getSession id) with qappIdentity := some identity }
    promote setup id address
    persist id

def handle (setup : Setup) (invocation : Invocation) (verified : Option (String × QAppIdentity)) :
    ServerM Unit := do
  if (Call.handlerFor invocation.message).isSome then
    let _ ← inCalls setup (.message invocation.session invocation.message)
  else if (invocation.message.get "type").text? = some "AUTHENTICATE" then
    authenticate setup invocation.session verified

/-- The rest of `_application_message`: what the handler raises is logged, and what `touch` raises
closes the link. -/
def serve (setup : Setup) (invocation : Invocation) (verified : Option (String × QAppIdentity)) :
    ServerM Unit := do
  let seen ← seenMessage setup invocation.session invocation.messageId
  if seen then return
  rescue (touch setup invocation.session invocation.now) fun error => do
    markClosed invocation.connection
    raise error
  rescue (handle setup invocation verified) fun _ => pure ()

/-! ### Revocation -/

/-- How `send_data` can fail on an open link. -/
inductive SendFault where
  | backpressure
  | connectionClosed
  | encoding
  | timeout
  | osError
  | queueFull
  deriving DecidableEq

def SendFault.exn : SendFault → Exn
  | .backpressure => .backpressureError "maximum unacknowledged message count reached"
  | .connectionClosed => .connectionClosedError "physical connection is closed"
  | .encoding => .valueError "payload exceeds maximum frame size"
  | .timeout => .timeoutError
  | .osError => .osError
  | .queueFull => .queueFull

def SendFault.closesLink : SendFault → Bool
  | .timeout | .osError | .queueFull => true
  | _ => false

/-- The session is bound to an open link. -/
def ServerState.linked (st : ServerState) (id : SessionId) : Bool :=
  (st.objects id).connection.any fun c => !(st.connections c).closed

/-- What `_write` does to a link it has failed on; `close` closes the link. -/
def breakLink (close : ConnId → ServerM Unit) (fault : SendFault) (connection : Option ConnId) :
    ServerM Unit :=
  match connection with
  | some c => if fault.closesLink then close c else pure ()
  | none => pure ()

/-- `ApplicationSession.send`. -/
def sendSession (close : ConnId → ServerM Unit) (id : SessionId) (fault : Option SendFault) :
    ServerM Unit := do
  let st ← get
  ensure (st.linked id) (.runtimeError "session has no active physical connection")
  ensure ((st.objects id).qappConnectionId.any (· ≠ ""))
    (.runtimeError "session has no Q-App logical connection ID")
  match fault with
  | none => pure ()
  | some fault => do
    breakLink close fault (st.objects id).connection
    raise fault.exn

def revoke (setup : Setup) (id : SessionId) (fault : Option SendFault) : ServerM Unit := do
  rescue (sendSession (closeLink setup) id fault) fun error =>
    if error.isRuntimeError then pure () else raise error
  revokeSession setup id

end CallBackend.Server
