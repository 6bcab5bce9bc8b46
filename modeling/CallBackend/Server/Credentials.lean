import CallBackend.Server.Service

/-!
# Attach credentials

`PrivateTransportService.bootstrap` issues one-time tokens to authenticated sessions, and `attach`
takes them back from the native transport. A token for the purpose `realtime` changes hands: its
grant becomes a file, the media service is its only authority from then on, and the authority in
the Python process forgets it. While `bootstrap` is between the two it holds the session lock.

The media service may consist of several processes. To consume a grant a process renames its file,
which succeeds for one of them, and then judges what it has read.
-/

namespace CallBackend.Server

open Exec

/-! ### The authority -/

/-- `_expire_locked`. -/
def TokenAuthority.expireGrants (tokens : TokenAuthority) (now : Nanos) : TokenAuthority :=
  { tokens with grants := tokens.grants.filter fun _ grant => decide (now < grant.expiresAt) }

def pruned {κ : Type} [DecidableEq κ] (now : Nanos) (times : Dict κ (List Nanos)) :
    Dict κ (List Nanos) :=
  (times.mapValues (recentTimes now)).filter fun _ recent => !recent.isEmpty

/-- `_prune_rates_locked`. -/
def TokenAuthority.pruneRates (tokens : TokenAuthority) (now : Nanos) : TokenAuthority :=
  { tokens with
    issued := pruned now tokens.issued
    issuedUsers := pruned now tokens.issuedUsers }

/-- The grants a session has not used. -/
def TokenAuthority.unused (tokens : TokenAuthority) (id : SessionId) : Nat :=
  (tokens.grants.values.filter fun grant => grant.logicalSessionId = id).length

/-- The limits of `issue`, which raises `BootstrapRateLimited` when one is reached. -/
def TokenAuthority.admits (config : Config) (tokens : TokenAuthority) (grant : AttachGrant) : Bool :=
  ((tokens.issued.get? grant.logicalSessionId).getD []).length <
      config.privateTransportBootstrapsPerMinute &&
    ((tokens.issuedUsers.get? grant.authenticatedUser).getD []).length <
      config.privateTransportBootstrapsPerUserPerMinute &&
    tokens.unused grant.logicalSessionId < config.privateTransportMaxUnusedPerSession &&
    tokens.grants.size < config.privateTransportMaxUnusedGlobal

/-- The entries `issue` makes when the limits allow it. -/
def TokenAuthority.record (tokens : TokenAuthority) (now : Nanos) (token : Token)
    (grant : AttachGrant) : TokenAuthority where
  grants := tokens.grants.set token grant
  issued := tokens.issued.set grant.logicalSessionId
    ((tokens.issued.get? grant.logicalSessionId).getD [] ++ [now])
  issuedUsers := tokens.issuedUsers.set grant.authenticatedUser
    ((tokens.issuedUsers.get? grant.authenticatedUser).getD [] ++ [now])

/-- `AttachTokenAuthority.issue`: whether the token was issued. -/
def issue (setup : Setup) (token : Token) (grant : AttachGrant) : ServerM Bool := do
  let now := (← ask).now
  modify fun st => { st with tokens := (st.tokens.expireGrants now).pruneRates now }
  if (← get).tokens.admits setup.config grant then
    modify fun st => { st with tokens := st.tokens.record now token grant }
    return true
  else return false

def release (token : Token) : ServerM Unit :=
  modify fun st => { st with tokens := { st.tokens with grants := st.tokens.grants.erase token } }

/-! ### Bootstrap -/

/-- The JSON number one, or what Python takes for it. -/
def isOne : Json → Bool
  | .int n => n = 1
  | .float q => q = 1
  | .bool b => b
  | _ => false

def noncePattern : String → Bool := fullmatch Call.isIdChar 32 128

def Purpose.parse : Json → Except String Purpose
  | .str "game" => .ok .game
  | .str "file-transfer" => .ok .fileTransfer
  | .str "realtime" => .ok .realtime
  | .arr _ => .error "internal_error"
  | .obj _ => .error "internal_error"
  | _ => .error "unsupported_purpose"

/-- The nonce and the purpose of a bootstrap request, or the code of its error. A purpose that is
not hashable raises, and the router answers for it. -/
def BootstrapRequest.parse (payload : Json) : Except String (String × Purpose) := do
  if !payload.hasExactly ["version", "transport", "nonce", "purpose"] then throw "invalid_request"
  if !isOne (payload.get "version") then throw "unsupported_version"
  if (payload.get "transport").text? ≠ some "quic-masque-inner-v1" then throw "unsupported_transport"
  let purpose ← Purpose.parse (payload.get "purpose")
  match (payload.get "nonce").text? with
  | some nonce => if noncePattern nonce then return (nonce, purpose) else throw "invalid_nonce"
  | none => throw "invalid_nonce"

/-- What `require_authorized` finds out. -/
inductive Access where
  | granted
  /-- The policy was asked again, and the answer is stored with the session. -/
  | refreshed
  | denied
  | unavailable
  deriving DecidableEq

/-- A bootstrap request as the RPC layer hands it over: the link it came on, its logical id, and
the session that was indexed for both when the request arrived. -/
structure BootstrapCall where
  connection : Option ConnId
  logicalId : Option LogicalId
  session : Option SessionId
  payload : Json
  /-- The answer of the access policy. -/
  access : Access
  /-- The listener's endpoint and the media endpoint are known. -/
  endpoint : Bool
  mediaEndpoint : Bool
  /-- The random token. -/
  token : Token
  /-- The grant file can be written. -/
  grantWritten : Bool
  /-- What sending the notice of a revocation meets. -/
  fault : Option SendFault

/-- The session a bootstrap request is from, if the checks of `_validate_bootstrap_context` before
the access policy find it in order. -/
def BootstrapCall.sender (setup : Setup) (request : BootstrapCall) (st : ServerState) (now : Nanos) :
    Option SessionId := do
  let c ← request.connection
  let logicalId ← request.logicalId
  guard (¬(st.connections c).closed ∧ logicalId ∈ (st.connections c).logicalIds)
  let id ← st.logicalSessions logicalId
  guard (request.session = some id ∧ (st.objects id).connection = some c ∧
    ¬(st.objects id).provisional ∧ (st.objects id).authenticatedUser.any (· ≠ "") ∧
    now < (st.objects id).expiresAt)
  let identity ← (st.objects id).qappIdentity
  let normalized ← (setup.platform.normalizeQAppIdentity identity).toOption
  guard (normalized = identity)
  return id

/-- The file of a realtime grant. -/
def AttachGrant.mediaGrant (grant : AttachGrant) (token : Token) (roomId : RoomId) : MediaGrant where
  version := 1
  token := token
  logicalSessionId := grant.logicalSessionId
  authenticatedUser := grant.authenticatedUser
  qappName := grant.qappIdentity.1
  qappService := grant.qappIdentity.2
  purpose := grant.purpose.text
  roomId := roomId
  participantId := grant.authenticatedUser
  expiresAt := millis grant.expiresAt

def writeMediaGrant (token : Token) (grant : AttachGrant) (roomId : RoomId) (written : Bool) :
    ServerM Unit := do
  ensure written .osError
  modify fun st => { st with
    grantFiles := Function.update st.grantFiles token (some (grant.mediaGrant token roomId))
    mediaGrantFiles := Function.update st.mediaGrantFiles grant.logicalSessionId
      (st.mediaGrantFiles grant.logicalSessionId ++ [token]) }

inductive Reply where
  | done
  /-- An error code for the client. -/
  | refused (code : String)
  /-- The authority has issued the token and keeps it. -/
  | issued (token : Token) (grant : AttachGrant)
  /-- A realtime token whose grant file is written. -/
  | written (token : Token) (grant : AttachGrant)
  /-- A realtime token goes back to the client. -/
  | returned (token : Token)
  | attached (token : Token) (session : SessionId)
  | consumed (token : Token)
  deriving DecidableEq

/-- The grant `bootstrap` asks the authority for. -/
def BootstrapCall.grant (setup : Setup) (id : SessionId) (session : Session) (logicalId : LogicalId)
    (nonce : String) (purpose : Purpose) (now : Nanos) : AttachGrant where
  logicalSessionId := id
  logicalConnectionId := logicalId
  authenticatedUser := session.authenticatedUser.getD ""
  qappIdentity := session.qappIdentity.getD ("", "")
  purpose := purpose
  ownerBindingHash := setup.ownerBindingHash (session.qappIdentity.getD ("", "")) logicalId id nonce
    purpose
  nonce := nonce
  expiresAt := now + setup.config.privateTransportAttachTtl

/-- The issuing of a token, once the session and its access are in order. A realtime token is
returned by a later step, which still holds the lock. -/
def issueToken (setup : Setup) (request : BootstrapCall) (id : SessionId) (nonce : String)
    (purpose : Purpose) : ServerM Reply := do
  let st ← get
  let now := (← ask).now
  if !request.endpoint ∨ purpose = .realtime ∧ !request.mediaEndpoint then
    return .refused "transport_unavailable"
  let grant := BootstrapCall.grant setup id (st.objects id) (request.logicalId.getD "") nonce purpose now
  match purpose, st.call.callRoomId id with
  | .realtime, none => return .refused "call_room_required"
  | .realtime, some roomId => do
    let issued ← issue setup request.token grant
    if issued then
      writeMediaGrant request.token grant roomId request.grantWritten
      modify fun st => { st with releasing := some request.token }
      return .written request.token grant
    else return .refused "bootstrap_rate_limited"
  | _, _ => do
    let issued ← issue setup request.token grant
    if issued then return .issued request.token grant else return .refused "bootstrap_rate_limited"

/-- `bootstrap` from the access policy on. -/
def bootstrapSession (setup : Setup) (request : BootstrapCall) (id : SessionId) (nonce : String)
    (purpose : Purpose) : ServerM Reply :=
  match request.access with
  | .denied => do
    revoke setup id request.fault
    return .refused "backend_access_denied"
  | .unavailable => do
    revoke setup id request.fault
    return .refused "backend_access_unavailable"
  | access => do
    if access = .refreshed then persist id
    if (← getSession id).privateTransport.isSome then return .refused "transport_already_attached"
    issueToken setup request id nonce purpose

def bootstrap (setup : Setup) (request : BootstrapCall) : ServerM Reply := do
  match BootstrapRequest.parse request.payload with
  | .error code => return .refused code
  | .ok (nonce, purpose) =>
    match request.sender setup (← get) (← ask).now with
    | none => return .refused "unauthenticated"
    | some id => bootstrapSession setup request id nonce purpose

/-- The end of `bootstrap` for a realtime token: the token is released and returned. -/
def finishBootstrap (token : Token) : ServerM Reply := do
  release token
  modify fun st => { st with releasing := none }
  return .returned token

/-! ### Attaching -/

structure AttachRequest where
  logicalSessionId : String
  attachToken : Token
  nonce : String
  purpose : String
  ownerBindingHash : String

def AttachRequest.parse (metadata : Json) : Option AttachRequest := do
  guard (metadata.hasExactly ["protocolVersion", "logicalSessionId", "attachToken", "nonce", "purpose",
    "ownerBindingHash"])
  guard (isOne (metadata.get "protocolVersion"))
  return ⟨← (metadata.get "logicalSessionId").text?, ← (metadata.get "attachToken").text?,
    ← (metadata.get "nonce").text?, ← (metadata.get "purpose").text?,
    ← (metadata.get "ownerBindingHash").text?⟩

def attachRejected : Exn := .valueError "attach token rejected"

/-- The grant is for what the request says. -/
def AttachGrant.fits (grant : AttachGrant) (request : AttachRequest) (now : Nanos) : Bool :=
  now < grant.expiresAt && grant.logicalSessionId = request.logicalSessionId &&
    grant.purpose.text = request.purpose && grant.ownerBindingHash = request.ownerBindingHash &&
    grant.nonce = request.nonce

/-- The session is as it was when the grant was issued. -/
def ServerState.honours (st : ServerState) (grant : AttachGrant) (now : Nanos) : Bool :=
  let session := st.objects grant.logicalSessionId
  grant.logicalSessionId ∈ st.registry && !session.provisional && now < session.expiresAt &&
    session.authenticatedUser = some grant.authenticatedUser &&
    session.qappIdentity = some grant.qappIdentity &&
    session.qappConnectionId = some grant.logicalConnectionId && st.linked grant.logicalSessionId

/-- `AttachTokenAuthority.consume`: a real token is used up even when the rest does not fit. -/
def consume (request : AttachRequest) : ServerM SessionId := do
  let now := (← ask).now
  modify fun st => { st with tokens := st.tokens.expireGrants now }
  let found := (← get).tokens.grants.get? request.attachToken
  release request.attachToken
  let grant ← require found attachRejected
  ensure (grant.fits request now) attachRejected
  ensure ((← get).honours grant now) attachRejected
  return grant.logicalSessionId

def attach (transport : TransportId) (metadata : Json) : ServerM Reply := do
  let request ← require (AttachRequest.parse metadata) attachRejected
  let id ← consume request
  let session ← getSession id
  ensure (session.privateTransport = none) attachRejected
  setSession id { session with privateTransport := some transport }
  return .attached request.attachToken id

def detach (id : SessionId) (transport : TransportId) : ServerM Unit := do
  let session ← getSession id
  if session.privateTransport = some transport then
    setSession id { session with privateTransport := none }

/-! ### The media service's grant store -/

/-- The rename in `grantStore.consume`: at most one process gets the file. -/
def claimGrant (token : Token) : ServerM Unit := do
  ensure (32 ≤ token.utf8ByteSize ∧ token.utf8ByteSize ≤ 128)
    (.valueError "invalid attachment credential")
  let found := (← get).grantFiles token
  let grant ← require found (.valueError "attachment credential unavailable")
  modify fun st => { st with
    grantFiles := Function.update st.grantFiles token none
    claimedGrants := st.claimedGrants ++ [(token, grant)] }

def safeId : String → Bool := fullmatch Call.isIdChar 3 128

def MediaGrant.valid (setup : Setup) (grant : MediaGrant) (token : Token) (now : Nanos) : Bool :=
  grant.version = 1 && grant.token = token && grant.purpose = "realtime" &&
    setup.validQAppName grant.qappName && grant.qappService = "APP" && millis now < grant.expiresAt &&
    safeId grant.roomId && safeId grant.participantId && grant.logicalSessionId ≠ "" &&
    grant.authenticatedUser = grant.participantId

/-- The rest of `grantStore.consume`, for a claimed file that can be read and decoded or not. -/
def judgeGrant (setup : Setup) (claim : Token × MediaGrant) (readable : Bool) : ServerM Reply := do
  modify fun st => { st with claimedGrants := st.claimedGrants.erase claim }
  ensure (readable ∧ claim.2.valid setup claim.1 (← ask).now)
    (.valueError "invalid attachment credential")
  return .consumed claim.1

/-- `grantStore.purgeExpired`, for one file. -/
def purgeGrant (token : Token) (readable : Bool) : ServerM Unit := do
  let now := (← ask).now
  match (← get).grantFiles token with
  | some grant =>
    if !readable ∨ grant.expiresAt ≤ millis now then
      modify fun st => { st with grantFiles := Function.update st.grantFiles token none }
  | none => pure ()

end CallBackend.Server
