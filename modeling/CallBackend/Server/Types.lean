import CallBackend.Config
import CallBackend.Call.Run

/-!
# Sessions, links and credentials: the server's state

An `ApplicationSession` is an object of the server process: it is created for a logical connection
id, bound to a physical connection (a Reticulum link), promoted when its owner proves an address,
and looked up by message handlers long after it may have left the session manager. So the state
keeps every object, registered or not, and identifies an object with its session id.

Left out are fields nothing below reads: creation time, the resume token (no code calls `resume`),
subscriptions, the application sequence and `pending_transport`, which no code fills. The
`call_room_id` metadata is in the state of the call service.
-/

namespace CallBackend.Server

/-- The logical connection id a Q-App puts on its messages. -/
abbrev LogicalId : Type := String

/-- An attached native transport object. -/
abbrev TransportId : Type := Nat

/-- An attach token. A table keyed by the SHA-256 of tokens is keyed by the tokens. -/
abbrev Token : Type := String

structure Session where
  provisional : Bool := true
  authenticatedUser : Option String := none
  lastSeen : Nanos := 0
  expiresAt : Nanos := 0
  lastPersistedAt : Nanos := 0
  connection : Option ConnId := none
  /-- `metadata["qapp_connection_id"]`. -/
  qappConnectionId : Option LogicalId := none
  /-- `metadata["qapp_identity"]`. -/
  qappIdentity : Option QAppIdentity := none
  privateTransport : Option TransportId := none
  /-- Message ids already seen, the most recent last. -/
  dedup : List Nat := []

/-- How far the `on_close` clean-up of a connection has come. -/
inductive Cleanup where
  | pending
  /-- The logical ids that are still to be disconnected. -/
  | running (remaining : List LogicalId)
  | ended
  deriving DecidableEq

structure Connection where
  closed : Bool := false
  logicalIds : List LogicalId := []
  closedLogicalIds : List LogicalId := []
  newTimes : List Nanos := []
  cleanup : Cleanup := .pending

inductive Purpose where
  | game
  | fileTransfer
  | realtime
  deriving DecidableEq

def Purpose.text : Purpose → String
  | .game => "game"
  | .fileTransfer => "file-transfer"
  | .realtime => "realtime"

structure AttachGrant where
  logicalSessionId : SessionId
  logicalConnectionId : LogicalId
  authenticatedUser : String
  qappIdentity : QAppIdentity
  purpose : Purpose
  ownerBindingHash : String
  nonce : String
  expiresAt : Nanos
  deriving DecidableEq

/-- `AttachTokenAuthority`: the unused grants, and the recent issue times of sessions and users. -/
structure TokenAuthority where
  grants : Dict Token AttachGrant := ∅
  issued : Dict SessionId (List Nanos) := ∅
  issuedUsers : Dict String (List Nanos) := ∅

/-- A file of the grant directory. Its name is the hash of the token it is for. -/
structure MediaGrant where
  version : Nat
  token : Token
  logicalSessionId : SessionId
  authenticatedUser : String
  qappName : String
  qappService : String
  purpose : String
  roomId : RoomId
  participantId : String
  expiresAt : Nat
  deriving DecidableEq

/-- A message that `_application_message` has bound to a session and not yet handled. -/
structure Invocation where
  connection : ConnId
  session : SessionId
  messageId : Nat
  message : Json
  /-- The time the message was accepted. -/
  now : Nanos

structure ServerState where
  /-- The session objects of the process; an id that has not been used has the default. -/
  objects : SessionId → Session := fun _ => {}
  /-- The ids that have been used. -/
  known : List SessionId := []
  /-- The keys of `SessionManager._sessions`. -/
  registry : List SessionId := []
  logicalSessions : LogicalId → Option SessionId := fun _ => none
  connections : ConnId → Connection := fun _ => {}
  call : Call.CallState := {}
  tokens : TokenAuthority := {}
  /-- The grant directory. -/
  grantFiles : Token → Option MediaGrant := fun _ => none
  /-- The grant files written for a session, as the Python process remembers them. -/
  mediaGrantFiles : SessionId → List Token := fun _ => []
  /-- Grant files a media process has renamed and not yet judged. -/
  claimedGrants : List (Token × MediaGrant) := []
  /-- The realtime token `bootstrap` has written a file for and not yet released; it holds the
  session lock. -/
  releasing : Option Token := none
  inflight : List Invocation := []
  /-- Number of database writes of the session manager so far. -/
  dbWrites : Nat := 0
  /-- History: the session whose `call_create` opened the room that has this id now. -/
  creators : RoomId → Option SessionId := fun _ => none
  /-- History: the link each session was bound to when it last proved an address. -/
  provedOn : SessionId → Option ConnId := fun _ => none
  /-- History: how often the credentials of a session have been invalidated. -/
  epoch : SessionId → Nat := fun _ => 0

/-- What one step of the server reads of the world around it. -/
structure ServerEnv where
  now : Nanos
  monotonic : Nanos
  /-- The writes of the call service. -/
  writeSucceeds : Nat → Bool
  /-- The database writes of the session manager. -/
  dbSucceeds : Nat → Bool
  /-- Whether the native helper takes the request to close a transport. -/
  closeSucceeds : TransportId → Bool
  /-- The grant files that are unlinked with the credentials of their session. A failure ends the
  loop over them. -/
  unlinks : Token → Bool
  /-- Whether `_write_media_revocation` returns. -/
  marksRevoked : SessionId → Bool

/-- What the deployment fixes. -/
structure Setup where
  call : Call.Setup
  config : Config
  platform : Platform
  /-- The hash in `owner_binding_hash`. -/
  ownerBindingHash : QAppIdentity → LogicalId → SessionId → String → Purpose → String
  /-- The media service accepts the name of the Q-App. -/
  validQAppName : String → Bool

abbrev ServerM : Type → Type := Exec ServerEnv ServerState Exn

def ServerState.views (st : ServerState) (id : SessionId) : Call.SessionView :=
  ⟨(st.objects id).provisional, (st.objects id).authenticatedUser, decide (id ∈ st.registry)⟩

def ServerState.callEnv (st : ServerState) (env : ServerEnv) : Call.CallEnv :=
  ⟨st.views, env.now, env.monotonic, env.writeSucceeds⟩

/-- The state after the call service has run an action. -/
def ServerState.called (setup : Setup) (env : ServerEnv) (st : ServerState) (action : Call.Action) :
    ServerState :=
  let call := (action.run setup.call (st.callEnv env) st.call).2
  { st with call, creators := action.creators st.call call st.creators }

/-- A handler of the call service, run by the server. -/
def inCalls (setup : Setup) (action : Call.Action) : ServerM Call.Plan := fun env st =>
  ((action.run setup.call (st.callEnv env) st.call).1, st.called setup env action)

end CallBackend.Server
