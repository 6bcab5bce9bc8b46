import CallBackend.Basic
import Mathlib.Data.Finset.Sort
import Mathlib.Data.String.Basic

/-!
# The data of the call service

Rooms, members and the payloads the service sends, as `call/service.py` has them. A room is a
mutable object of the source and a value here: the registry holds its current value. Session objects
are named by their session ids, and the part of a session's metadata that the service owns,
`call_room_id`, is part of the service's state.

A handler computes what it will send while it holds the service lock. `Plan` is what it has
computed: the direct messages before the broadcast, the broadcast's recipients and payload, and the
direct messages after it. Most handlers send after they have released the lock; a join or a
moderation that is turned down is answered before.
-/

namespace CallBackend.Call

def maxRooms : Nat := 1024

def maxParticipantsPerRoom : Nat := 32

def maxCallSeconds : Nat := 3 * 60 * 60

def screenLeaseSeconds : Nat := 45

def groupKeyEnvelopeCiphertextBytes : Nat := 48

def maxBlocked : Nat := 256

def maxMuted : Nat := 256

abbrev TimerId : Type := Nat

structure Member where
  participantId : ParticipantId
  keyAgreementPublicKey : String
  signingPublicKey : String
  session : SessionId
  deriving DecidableEq

/-- Dataclass equality: the session is declared with `compare=False`. -/
def Member.same (a b : Member) : Bool :=
  a.participantId = b.participantId ∧ a.keyAgreementPublicKey = b.keyAgreementPublicKey ∧
    a.signingPublicKey = b.signingPublicKey

structure Room where
  roomId : RoomId
  initiatorId : ParticipantId
  inviteTokenHash : Bytes
  expiresAtMs : Nat
  revision : Nat := 1
  members : Dict ParticipantId Member := ∅
  expiryTimer : Option TimerId := none
  screenOwner : ParticipantId := ""
  screenId : String := ""
  screenRevision : Nat := 1
  screenExpiresAt : Nanos := 0
  screenTimer : Option TimerId := none
  blocked : Finset ParticipantId := ∅
  muted : Finset ParticipantId := ∅

def Room.sessions (room : Room) : List SessionId := room.members.values.map Member.session

def sorted (ids : Finset ParticipantId) : List ParticipantId := ids.sort (· ≤ ·)

/-- `sorted(room.muted.intersection(room.members))`. -/
def Room.mutedMembers (room : Room) : List ParticipantId :=
  sorted (room.muted ∩ room.members.keys.toFinset)

/-- The JSON document the media service reads: `rooms/<sha256 of the room id>.json`. -/
structure PolicyDocument where
  roomId : RoomId
  expiresAt : Nat
  members : Dict ParticipantId SessionId
  muted : List ParticipantId

def Room.policy (room : Room) : PolicyDocument where
  roomId := room.roomId
  expiresAt := room.expiresAtMs
  members := room.members.mapValues Member.session
  muted := room.mutedMembers

/-! ### Payloads -/

structure MemberValue where
  participantId : ParticipantId
  keyAgreementPublicKey : String
  signingPublicKey : String
  trackNamespace : List String
  trackName : String

def Member.publicValue (member : Member) (roomId : RoomId) : MemberValue where
  participantId := member.participantId
  keyAgreementPublicKey := member.keyAgreementPublicKey
  signingPublicKey := member.signingPublicKey
  trackNamespace := ["qortal", "call", roomId, member.participantId]
  trackName := "audio"

structure ScreenSnapshot where
  revision : Nat
  participantId : ParticipantId
  shareId : String

def Room.screenSnapshot (room : Room) : ScreenSnapshot where
  revision := room.screenRevision
  participantId := room.screenOwner
  shareId := room.screenId

structure Snapshot where
  roomId : RoomId
  revision : Nat
  initiatorParticipantId : ParticipantId
  expiresAt : Nat
  screenShare : ScreenSnapshot
  mutedParticipantIds : List ParticipantId
  members : List MemberValue

def Room.snapshot (room : Room) : Snapshot where
  roomId := room.roomId
  revision := room.revision
  initiatorParticipantId := room.initiatorId
  expiresAt := room.expiresAtMs
  screenShare := room.screenSnapshot
  mutedParticipantIds := room.mutedMembers
  members := (room.members.keys.insertionSort (· ≤ ·)).filterMap fun participantId =>
    (room.members.get? participantId).map (·.publicValue room.roomId)

inductive EndReason where
  | initiatorLeft
  | initiatorDisconnected
  | expired
  deriving DecidableEq

inductive Payload where
  | callCreated (requestId : String) (snapshot : Snapshot)
  | callJoined (requestId : String) (snapshot : Snapshot)
  | callJoinRejected (requestId : String) (roomId : RoomId) (code : String)
  | callMembership (snapshot : Snapshot)
  | callLeft (requestId : String) (roomId : RoomId)
  | callEnded (roomId : RoomId) (reason : EndReason)
  | callRemoved (roomId : RoomId)
  | callModerationResult (requestId : String) (roomId : RoomId) (revision : Nat) (accepted : Bool)
      (code : String) (blockedParticipantIds : List ParticipantId)
  | callGroupKey (requestId : String) (roomId : RoomId) (senderParticipantId : ParticipantId)
      (targetParticipantId : ParticipantId) (keyId nonce ciphertext signature : String)
  | callScreenResult (requestId : String) (roomId : RoomId) (accepted : Bool) (code : String)
      (screenShare : ScreenSnapshot)
  | callScreenState (roomId : RoomId) (screenShare : ScreenSnapshot)

abbrev Send : Type := SessionId × Payload

/-- What a handler sends. -/
structure Plan where
  before : List Send := []
  recipients : List SessionId := []
  payload : Option Payload := none
  after : List Send := []
  /-- The handler sends before it releases the service lock. -/
  underLock : Bool := false

def Plan.broadcast (plan : Plan) : List Send :=
  match plan.payload with
  | some payload => plan.recipients.map fun session => (session, payload)
  | none => []

def Plan.sends (plan : Plan) : List Send := plan.before ++ plan.broadcast ++ plan.after

/-! ### Timers -/

inductive TimerTarget where
  | expireRoom (roomId : RoomId)
  | expireScreen (roomId : RoomId) (shareId : String)

/-- A `threading.Timer`: it fires at `dueAt` unless it is cancelled first, and never before it is
started. -/
structure Timer where
  delay : Nanos
  target : TimerTarget
  dueAt : Option Nanos := none
  cancelled : Bool := false

/-! ### State and environment -/

/-- What the service keeps about calls: the rooms, the room of each session, and the policy
directory. -/
structure Registry where
  rooms : Dict RoomId Room := ∅
  sessionRooms : Dict SessionId RoomId := ∅
  /-- `session.metadata["call_room_id"]`. -/
  callRoomId : SessionId → Option RoomId := fun _ => none
  /-- The policy directory. A file is named by the SHA-256 of its room id, so by the room id. -/
  policies : Dict RoomId PolicyDocument := ∅

structure CallState extends Registry where
  timers : Dict TimerId Timer := ∅
  nextTimer : TimerId := 0
  /-- Number of file and database writes attempted so far. -/
  writes : Nat := 0
  /-- Number of calls of `_write_policy` that have raised so far. -/
  policyFailures : Nat := 0

/-- What the service reads of a session object and of its registration with the session manager. -/
structure SessionView where
  provisional : Bool := true
  authenticatedUser : Option String := none
  registered : Bool := false

/-- What one invocation of the service reads of the world around it. -/
structure CallEnv where
  sessions : SessionId → SessionView
  now : Nanos
  monotonic : Nanos
  /-- Whether the n-th file or database write succeeds. -/
  writeSucceeds : Nat → Bool

/-- What the deployment fixes: the hash, the curve check of the cryptography package, and whether a
policy directory is configured. -/
structure Setup where
  sha256 : Bytes → Bytes
  isP256Point : Bytes → Bool
  policyDirectory : Bool

abbrev CallM : Type → Type := Exec CallEnv CallState Exn

end CallBackend.Call
