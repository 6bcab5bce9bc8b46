import CallBackend.Call.Message

/-!
# The call service

The handlers of `CallService`, each as the computation it performs while it holds the service lock;
what it sends, and whether it does so before it releases the lock, is in the `Plan` it returns. File
and database writes can fail one by one: a failing policy write removes the file and raises, a
failing session write only raises, and everything assigned before the failure stays assigned.
-/

namespace CallBackend.Call

open Exec

/-! ### Fallible writes, timers and the session's metadata -/

def attemptWrite : CallM Bool := do
  let st ← get
  modify fun st => { st with writes := st.writes + 1 }
  return (← ask).writeSucceeds st.writes

def persist (session : SessionId) : CallM Unit := do
  let view := (← ask).sessions session
  if view.provisional ∨ ¬view.registered then return
  let written ← attemptWrite
  ensure written .databaseError

def putRoom (room : Room) : CallM Unit :=
  modify fun st => { st with rooms := st.rooms.set room.roomId room }

/-- `threading.Timer(delay, target)`. -/
def newTimer (delay : Nanos) (target : TimerTarget) : CallM TimerId := do
  let st ← get
  modify fun st => { st with
    timers := st.timers.set st.nextTimer { delay, target }
    nextTimer := st.nextTimer + 1 }
  return st.nextTimer

def updateTimer (id : TimerId) (f : Timer → Timer) : CallM Unit :=
  modify fun st => { st with
    timers := match st.timers.get? id with
      | some timer => st.timers.set id (f timer)
      | none => st.timers }

def startTimer (id : TimerId) : CallM Unit := do
  let now := (← ask).monotonic
  updateTimer id fun timer => { timer with dueAt := some (now + timer.delay) }

def cancelTimer : Option TimerId → CallM Unit
  | some id => updateTimer id fun timer => { timer with cancelled := true }
  | none => pure ()

/-- `_write_policy`: on a failed update the previous, possibly more permissive file is removed. -/
def writePolicy (setup : Setup) (room : Room) : CallM Unit := do
  if !setup.policyDirectory then return
  let written ← attemptWrite
  if written then
    modify fun st => { st with policies := st.policies.set room.roomId room.policy }
  else
    modify fun st => { st with
      policies := st.policies.erase room.roomId
      policyFailures := st.policyFailures + 1 }
    raise .osError

def popSessionRoom (session : SessionId) : CallM Unit :=
  modify fun st => { st with sessionRooms := st.sessionRooms.erase session }

def setCallRoomId (session : SessionId) (room : Option RoomId) : CallM Unit :=
  modify fun st => { st with callRoomId := Function.update st.callRoomId session room }

def bindSession (session : SessionId) (roomId : RoomId) : CallM Unit := do
  modify fun st => { st with sessionRooms := st.sessionRooms.set session roomId }
  setCallRoomId session (some roomId)
  persist session

def clearSessionMetadata (session : SessionId) : CallM Unit := do
  setCallRoomId session none
  persist session

/-! ### Helpers that run under the lock -/

def Room.clearedScreen (room : Room) : Room :=
  { room with
    screenTimer := none
    screenOwner := ""
    screenId := ""
    screenExpiresAt := 0
    screenRevision := room.screenRevision + 1 }

def clearScreenLocked (room : Room) : CallM Room := do
  cancelTimer room.screenTimer
  putRoom room.clearedScreen
  return room.clearedScreen

def Room.withoutMember (room : Room) (participantId : ParticipantId) : Room :=
  { room with members := room.members.erase participantId }

def Room.nextRevision (room : Room) : Room := { room with revision := room.revision + 1 }

/-- Ends a participant's screen reservation, if they hold it. -/
def releaseScreen (participantId : ParticipantId) (room : Room) : CallM Room :=
  if room.screenOwner = participantId then clearScreenLocked room else pure room

def dropMember (setup : Setup) (session : SessionId) (participantId : ParticipantId) (room : Room) :
    CallM Room := do
  putRoom (room.withoutMember participantId)
  let room ← releaseScreen participantId (room.withoutMember participantId)
  popSessionRoom session
  putRoom room.nextRevision
  writePolicy setup room.nextRevision
  return room.nextRevision

/-- Removes the member that the session's current identity names, if it belongs to that session; the
room it leaves behind gives the recipients and the snapshot of the update. -/
def removeMemberLocked (setup : Setup) (session : SessionId) (room : Room) :
    CallM (Option Room) := do
  match ((← ask).sessions session).authenticatedUser with
  | none => return none
  | some participantId =>
    match room.members.get? participantId with
    | none => return none
    | some member =>
      if member.session = session then
        return some (← dropMember setup session participantId room)
      else return none

def unlinkPolicy (setup : Setup) (roomId : RoomId) : CallM Unit := do
  if setup.policyDirectory then
    modify fun st => { st with policies := st.policies.erase roomId }

/-- The sessions of everyone but the creator, who are told when the room ends. -/
def Room.guestSessions (room : Room) : List SessionId :=
  (room.members.values.filter fun member => member.participantId ≠ room.initiatorId).map Member.session

def endRoomLocked (setup : Setup) (room : Room) : CallM (List SessionId) := do
  let room ← clearScreenLocked room
  modify fun st => { st with rooms := st.rooms.erase room.roomId }
  unlinkPolicy setup room.roomId
  cancelTimer room.expiryTimer
  forEach (fun member => do
    popSessionRoom member.session
    setCallRoomId member.session none
    persist member.session) room.members.values
  return room.guestSessions

/-! ### Handlers -/

def parsed {α : Type} (session : SessionId) (parse : SessionView → Except Exn α) : CallM α := do
  lift (parse ((← ask).sessions session))

def CreateRequest.member (request : CreateRequest) (session : SessionId) : Member :=
  ⟨request.initiatorId, request.agreementKey, request.signingKey, session⟩

/-- The room `create` opens, with its creator as the only member. -/
def newRoom (now : Nanos) (session : SessionId) (request : CreateRequest) (timer : TimerId) :
    Room where
  roomId := request.roomId
  initiatorId := request.initiatorId
  inviteTokenHash := request.inviteTokenHash
  expiresAtMs := millis now + maxCallSeconds * 1000
  members := (∅ : Dict ParticipantId Member).set request.initiatorId (request.member session)
  expiryTimer := some timer

def createLocked (setup : Setup) (session : SessionId) (request : CreateRequest) : CallM Plan := do
  let st ← get
  ensure (st.sessionRooms.get? session = none)
    (.valueError "leave the current call before creating another")
  ensure (st.rooms.get? request.roomId = none) (.valueError "call room already exists")
  ensure (st.rooms.size < maxRooms) (.valueError "call room capacity reached")
  let timer ← newTimer (seconds maxCallSeconds) (.expireRoom request.roomId)
  let room := newRoom (← ask).now session request timer
  putRoom room
  bindSession session request.roomId
  rescue (writePolicy setup room) fun error => do
    if error.isOsError then
      modify fun st => { st with rooms := st.rooms.erase request.roomId }
      popSessionRoom session
      clearSessionMetadata session
    raise error
  startTimer timer
  return { before := [(session, .callCreated request.requestId room.snapshot)] }

def create (setup : Setup) (session : SessionId) (message : Json) : CallM Plan := do
  let request ← parsed session (CreateRequest.parse setup · message)
  createLocked setup session request

def JoinRequest.member (request : JoinRequest) (session : SessionId) : Member :=
  ⟨request.participantId, request.agreementKey, request.signingKey, session⟩

def Room.admitting (room : Room) (request : JoinRequest) (session : SessionId) : Room :=
  { room with members := room.members.set request.participantId (request.member session) }

/-- The part of `join` that admits a session to a live room whose invitation it holds. -/
def admitMember (setup : Setup) (session : SessionId) (request : JoinRequest) (room : Room) :
    CallM Plan := do
  let existing := room.members.get? request.participantId
  ensure (∀ member, existing = some member → member.session = session)
    (.valueError "participant is already active")
  let changed := !(existing.any (·.same (request.member session)))
  let room := room.admitting request session
  ensure (¬(existing = none ∧ maxParticipantsPerRoom < room.members.size))
    (.valueError "call participant capacity reached")
  putRoom room
  bindSession session request.roomId
  let room := if changed then room.nextRevision else room
  putRoom room
  writePolicy setup room
  return {
    before := [(session, .callJoined request.requestId room.snapshot)]
    recipients := if changed then room.sessions else []
    payload := if changed then some (.callMembership room.snapshot) else none }

def joinLocked (setup : Setup) (session : SessionId) (request : JoinRequest) : CallM Plan := do
  let st ← get
  let previous := st.sessionRooms.get? session
  ensure (previous = none ∨ previous = some request.roomId)
    (.valueError "leave the current call before joining another")
  let nowMs := millis (← ask).now
  match st.rooms.get? request.roomId with
  | none =>
    return {
      before := [(session, .callJoinRejected request.requestId request.roomId "CALL_UNAVAILABLE")]
      underLock := true }
  | some room =>
    if room.expiresAtMs ≤ nowMs then
      return {
        before := [(session, .callJoinRejected request.requestId request.roomId "CALL_UNAVAILABLE")]
        underLock := true }
    ensure (setup.sha256 request.inviteToken = room.inviteTokenHash)
      (.valueError "invalid call invitation")
    if request.participantId ∈ room.blocked then
      return { before := [(session, .callRemoved request.roomId)], underLock := true }
    admitMember setup session request room

def join (setup : Setup) (session : SessionId) (message : Json) : CallM Plan := do
  let request ← parsed session (JoinRequest.parse setup · message)
  joinLocked setup session request

/-- The clean-up `leave` and `disconnected` share: the identity the session has now decides whether
the room ends or a member goes. -/
def departLocked (setup : Setup) (session : SessionId) (participantId : Option ParticipantId)
    (room : Room) (reason : EndReason) : CallM Plan := do
  if participantId = some room.initiatorId then
    let recipients ← endRoomLocked setup room
    clearSessionMetadata session
    return { recipients, payload := some (.callEnded room.roomId reason) }
  else
    let update ← removeMemberLocked setup session room
    clearSessionMetadata session
    return {
      recipients := (update.map Room.sessions).getD []
      payload := update.map fun room => .callMembership room.snapshot }

def leaveLocked (setup : Setup) (session : SessionId) (request : LeaveRequest) : CallM Plan := do
  let st ← get
  ensure (st.sessionRooms.get? session = some request.roomId)
    (.valueError "session is not in the call room")
  let room ← require (st.rooms.get? request.roomId) (.valueError "call room is unavailable")
  let plan ← departLocked setup session (some request.participantId) room .initiatorLeft
  return { plan with before := [(session, .callLeft request.requestId request.roomId)] }

def leave (setup : Setup) (session : SessionId) (message : Json) : CallM Plan := do
  let request ← parsed session (LeaveRequest.parse · message)
  leaveLocked setup session request

def disconnected (setup : Setup) (session : SessionId) : CallM Plan := do
  let st ← get
  match (st.sessionRooms.get? session).bind st.rooms.get? with
  | none => return {}
  | some room =>
    departLocked setup session ((← ask).sessions session).authenticatedUser room
      .initiatorDisconnected

def forwardGroupKey (session : SessionId) (message : Json) : CallM Plan := do
  let request ← parsed session (GroupKeyRequest.parse · message)
  let st ← get
  let refused : Exn := .valueError "group key delivery is not authorized"
  let room ← require (st.rooms.get? request.roomId) refused
  ensure (request.senderId = room.initiatorId) refused
  let sender ← require (room.members.get? request.senderId) refused
  ensure (sender.session = session) refused
  let target ← require (room.members.get? request.targetId) refused
  return { before := [(target.session, .callGroupKey request.requestId request.roomId
    request.senderId request.targetId request.keyId request.nonce request.ciphertext
    request.signature)] }

/-- `call_moderation_result`. -/
def moderationResult (request : ModerateRequest) (room : Room) (accepted : Bool) (code : String) :
    Payload :=
  .callModerationResult request.requestId request.roomId room.revision accepted code
    (sorted room.blocked)

def Room.withBlocked (room : Room) (blocked : Finset ParticipantId) : Room := { room with blocked }

def Room.withMuted (room : Room) (muted : Finset ParticipantId) : Room := { room with muted }

/-- The part of a removal that follows the blocking of its target. -/
def evictTarget (setup : Setup) (request : ModerateRequest) (room : Room) :
    CallM (Room × Option Member) :=
  match room.members.get? request.target with
  | none => return (room.withMuted (room.muted.erase request.target), none)
  | some member => do
    let update ← removeMemberLocked setup member.session room
    clearSessionMetadata member.session
    let room := update.getD room
    return (room.withMuted (room.muted.erase request.target), some member)

/-- The change an accepted moderation makes to the room, and the member it removed. -/
def moderateRoom (setup : Setup) (request : ModerateRequest) (room : Room) :
    CallM (Room × Option Member) :=
  match request.operation with
  | .reAdmit => return (room.withBlocked (room.blocked.erase request.target), none)
  | .remove => do
    ensure ((room.members.get? request.target).isSome ∨ request.target ∈ room.blocked)
      (.valueError "participant is not in this call")
    ensure (room.blocked.card < maxBlocked ∨ request.target ∈ room.blocked)
      (.valueError "removed participant limit reached")
    putRoom (room.withBlocked (insert request.target room.blocked))
    evictTarget setup request (room.withBlocked (insert request.target room.blocked))
  | .mute => do
    ensure (room.members.get? request.target).isSome
      (.valueError "participant is not in this call")
    ensure (room.muted.card < maxMuted ∨ request.target ∈ room.muted)
      (.valueError "muted participant limit reached")
    return (room.withMuted (insert request.target room.muted), none)
  | .allowMic => do
    ensure (room.members.get? request.target).isSome
      (.valueError "participant is not in this call")
    return (room.withMuted (room.muted.erase request.target), none)

/-- The sends of an accepted moderation that leaves this room and removed this member. -/
def moderationPlan (session : SessionId) (request : ModerateRequest) (room : Room)
    (removed : Option Member) : Plan where
  before := removed.toList.map fun member => (member.session, .callRemoved request.roomId)
  recipients := room.sessions
  payload := some (.callMembership room.snapshot)
  after := [(session, moderationResult request room true "")]

/-- Publishes the room an accepted moderation leaves. -/
def publishModeration (setup : Setup) (session : SessionId) (request : ModerateRequest)
    (result : Room × Option Member) : CallM Plan := do
  let room := result.1.nextRevision
  putRoom room
  writePolicy setup room
  return moderationPlan session request room result.2

def moderateLocked (setup : Setup) (session : SessionId) (request : ModerateRequest) :
    CallM Plan := do
  let st ← get
  let refused : Exn := .valueError "only the active call creator can moderate"
  let room ← require (st.rooms.get? request.roomId) refused
  ensure (request.actor = room.initiatorId) refused
  let host ← require (room.members.get? request.actor) refused
  ensure (host.session = session) refused
  ensure (millis (← ask).now < room.expiresAtMs) refused
  ensure (request.target ≠ request.actor) (.valueError "cannot moderate the call creator")
  if request.operation ≠ .reAdmit ∧ room.members.get? request.target = none ∧
      ¬(request.operation = .remove ∧ request.target ∈ room.blocked) then
    return {
      before := [(session, moderationResult request room false "PARTICIPANT_LEFT")]
      underLock := true }
  publishModeration setup session request (← moderateRoom setup request room)

def moderate (setup : Setup) (session : SessionId) (message : Json) : CallM Plan := do
  let request ← parsed session (ModerateRequest.parse · message)
  moderateLocked setup session request

/-- Ends a reservation whose lease has run out. -/
def lapseScreen (room : Room) : CallM Room := do
  if room.screenId ≠ "" ∧ room.screenExpiresAt ≤ (← ask).monotonic then clearScreenLocked room
  else return room

def ScreenRequest.owns (request : ScreenRequest) (room : Room) : Bool :=
  room.screenOwner = request.participantId ∧ room.screenId = request.shareId

def reserveScreen (request : ScreenRequest) (room : Room) : CallM Room := do
  let room := { room with
    screenOwner := request.participantId
    screenId := request.shareId
    screenRevision := room.screenRevision + 1 }
  putRoom room
  return room

/-- Extends the lease and replaces its timer. -/
def renewLease (request : ScreenRequest) (room : Room) : CallM Room := do
  cancelTimer room.screenTimer
  let timer ← newTimer (seconds screenLeaseSeconds) (.expireScreen request.roomId request.shareId)
  let room := { room with
    screenExpiresAt := (← ask).monotonic + seconds screenLeaseSeconds
    screenTimer := some timer }
  putRoom room
  startTimer timer
  return room

/-- What a screen request does to the reservation: the room afterwards, and the code of the result,
which is empty when the request is accepted. -/
def applyScreen (request : ScreenRequest) (room : Room) : CallM (Room × String) :=
  match request.action with
  | .start =>
    if request.owns room then do return (← renewLease request room, "")
    else if room.screenId = "" then do
      return (← renewLease request (← reserveScreen request room), "")
    else return (room, "SCREEN_BUSY")
  | .stop =>
    if request.owns room then do return (← clearScreenLocked room, "")
    else return (room, if room.screenId = "" then "" else "SCREEN_NOT_OWNER")
  | .renew =>
    if request.owns room then do return (← renewLease request room, "")
    else return (room, "SCREEN_NOT_OWNER")

/-- The sends of a screen request: the result, and the state if its revision has changed. -/
def screenPlan (session : SessionId) (request : ScreenRequest) (previousRevision : Nat)
    (result : Room × String) : Plan :=
  let (room, code) := result
  let changed : Bool := room.screenRevision ≠ previousRevision
  { before := [(session,
      .callScreenResult request.requestId request.roomId (code = "") code room.screenSnapshot)]
    recipients := if changed then room.sessions else []
    payload := if changed then some (.callScreenState request.roomId room.screenSnapshot) else none }

def screenControlLocked (session : SessionId) (request : ScreenRequest) : CallM Plan := do
  let st ← get
  let refused : Exn := .valueError "screen sharing requires active call membership"
  let room ← require (st.rooms.get? request.roomId) refused
  let member ← require (room.members.get? request.participantId) refused
  ensure (member.session = session) refused
  ensure (millis (← ask).now < room.expiresAtMs) refused
  let previousRevision := room.screenRevision
  let result ← applyScreen request (← lapseScreen room)
  return screenPlan session request previousRevision result

def screenControl (session : SessionId) (message : Json) : CallM Plan := do
  let request ← parsed session (ScreenRequest.parse · message)
  screenControlLocked session request

def expireScreen (roomId : RoomId) (shareId : String) : CallM Plan := do
  let st ← get
  match st.rooms.get? roomId with
  | none => return {}
  | some room =>
    if room.screenId ≠ shareId ∨ (← ask).monotonic < room.screenExpiresAt then return {}
    let room ← clearScreenLocked room
    return {
      recipients := room.sessions
      payload := some (.callScreenState roomId room.screenSnapshot) }

def expireRoom (setup : Setup) (roomId : RoomId) : CallM Plan := do
  let st ← get
  match st.rooms.get? roomId with
  | none => return {}
  | some room =>
    let recipients ← endRoomLocked setup room
    return { recipients, payload := some (.callEnded roomId .expired) }

/-- A new service process: rooms are in memory only, `__init__` removes every policy file, and the
sessions keep the metadata the database has for them. -/
def restart (setup : Setup) (metadata : SessionId → Option RoomId) (st : CallState) : CallState :=
  { callRoomId := metadata
    policies := if setup.policyDirectory then ∅ else st.policies }

end CallBackend.Call
