import CallBackend.Call.Service
import Mathlib.Logic.Relation

/-!
# What a handler can do to the registry

Each handler changes the rooms, the session index, the metadata and the policy directory by a few
effects, and stops between two of them when a write fails. `Effect` lists them with the facts that
hold when they happen; the theorems at the end say that every handler, however it ends, moves the
registry along its effects. Every invariant of the service is proved from this list.
-/

namespace CallBackend.Call

open Exec Function

def Faulty (env : CallEnv) : Prop := ∃ n, env.writeSucceeds n = false

/-- The policy directory after a room's policy was written. -/
def published (setup : Setup) (policies : Dict RoomId PolicyDocument) (room : Room) :
    Dict RoomId PolicyDocument :=
  if setup.policyDirectory then policies.set room.roomId room.policy else policies

/-- The policy directory after a room's policy was removed. -/
def withdrawn (setup : Setup) (policies : Dict RoomId PolicyDocument) (roomId : RoomId) :
    Dict RoomId PolicyDocument :=
  if setup.policyDirectory then policies.erase roomId else policies

/-- The policy directory after a write that may have failed. -/
def Rewritten (setup : Setup) (env : CallEnv) (before : Dict RoomId PolicyDocument) (room : Room)
    (after : Dict RoomId PolicyDocument) : Prop :=
  after = published setup before room ∨ Faulty env ∧ after = withdrawn setup before room.roomId

structure Screen where
  owner : ParticipantId
  id : String
  revision : Nat
  expiresAt : Nanos
  timer : Option TimerId

def Room.withScreen (room : Room) (screen : Screen) : Room :=
  { room with
    screenOwner := screen.owner
    screenId := screen.id
    screenRevision := screen.revision
    screenExpiresAt := screen.expiresAt
    screenTimer := screen.timer }

def Room.screen (room : Room) : Screen :=
  ⟨room.screenOwner, room.screenId, room.screenRevision, room.screenExpiresAt, room.screenTimer⟩

def Room.depart (room : Room) (participantId : ParticipantId) (screen : Screen) : Room :=
  ((room.withoutMember participantId).withScreen screen).nextRevision

@[simp] theorem Room.withScreen_roomId (room : Room) (screen : Screen) :
    (room.withScreen screen).roomId = room.roomId := rfl

@[simp] theorem Room.withoutMember_roomId (room : Room) (participantId : ParticipantId) :
    (room.withoutMember participantId).roomId = room.roomId := rfl

@[simp] theorem Room.nextRevision_roomId (room : Room) : room.nextRevision.roomId = room.roomId := rfl

@[simp] theorem Room.admit_roomId (room : Room) (request : JoinRequest) (session : SessionId) :
    (room.admitting request session).roomId = room.roomId := rfl

@[simp] theorem Room.withBlocked_roomId (room : Room) (blocked : Finset ParticipantId) :
    (room.withBlocked blocked).roomId = room.roomId := rfl

@[simp] theorem Room.withMuted_roomId (room : Room) (muted : Finset ParticipantId) :
    (room.withMuted muted).roomId = room.roomId := rfl

@[simp] theorem Room.depart_roomId (room : Room) (participantId : ParticipantId) (screen : Screen) :
    (room.depart participantId screen).roomId = room.roomId := rfl

namespace Registry

def forget (c : Registry) (session : SessionId) : Registry :=
  { c with
    sessionRooms := c.sessionRooms.erase session
    callRoomId := update c.callRoomId session none }

def forgetAll (c : Registry) (sessions : List SessionId) : Registry := sessions.foldl forget c

def bind (c : Registry) (session : SessionId) (roomId : RoomId) : Registry :=
  { c with
    sessionRooms := c.sessionRooms.set session roomId
    callRoomId := update c.callRoomId session (some roomId) }

def putRoom (c : Registry) (room : Room) : Registry :=
  { c with rooms := c.rooms.set room.roomId room }

@[simp] theorem forgetAll_rooms (c : Registry) (sessions : List SessionId) :
    (c.forgetAll sessions).rooms = c.rooms := by
  induction sessions generalizing c with
  | nil => rfl
  | cons session rest ih => exact ih (c.forget session)

@[simp] theorem forgetAll_policies (c : Registry) (sessions : List SessionId) :
    (c.forgetAll sessions).policies = c.policies := by
  induction sessions generalizing c with
  | nil => rfl
  | cons session rest ih => exact ih (c.forget session)

@[simp] theorem forgetAll_sessionRooms (c : Registry) (sessions : List SessionId) (session : SessionId) :
    (c.forgetAll sessions).sessionRooms.get? session =
      if session ∈ sessions then none else c.sessionRooms.get? session := by
  induction sessions generalizing c with
  | nil => simp [forgetAll]
  | cons first rest ih =>
    change ((c.forget first).forgetAll rest).sessionRooms.get? session = _
    rw [ih]
    change (if session ∈ rest then none else (c.sessionRooms.erase first).get? session) = _
    rw [Dict.get?_erase]
    by_cases hfirst : first = session
    · simp [hfirst]
    · simp [hfirst, Ne.symm hfirst]

@[simp] theorem forgetAll_callRoomId (c : Registry) (sessions : List SessionId) (session : SessionId) :
    (c.forgetAll sessions).callRoomId session =
      if session ∈ sessions then none else c.callRoomId session := by
  induction sessions generalizing c with
  | nil => simp [forgetAll]
  | cons first rest ih =>
    change ((c.forget first).forgetAll rest).callRoomId session = _
    rw [ih]
    change (if session ∈ rest then none else update c.callRoomId first none session) = _
    by_cases hfirst : session = first
    · simp [hfirst]
    · simp [hfirst]

end Registry

/-- The invocations of the service that can change the registry. -/
inductive Operation where
  | create (session : SessionId) (request : CreateRequest)
  | join (session : SessionId) (request : JoinRequest)
  | depart (session : SessionId)
  | moderate (session : SessionId) (request : ModerateRequest)
  | screen
  | expire (roomId : RoomId)
  deriving DecidableEq

/-- The request comes from the room's live creator and is not about them. -/
def ModerateRequest.Authorized (request : ModerateRequest) (env : CallEnv) (session : SessionId)
    (room : Room) : Prop :=
  request.actor = room.initiatorId ∧
    (∃ host, room.members.get? request.actor = some host ∧ host.session = session) ∧
    millis env.now < room.expiresAtMs ∧ request.target ≠ request.actor

/-- The blocked and muted participants an accepted moderation leaves. -/
def ModerateRequest.Marks (request : ModerateRequest) (room : Room)
    (blocked muted : Finset ParticipantId) : Prop :=
  match request.operation with
  | .reAdmit => blocked = room.blocked.erase request.target ∧ muted = room.muted
  | .remove => blocked = insert request.target room.blocked ∧ muted = room.muted.erase request.target ∧
      (room.members.get? request.target = none ∨ request.target ∈ room.blocked)
  | .mute => blocked = room.blocked ∧ muted = insert request.target room.muted
  | .allowMic => blocked = room.blocked ∧ muted = room.muted.erase request.target

def Capped (limit : Nat) (before after : Finset ParticipantId) : Prop :=
  after ⊆ before ∨ after.card ≤ limit

theorem capped_insert {limit : Nat} {before : Finset ParticipantId} {p : ParticipantId}
    (h : before.card < limit ∨ p ∈ before) : Capped limit before (insert p before) := by
  rcases h with h | h
  · exact .inr ((Finset.card_insert_le ..).trans h)
  · exact .inl (Finset.insert_subset h subset_rfl)

/-- What the checks of a moderation guarantee: it is not about the creator, and no limit is passed. -/
structure ModerateRequest.Allows (request : ModerateRequest) (room : Room)
    (blocked muted : Finset ParticipantId) : Prop where
  other : request.target ≠ room.initiatorId
  blocked : Capped maxBlocked room.blocked blocked
  muted : Capped maxMuted room.muted muted

/-- The session whose membership of a room the operation takes away. -/
def Operation.Removes (op : Operation) (env : CallEnv) (c : Registry) (room : Room)
    (session : SessionId) : Prop :=
  match op with
  | .depart actor => actor = session ∧ c.sessionRooms.get? session = some room.roomId ∧
      (env.sessions session).authenticatedUser ≠ some room.initiatorId
  | .moderate host request => request.operation = .remove ∧ request.roomId = room.roomId ∧
      request.Authorized env host room ∧
      ∃ member, room.members.get? request.target = some member ∧ member.session = session
  | _ => False

def Operation.Ends (op : Operation) (env : CallEnv) (c : Registry) (room : Room) : Prop :=
  match op with
  | .depart session => c.sessionRooms.get? session = some room.roomId ∧
      (env.sessions session).authenticatedUser = some room.initiatorId
  | .expire roomId => roomId = room.roomId
  | _ => False

/-- The blocked participants of a room one of whose members is removed. -/
def Operation.Blocks (op : Operation) (room : Room) (participantId : ParticipantId)
    (blocked : Finset ParticipantId) : Prop :=
  blocked = room.blocked ∨
    ∃ host request, op = .moderate host request ∧ request.target = participantId ∧
      blocked = insert participantId room.blocked ∧ Capped maxBlocked room.blocked blocked

/-- The identity a session has now names no member of the room that belongs to it. -/
def Unmatched (env : CallEnv) (room : Room) (session : SessionId) : Prop :=
  ∀ participantId member, (env.sessions session).authenticatedUser = some participantId →
    room.members.get? participantId = some member → member.session ≠ session

/-- The operation clears the metadata of a session that is not indexed, or under a room that is
gone, or that has no membership under its current address to take away. -/
def Operation.Clears (op : Operation) (env : CallEnv) (c : Registry) (session : SessionId) : Prop :=
  (∀ roomId, c.sessionRooms.get? session = some roomId → c.rooms.get? roomId = none) ∨
    ∃ room, c.rooms.get? room.roomId = some room ∧ op.Removes env c room session ∧
      Unmatched env room session

/-- A join request that admits a participant to a room. -/
structure Admission (setup : Setup) (env : CallEnv) (c : Registry) (session : SessionId)
    (request : JoinRequest) (room : Room) : Prop where
  current : c.rooms.get? room.roomId = some room
  named : request.roomId = room.roomId
  free : c.sessionRooms.get? session = none ∨ c.sessionRooms.get? session = some room.roomId
  invited : setup.sha256 request.inviteToken = room.inviteTokenHash
  live : millis env.now < room.expiresAtMs
  unblocked : request.participantId ∉ room.blocked
  own : ∀ member, room.members.get? request.participantId = some member → member.session = session
  capacity : room.members.get? request.participantId = none →
    (room.admitting request session).members.size ≤ maxParticipantsPerRoom

/-- The removal of a member under the identity its session has at that moment. -/
structure Removal (env : CallEnv) (op : Operation) (c : Registry) (session : SessionId)
    (participantId : ParticipantId) (room room' : Room) : Prop where
  current : c.rooms.get? room.roomId = some room
  removes : op.Removes env c room session
  bound : ∃ member, room.members.get? participantId = some member ∧ member.session = session
  identity : (env.sessions session).authenticatedUser = some participantId
  after : ∃ blocked screen, op.Blocks room participantId blocked ∧
    room' = (room.withBlocked blocked).depart participantId screen

/-- One change an operation makes to the registry. -/
inductive Effect (setup : Setup) (env : CallEnv) : Operation → Registry → Registry → Prop
  | opened {c : Registry} {session : SessionId} {request : CreateRequest} {room : Room}
      {timer : TimerId} {policies : Dict RoomId PolicyDocument} :
      room = newRoom env.now session request timer → c.rooms.get? room.roomId = none →
      c.sessionRooms.get? session = none → c.rooms.size < maxRooms →
      policies = published setup c.policies room ∨ Faulty env ∧ policies = c.policies →
      Effect setup env (.create session request) c
        { (c.putRoom room).bind session room.roomId with policies }
  | abandoned {c : Registry} {session : SessionId} {request : CreateRequest} :
      c.rooms.get? request.roomId = none → c.sessionRooms.get? session = none → Faulty env →
      Effect setup env (.create session request) c
        { c with
          callRoomId := update c.callRoomId session none
          policies := withdrawn setup c.policies request.roomId }
  | joined {c : Registry} {session : SessionId} {request : JoinRequest} {room : Room}
      {revision : Nat} {policies : Dict RoomId PolicyDocument} :
      Admission setup env c session request room →
      Rewritten setup env c.policies { room.admitting request session with revision } policies ∨
        Faulty env ∧ policies = c.policies →
      Effect setup env (.join session request) c
        { (c.putRoom { room.admitting request session with revision }).bind session room.roomId with
          policies }
  | removed {op : Operation} {c : Registry} {session : SessionId} {participantId : ParticipantId}
      {room room' : Room} :
      Removal env op c session participantId room room' →
      Effect setup env op c
        { (c.putRoom room').forget session with policies := published setup c.policies room' }
  | removalFailed {op : Operation} {c : Registry} {session : SessionId}
      {participantId : ParticipantId} {room room' : Room} :
      Removal env op c session participantId room room' → Faulty env →
      Effect setup env op c
        { c.putRoom room' with
          sessionRooms := c.sessionRooms.erase session
          policies := withdrawn setup c.policies room'.roomId }
  | cleared {op : Operation} {c : Registry} (session : SessionId) : op.Clears env c session →
      Effect setup env op c { c with callRoomId := update c.callRoomId session none }
  | ended {op : Operation} {c : Registry} {room : Room} {sessions : List SessionId} :
      c.rooms.get? room.roomId = some room → op.Ends env c room → sessions <+: room.sessions →
      sessions = room.sessions ∨ Faulty env →
      Effect setup env op c (Registry.forgetAll { c with
        rooms := c.rooms.erase room.roomId
        policies := withdrawn setup c.policies room.roomId } sessions)
  | blocked {c : Registry} {host : SessionId} {request : ModerateRequest} {room : Room}
      {member : Member} :
      c.rooms.get? room.roomId = some room → request.operation = .remove →
      request.roomId = room.roomId → request.Authorized env host room →
      room.members.get? request.target = some member →
      (env.sessions member.session).authenticatedUser ≠ some request.target →
      Effect setup env (.moderate host request) c
        (c.putRoom (room.withBlocked (insert request.target room.blocked)))
  | marked {c : Registry} {host : SessionId} {request : ModerateRequest} {room room' : Room}
      {blocked muted : Finset ParticipantId} {policies : Dict RoomId PolicyDocument} :
      c.rooms.get? room.roomId = some room → request.roomId = room.roomId →
      request.Marks room blocked muted → request.Allows room blocked muted →
      room' = ((room.withBlocked blocked).withMuted muted).nextRevision →
      Rewritten setup env c.policies room' policies →
      Effect setup env (.moderate host request) c { c.putRoom room' with policies }
  | screened {c : Registry} {room : Room} (screen : Screen) :
      c.rooms.get? room.roomId = some room →
      Effect setup env .screen c (c.putRoom (room.withScreen screen))

def Effects (setup : Setup) (env : CallEnv) (op : Operation) : Registry → Registry → Prop :=
  Relation.ReflTransGen (Effect setup env op)

def Registry.Keyed (c : Registry) : Prop :=
  ∀ roomId room, c.rooms.get? roomId = some room → room.roomId = roomId

/-! ### Properties of every room -/

def Registry.AllRooms (P : Room → Prop) (c : Registry) : Prop :=
  ∀ roomId room, c.rooms.get? roomId = some room → P room

theorem Registry.AllRooms.store {P : Room → Prop} {c c' : Registry} {room : Room}
    (h : c.AllRooms P) (hrooms : c'.rooms = c.rooms.set room.roomId room) (hroom : P room) :
    c'.AllRooms P := by
  intro roomId room' hroom'
  rw [hrooms, Dict.get?_set] at hroom'
  split_ifs at hroom'
  · exact Option.some.inj hroom' ▸ hroom
  · exact h roomId room' hroom'

theorem Registry.AllRooms.erase {P : Room → Prop} {c c' : Registry} {roomId : RoomId}
    (h : c.AllRooms P) (hrooms : c'.rooms = c.rooms.erase roomId) : c'.AllRooms P := by
  intro r room hroom
  rw [hrooms] at hroom
  exact h r room (Dict.get?_erase_eq_some hroom).2

/-- Every room was there before, and has changed as the relation says. -/
def Registry.Evolves (R : Room → Room → Prop) (c c' : Registry) : Prop :=
  ∀ roomId room', c'.rooms.get? roomId = some room' → ∃ room, c.rooms.get? roomId = some room ∧ R room room'

section Evolution

variable {R : Room → Room → Prop} {c c' c'' : Registry}

theorem Registry.Evolves.trans (htrans : ∀ room room' room'', R room room' → R room' room'' → R room room'')
    (h : c.Evolves R c') (h' : c'.Evolves R c'') : c.Evolves R c'' := by
  intro roomId room'' hroom''
  obtain ⟨room', hroom', hlater⟩ := h' roomId room'' hroom''
  obtain ⟨room, hroom, hearlier⟩ := h roomId room' hroom'
  exact ⟨room, hroom, htrans _ _ _ hearlier hlater⟩

theorem Registry.Evolves.store {room room' : Room} (hrefl : ∀ room, R room room)
    (hroom : c.rooms.get? room.roomId = some room) (hrooms : c'.rooms = c.rooms.set room'.roomId room')
    (hid : room'.roomId = room.roomId) (h : R room room') : c.Evolves R c' := by
  intro roomId current hcurrent
  rw [hrooms, Dict.get?_set] at hcurrent
  split_ifs at hcurrent with heq
  · rw [← Option.some.inj hcurrent]
    exact ⟨room, by rw [← heq, hid, hroom], h⟩
  · exact ⟨current, hcurrent, hrefl current⟩

/-- What no effect but the opening of a room does to rooms, no effect does. -/
theorem Effect.evolves {setup : Setup} {env : CallEnv} {op : Operation} (he : Effect setup env op c c')
    (hcreate : ∀ s request, op ≠ .create s request) (hrefl : ∀ room, R room room)
    (hjoin : ∀ s request room revision, op = .join s request → R room { room.admitting request s with revision })
    (hdepart : ∀ room blocked p screen, R room ((room.withBlocked blocked).depart p screen))
    (hblock : ∀ room blocked, R room (room.withBlocked blocked))
    (hmark : ∀ room blocked muted, R room ((room.withBlocked blocked).withMuted muted).nextRevision)
    (hscreen : ∀ room screen, R room (room.withScreen screen)) : c.Evolves R c' := by
  cases he with
  | opened => exact absurd rfl (hcreate _ _)
  | abandoned => exact absurd rfl (hcreate _ _)
  | joined hadmission => exact .store hrefl hadmission.current rfl rfl (hjoin _ _ _ _ rfl)
  | removed hremoval =>
    obtain ⟨_, _, -, rfl⟩ := hremoval.after
    exact .store hrefl hremoval.current rfl rfl (hdepart ..)
  | removalFailed hremoval =>
    obtain ⟨_, _, -, rfl⟩ := hremoval.after
    exact .store hrefl hremoval.current rfl rfl (hdepart ..)
  | cleared => exact fun _ room h => ⟨room, h, hrefl room⟩
  | ended =>
    intro roomId room hroom
    rw [Registry.forgetAll_rooms] at hroom
    exact ⟨room, (Dict.get?_erase_eq_some hroom).2, hrefl room⟩
  | blocked hroom => exact .store hrefl hroom rfl rfl (hblock ..)
  | marked hroom _ _ _ heq =>
    rw [heq]
    exact .store hrefl hroom rfl rfl (hmark ..)
  | screened screen hroom => exact .store hrefl hroom rfl rfl (hscreen ..)

end Evolution

/-! ### Rules for the helpers -/

section Rules

variable {setup : Setup} {env : CallEnv} {st : CallState} {fail : Exn → CallState → Prop}
  {session : SessionId} {post : Unit → CallState → Prop}

theorem wp_persist (hpost : ∀ st', st'.toRegistry = st.toRegistry → post () st')
    (hfail : ∀ st', Faulty env → st'.toRegistry = st.toRegistry → fail .databaseError st') :
    wp (persist session) env st post fail := by
  simp only [persist, attemptWrite, wp_do, wp_ite, wp_ensure]
  refine ⟨fun _ => hpost _ rfl, fun _ => ⟨fun _ => hpost _ rfl, fun hw => ?_⟩⟩
  exact hfail _ ⟨st.writes, by simpa using hw⟩ rfl

variable {room : Room}

theorem wp_writePolicy (hpost : ∀ st', st'.toRegistry =
      { st.toRegistry with policies := published setup st.policies room } → post () st')
    (hfail : ∀ st', Faulty env → st'.toRegistry =
      { st.toRegistry with policies := withdrawn setup st.policies room.roomId } →
      fail .osError st') :
    wp (writePolicy setup room) env st post fail := by
  simp only [writePolicy, attemptWrite, wp_do, wp_ite]
  refine ⟨fun hdir => hpost _ ?_, fun hdir => ⟨fun _ => hpost _ ?_, fun hw => hfail _ ?_ ?_⟩⟩
  · simp [published, show setup.policyDirectory = false by simpa using hdir]
  · simp [published, show setup.policyDirectory = true by simpa using hdir]
  · exact ⟨st.writes, by simpa using hw⟩
  · simp [withdrawn, show setup.policyDirectory = true by simpa using hdir]

theorem wp_newTimer {delay : Nanos} {target : TimerTarget} {post : TimerId → CallState → Prop}
    (hpost : ∀ timer st', st'.toRegistry = st.toRegistry → post timer st') :
    wp (newTimer delay target) env st post fail := by
  simp only [newTimer, wp_do]
  exact hpost _ _ rfl

theorem wp_startTimer {timer : TimerId} (hpost : ∀ st', st'.toRegistry = st.toRegistry → post () st') :
    wp (startTimer timer) env st post fail := by
  simp only [startTimer, updateTimer, wp_do]
  exact hpost _ rfl

theorem wp_cancelTimer {timer : Option TimerId}
    (hpost : ∀ st', st'.toRegistry = st.toRegistry → post () st') :
    wp (cancelTimer timer) env st post fail := by
  cases timer with
  | none => exact hpost _ rfl
  | some id =>
    simp only [cancelTimer, updateTimer, wp_modify]
    exact hpost _ rfl

theorem wp_bindSession {roomId : RoomId}
    (hpost : ∀ st', st'.toRegistry = st.toRegistry.bind session roomId → post () st')
    (hfail : ∀ st', Faulty env → st'.toRegistry = st.toRegistry.bind session roomId →
      fail .databaseError st') :
    wp (bindSession session roomId) env st post fail := by
  simp only [bindSession, setCallRoomId, wp_do]
  exact wp_persist (fun st' h => hpost st' h) fun st' hf h => hfail st' hf h

theorem wp_clearSessionMetadata (hpost : ∀ st', st'.toRegistry = { st.toRegistry with
      callRoomId := update st.callRoomId session none } → post () st')
    (hfail : ∀ st', Faulty env → st'.toRegistry = { st.toRegistry with
      callRoomId := update st.callRoomId session none } → fail .databaseError st') :
    wp (clearSessionMetadata session) env st post fail := by
  simp only [clearSessionMetadata, setCallRoomId, wp_do]
  exact wp_persist (fun st' h => hpost st' h) fun st' hf h => hfail st' hf h

theorem wp_clearScreenLocked {post : Room → CallState → Prop}
    (hpost : ∀ st' screen, st'.toRegistry = st.toRegistry.putRoom (room.withScreen screen) →
      post (room.withScreen screen) st') :
    wp (clearScreenLocked room) env st post fail := by
  simp only [clearScreenLocked, putRoom, wp_bind]
  refine wp_cancelTimer fun st' h => ?_
  simp only [wp_do]
  refine hpost _ ⟨"", "", room.screenRevision + 1, 0, none⟩ ?_
  simp only [h, Registry.putRoom]
  rfl

variable {room' : Room}

theorem putRoom_putRoom (c : Registry) (h : room'.roomId = room.roomId) :
    (c.putRoom room).putRoom room' = c.putRoom room' := by
  simp only [Registry.putRoom, h, Dict.set_set]

variable {c : Registry}

theorem wp_releaseScreen {participantId : ParticipantId} {post : Room → CallState → Prop}
    (hstored : st.toRegistry = c.putRoom room)
    (hpost : ∀ st' screen, st'.toRegistry = c.putRoom (room.withScreen screen) →
      post (room.withScreen screen) st') :
    wp (releaseScreen participantId room) env st post fail := by
  unfold releaseScreen
  rw [wp_ite]
  refine ⟨fun _ => wp_clearScreenLocked fun st' screen h => hpost st' screen ?_, fun _ => ?_⟩
  · rw [h, hstored]
    exact putRoom_putRoom c rfl
  · exact hpost st room.screen hstored

theorem wp_dropMember {participantId : ParticipantId} {post : Room → CallState → Prop}
    (hpost : ∀ screen st', st'.toRegistry = { st.toRegistry.putRoom (room.depart participantId screen) with
        sessionRooms := st.sessionRooms.erase session
        policies := published setup st.policies (room.depart participantId screen) } →
      post (room.depart participantId screen) st') (hfail : ∀ screen st', Faulty env →
      st'.toRegistry = { st.toRegistry.putRoom (room.depart participantId screen) with
        sessionRooms := st.sessionRooms.erase session
        policies := withdrawn setup st.policies room.roomId } → fail .osError st') :
    wp (dropMember setup session participantId room) env st post fail := by
  simp only [dropMember, putRoom, popSessionRoom, wp_do]
  refine wp_releaseScreen (c := st.toRegistry) rfl fun st₁ screen hst₁ => ?_
  refine wp_writePolicy (fun st₂ h => hpost screen st₂ ?_) fun st₂ hf h => hfail screen st₂ hf ?_
  · simp [h, hst₁, Registry.putRoom, Dict.set_set, Room.depart]
  · simp [h, hst₁, Registry.putRoom, Dict.set_set, Room.depart]

theorem wp_removeMemberLocked {post : Option Room → CallState → Prop}
    (hnone : (∀ participantId member, (env.sessions session).authenticatedUser = some participantId →
      room.members.get? participantId = some member → member.session ≠ session) → post none st)
    (hpost : ∀ participantId member screen st',
      (env.sessions session).authenticatedUser = some participantId →
      room.members.get? participantId = some member → member.session = session →
      st'.toRegistry = { st.toRegistry.putRoom (room.depart participantId screen) with
        sessionRooms := st.sessionRooms.erase session
        policies := published setup st.policies (room.depart participantId screen) } →
      post (some (room.depart participantId screen)) st')
    (hfail : ∀ participantId member screen st', Faulty env →
      (env.sessions session).authenticatedUser = some participantId →
      room.members.get? participantId = some member → member.session = session →
      st'.toRegistry = { st.toRegistry.putRoom (room.depart participantId screen) with
        sessionRooms := st.sessionRooms.erase session
        policies := withdrawn setup st.policies room.roomId } → fail .osError st') :
    wp (removeMemberLocked setup session room) env st post fail := by
  simp only [removeMemberLocked, wp_do]
  cases huser : (env.sessions session).authenticatedUser with
  | none => exact hnone (by simp [huser])
  | some participantId =>
    cases hmember : room.members.get? participantId with
    | none =>
      simp only [hmember]
      refine hnone fun p member hp hm => ?_
      rw [huser, Option.some.injEq] at hp
      rw [← hp, hmember] at hm
      cases hm
    | some member =>
      simp only [hmember, wp_ite, wp_do]
      refine ⟨fun hown => wp_dropMember (fun screen st' h => ?_) fun screen st' hf h => ?_,
        fun hother => hnone fun p m hp hm => ?_⟩
      · exact hpost participantId member screen st' huser hmember hown h
      · exact hfail participantId member screen st' hf huser hmember hown h
      · rw [huser, Option.some.injEq] at hp
        rw [← hp, hmember, Option.some.injEq] at hm
        exact hm ▸ hother

theorem wp_forgetMembers {members : List Member}
    (hpost : ∀ st', st'.toRegistry = st.toRegistry.forgetAll (members.map Member.session) → post () st')
    (hfail : ∀ sessions st', Faulty env → sessions <+: members.map Member.session →
      st'.toRegistry = st.toRegistry.forgetAll sessions → fail .databaseError st') :
    wp (forEach (fun member => do
      popSessionRoom member.session
      setCallRoomId member.session none
      persist member.session) members) env st post fail := by
  induction members generalizing st with
  | nil => exact hpost st rfl
  | cons member rest ih =>
    simp only [forEach, popSessionRoom, setCallRoomId, wp_do]
    refine wp_persist (fun st₁ h₁ => ih (fun st₂ h₂ => ?_) fun sessions st₂ hf hpre h₂ => ?_)
      fun st₁ hf h₁ => ?_
    · refine hpost st₂ ?_
      rw [h₂, h₁]
      rfl
    · refine hfail (member.session :: sessions) st₂ hf ?_ ?_
      · exact (List.prefix_cons_inj _).2 hpre
      · rw [h₂, h₁]
        rfl
    · exact hfail [member.session] st₁ hf ⟨rest.map Member.session, rfl⟩ h₁

theorem wp_unlinkPolicy {roomId : RoomId} (hpost : ∀ st', st'.toRegistry =
      { st.toRegistry with policies := withdrawn setup st.policies roomId } → post () st') :
    wp (unlinkPolicy setup roomId) env st post fail := by
  unfold unlinkPolicy
  rw [wp_ite]
  refine ⟨fun hdir => hpost _ ?_, fun hdir => hpost _ ?_⟩ <;> simp [withdrawn, hdir]

theorem wp_endRoomLocked {post : List SessionId → CallState → Prop}
    (hpost : ∀ st', st'.toRegistry = Registry.forgetAll { st.toRegistry with
        rooms := st.rooms.erase room.roomId
        policies := withdrawn setup st.policies room.roomId } room.sessions → post room.guestSessions st')
    (hfail : ∀ sessions st', Faulty env → sessions <+: room.sessions →
      st'.toRegistry = Registry.forgetAll { st.toRegistry with
        rooms := st.rooms.erase room.roomId
        policies := withdrawn setup st.policies room.roomId } sessions → fail .databaseError st') :
    wp (endRoomLocked setup room) env st post fail := by
  simp only [endRoomLocked, wp_bind]
  refine wp_clearScreenLocked fun st₁ screen h₁ => ?_
  refine wp_unlinkPolicy fun st₂ h₂ => wp_cancelTimer fun st₃ h₃ => ?_
  have hst₃ : st₃.toRegistry = { st.toRegistry with
      rooms := st.rooms.erase room.roomId
      policies := withdrawn setup st.policies room.roomId } := by
    rw [h₃, h₂]
    simp [h₁, Registry.putRoom, Dict.erase_set]
  refine wp_forgetMembers (fun st₄ h₄ => hpost st₄ ?_) fun sessions st₄ hf hpre h₄ => ?_
  · rw [h₄, hst₃]
    rfl
  · exact hfail sessions st₄ hf hpre (by rw [h₄, hst₃])

/-! ### Every handler moves along its effects -/

/-- However it ends, the computation moves the registry along effects of the operation. -/
def Moves (setup : Setup) (env : CallEnv) (op : Operation) (st : CallState) {α : Type}
    (m : CallM α) : Prop :=
  wp m env st (fun _ st' => Effects setup env op st.toRegistry st'.toRegistry)
    (fun _ st' => Effects setup env op st.toRegistry st'.toRegistry)

variable {op : Operation} {c' : Registry}

theorem Effects.of_eq (h : c' = c) : Effects setup env op c c' := by
  rw [h]
  exact .refl

theorem Effects.one {c'' : Registry} (h : Effect setup env op c c') (heq : c'' = c') :
    Effects setup env op c c'' := by
  rw [heq]
  exact .single h

variable {post : Plan → CallState → Prop}

/-- `create` is refused without a change; or the room is opened, but cannot be recorded with the
session; or its policy cannot be written, and it is withdrawn again. -/
theorem wp_createLocked {request : CreateRequest}
    (hrefused : ∀ e, fail e st)
    (hopened : ∀ timer room, room = newRoom env.now session request timer →
      st.rooms.get? request.roomId = none → st.sessionRooms.get? session = none → st.rooms.size < maxRooms →
      (∀ st', st'.toRegistry = { (st.toRegistry.putRoom room).bind session request.roomId with
          policies := published setup st.policies room } →
        post { before := [(session, .callCreated request.requestId room.snapshot)] } st') ∧
      (∀ st', Faulty env → st'.toRegistry = (st.toRegistry.putRoom room).bind session request.roomId →
        fail .databaseError st') ∧
      ∀ e st', Faulty env → st'.toRegistry = { st.toRegistry with
          callRoomId := update st.callRoomId session none
          policies := withdrawn setup st.policies request.roomId } → fail e st') :
    wp (createLocked setup session request) env st post fail := by
  unfold createLocked
  simp only [wp_do, wp_ensure]
  refine ⟨fun hfree => ⟨fun habsent => ⟨fun hsize => ?_, fun _ => hrefused _⟩, fun _ => hrefused _⟩,
    fun _ => hrefused _⟩
  refine wp_newTimer fun timer st₁ h₁ => ?_
  obtain ⟨hdone, hunrecorded, habandoned⟩ := hopened timer _ rfl habsent hfree hsize
  refine wp_bindSession (fun st₂ h₂ => ?_) fun st₂ hf h₂ => ?_
  · rw [wp_rescue]
    refine wp_writePolicy (fun st₃ h₃ => ?_) fun st₃ hf h₃ => ?_
    · refine wp_startTimer fun st₄ h₄ => hdone st₄ ?_
      rw [h₄, h₃, h₂]
      simp [h₁, Registry.putRoom, Registry.bind]
    · simp only [Exn.isOsError, if_true, popSessionRoom, wp_do]
      have hst₄ : ∀ st₄ : CallState, st₄.toRegistry = { st₃.toRegistry with
          rooms := st₃.rooms.erase request.roomId
          sessionRooms := st₃.sessionRooms.erase session
          callRoomId := update st₃.callRoomId session none } → ∀ e, fail e st₄ := by
        intro st₄ h₄ e
        refine habandoned e st₄ hf ?_
        rw [h₄, h₃, h₂]
        simp [h₁, Registry.bind, newRoom, Dict.erase_set,
          Dict.erase_of_get?_eq_none habsent, Dict.erase_of_get?_eq_none hfree]
      exact wp_clearSessionMetadata (fun st₄ h₄ => hst₄ st₄ h₄ _) fun st₄ _ h₄ => hst₄ st₄ h₄ _
  · refine hunrecorded st₂ hf ?_
    rw [h₂]
    simp [h₁, Registry.putRoom, Registry.bind]

theorem moves_createLocked (session : SessionId) (request : CreateRequest) :
    Moves setup env (.create session request) st (createLocked setup session request) := by
  refine wp_createLocked (fun _ => .refl) fun timer room hroom habsent hfree hsize => ?_
  have hid : room.roomId = request.roomId := by rw [hroom]; rfl
  have hopened : ∀ policies, policies = published setup st.policies room ∨
      Faulty env ∧ policies = st.policies → Effect setup env (.create session request) st.toRegistry
      { (st.toRegistry.putRoom room).bind session request.roomId with policies } := by
    intro policies hpolicies
    rw [← hid]
    exact .opened hroom (hid ▸ habsent) hfree hsize hpolicies
  exact ⟨fun _ h => .one (hopened _ (.inl rfl)) h, fun _ hf h => .one (hopened _ (.inr ⟨hf, rfl⟩)) h,
    fun _ _ hf h => .one (.abandoned habsent hfree hf) h⟩

def Room.changedBy (room : Room) (request : JoinRequest) (session : SessionId) : Bool :=
  !(room.members.get? request.participantId).any (·.same (request.member session))

def Room.joined (room : Room) (request : JoinRequest) (session : SessionId) : Room :=
  if room.changedBy request session then (room.admitting request session).nextRevision
  else room.admitting request session

/-- What a join that leaves the room sends. -/
def joinPlan (session : SessionId) (request : JoinRequest) (room : Room) (changed : Bool) : Plan where
  before := [(session, .callJoined request.requestId room.snapshot)]
  recipients := if changed then room.sessions else []
  payload := if changed then some (.callMembership room.snapshot) else none

theorem Room.joined_eq (room : Room) (request : JoinRequest) (session : SessionId) :
    ∃ revision, room.joined request session = { room.admitting request session with revision } := by
  unfold Room.joined
  split_ifs
  · exact ⟨room.revision + 1, rfl⟩
  · exact ⟨room.revision, rfl⟩

/-- `join` is refused or rejected without a change; or the member is stored, but cannot be recorded with
the session; or the policy cannot be written. -/
theorem wp_joinLocked {request : JoinRequest}
    (hkeyed : st.toRegistry.Keyed) (hrefused : ∀ e, fail e st)
    (hrejected : ∀ code, post { before := [(session, .callJoinRejected request.requestId request.roomId code)],
                                underLock := true } st)
    (hremoved : post { before := [(session, .callRemoved request.roomId)], underLock := true } st)
    (hjoined : ∀ room, Admission setup env st.toRegistry session request room →
      (∀ st', st'.toRegistry =
          { (st.toRegistry.putRoom (room.joined request session)).bind session room.roomId with
            policies := published setup st.policies (room.joined request session) } →
        post (joinPlan session request (room.joined request session) (room.changedBy request session)) st') ∧
      (∀ st', Faulty env → st'.toRegistry =
          { (st.toRegistry.putRoom (room.joined request session)).bind session room.roomId with
            policies := withdrawn setup st.policies room.roomId } → fail .osError st') ∧
      ∀ st', Faulty env → st'.toRegistry =
        (st.toRegistry.putRoom (room.admitting request session)).bind session room.roomId →
        fail .databaseError st') :
    wp (joinLocked setup session request) env st post fail := by
  unfold joinLocked
  simp only [wp_do, wp_ensure]
  refine ⟨fun hfree => ?_, fun _ => hrefused _⟩
  cases hroom : st.rooms.get? request.roomId with
  | none => exact hrejected _
  | some room =>
    have hid : room.roomId = request.roomId := hkeyed _ _ hroom
    simp only [wp_ite, wp_do, wp_ensure]
    refine ⟨fun _ => hrejected _, fun hlive => ⟨fun htoken => ⟨fun _ => hremoved, fun hblocked => ?_⟩,
      fun _ => hrefused _⟩⟩
    unfold admitMember
    simp only [wp_bind, wp_ensure]
    refine ⟨fun hown => ⟨fun hcapacity => ?_, fun _ => hrefused _⟩, fun _ => hrefused _⟩
    obtain ⟨hdone, hunwritten, hunrecorded⟩ := hjoined room
      ⟨by rw [hid]; exact hroom, hid.symm, by rw [hid]; exact hfree, htoken, not_le.1 hlive, hblocked, hown,
        fun hnew => not_lt.1 fun hlt => hcapacity ⟨hnew, hlt⟩⟩
    obtain ⟨revision, hrevision⟩ := room.joined_eq request session
    refine wp_bindSession (fun st₁ h₁ => ?_) fun st₁ hf h₁ => ?_
    · -- the room is stored again with the revision the reply carries
      have hstored : ∀ policies, ({ st₁.toRegistry.putRoom (room.joined request session) with policies } :
          Registry) = { (st.toRegistry.putRoom (room.joined request session)).bind session room.roomId with
            policies } := by
        intro policies
        rw [h₁, hrevision]
        simp [Registry.putRoom, Registry.bind, hid, Dict.set_set]
      have hpolicies : st₁.policies = st.policies := by rw [h₁]; rfl
      have hnamed : (room.joined request session).roomId = room.roomId := by rw [hrevision]; rfl
      refine wp_writePolicy (fun st₂ h₂ => hdone st₂ (h₂.trans ?_)) fun st₂ hf h₂ => hunwritten st₂ hf (h₂.trans ?_)
      · rw [← hstored, ← hpolicies]
        rfl
      · rw [← hstored, ← hpolicies, ← hnamed]
        rfl
    · refine hunrecorded st₁ hf ?_
      rw [h₁, hid]
      rfl

theorem moves_joinLocked (hkeyed : st.toRegistry.Keyed) (session : SessionId) (request : JoinRequest) :
    Moves setup env (.join session request) st (joinLocked setup session request) := by
  refine wp_joinLocked hkeyed (fun _ => .refl) (fun _ => .refl) .refl fun room hadmission => ?_
  obtain ⟨revision, hrevision⟩ := room.joined_eq request session
  rw [hrevision]
  exact ⟨fun _ h => .one (.joined hadmission (.inl (.inl rfl))) h,
    fun _ hf h => .one (.joined hadmission (.inl (.inr ⟨hf, rfl⟩))) h,
    fun _ hf h => .one (@Effect.joined _ _ _ _ _ _ room.revision _ hadmission (.inr ⟨hf, rfl⟩)) h⟩

theorem Effects.cleared {c'' : Registry} (session : SessionId) (h : Effects setup env op c c')
    (hclears : op.Clears env c' session)
    (heq : c'' = { c' with callRoomId := update c'.callRoomId session none }) :
    Effects setup env op c c'' := by
  rw [heq]
  exact h.tail (.cleared session hclears)

theorem wp_clearSessionMetadata_moves (h : Effects setup env op c st.toRegistry)
    (hclears : op.Clears env st.toRegistry session) :
    wp (clearSessionMetadata session) env st
      (fun _ st' => Effects setup env op c st'.toRegistry)
      (fun _ st' => Effects setup env op c st'.toRegistry) :=
  wp_clearSessionMetadata (fun _ heq => h.cleared session hclears heq)
    fun _ _ heq => h.cleared session hclears heq

/-- Removing a member and clearing its session's metadata, when the room has been stored with other
blocked participants or not at all since the registry `c`. -/
theorem wp_removeAndClear {origin : Registry} {blocked : Finset ParticipantId}
    {post : Option Room → CallState → Prop} (horigin : Effects setup env op origin c)
    (hroom : c.rooms.get? room.roomId = some room)
    (hstored : st.toRegistry = c ∨ st.toRegistry = c.putRoom (room.withBlocked blocked))
    (hremoves : op.Removes env c room session)
    (hblocks : ∀ p, (env.sessions session).authenticatedUser = some p → op.Blocks room p blocked)
    (hnone : Unmatched env room session → Effects setup env op origin st.toRegistry ∧
      op.Clears env st.toRegistry session ∧ ∀ st', st'.toRegistry = { st.toRegistry with
        callRoomId := update st.callRoomId session none } → post none st')
    (hsome : ∀ p screen st', (env.sessions session).authenticatedUser = some p →
      st'.toRegistry = { (c.putRoom ((room.withBlocked blocked).depart p screen)).forget session with
        policies := published setup c.policies ((room.withBlocked blocked).depart p screen) } →
      Effects setup env op origin st'.toRegistry → post (some ((room.withBlocked blocked).depart p screen)) st')
    :
    wp (removeMemberLocked setup session (room.withBlocked blocked)) env st
      (fun update st' => wp (clearSessionMetadata session) env st' (fun _ => post update)
        (fun _ st'' => Effects setup env op origin st''.toRegistry))
      (fun _ st' => Effects setup env op origin st'.toRegistry) := by
  have hput : ∀ stored : Room, stored.roomId = room.roomId →
      st.toRegistry.putRoom stored = c.putRoom stored := by
    intro stored hid
    rcases hstored with h | h
    · rw [h]
    · rw [h]
      exact putRoom_putRoom c hid
  have hrest : st.sessionRooms = c.sessionRooms ∧ st.callRoomId = c.callRoomId ∧
      st.policies = c.policies := by
    rcases hstored with h | h <;> rw [h] <;> exact ⟨rfl, rfl, rfl⟩
  have hremoval : ∀ p member screen, (env.sessions session).authenticatedUser = some p →
      room.members.get? p = some member → member.session = session →
      Removal env op c session p room ((room.withBlocked blocked).depart p screen) :=
    fun p member screen hp hm hs =>
      ⟨hroom, hremoves, ⟨member, hm, hs⟩, hp, blocked, screen, hblocks p hp, rfl⟩
  refine wp_removeMemberLocked (fun hun => ?_) (fun p member screen st₁ hp hm hs h₁ => ?_)
    fun p member screen st₁ hf hp hm hs h₁ => ?_
  · obtain ⟨hreach, hclears, hpost⟩ := hnone hun
    exact wp_clearSessionMetadata hpost fun _ _ heq => hreach.cleared session hclears heq
  · have hfinal : ∀ st₂ : CallState, st₂.toRegistry = { st₁.toRegistry with
        callRoomId := update st₁.callRoomId session none } → st₂.toRegistry =
        { (c.putRoom ((room.withBlocked blocked).depart p screen)).forget session with
          policies := published setup c.policies ((room.withBlocked blocked).depart p screen) } := by
      intro st₂ h₂
      rw [h₂, h₁, hput ((room.withBlocked blocked).depart p screen) rfl, hrest.1, hrest.2.2]
      rfl
    have hreach : ∀ st₂ : CallState, st₂.toRegistry = { st₁.toRegistry with
        callRoomId := update st₁.callRoomId session none } →
        Effects setup env op origin st₂.toRegistry := by
      intro st₂ h₂
      rw [hfinal st₂ h₂]
      exact horigin.tail (.removed (hremoval p member screen hp hm hs))
    exact wp_clearSessionMetadata (fun st₂ h₂ => hsome p screen st₂ hp (hfinal st₂ h₂) (hreach st₂ h₂))
      fun st₂ _ h₂ => hreach st₂ h₂
  · have hfinal : st₁.toRegistry = { c.putRoom ((room.withBlocked blocked).depart p screen) with
        sessionRooms := c.sessionRooms.erase session
        policies := withdrawn setup c.policies room.roomId } := by
      rw [h₁, hput ((room.withBlocked blocked).depart p screen) rfl, hrest.1, hrest.2.2]
      rfl
    rw [hfinal]
    exact horigin.tail (.removalFailed (hremoval p member screen hp hm hs) hf)

theorem moves_departLocked {reason : EndReason} (hroom : st.rooms.get? room.roomId = some room)
    (hindex : st.sessionRooms.get? session = some room.roomId) :
    Moves setup env (.depart session) st
      (departLocked setup session (env.sessions session).authenticatedUser room reason) := by
  unfold Moves departLocked
  rw [wp_ite]
  refine ⟨fun huser => ?_, fun huser => ?_⟩
  · simp only [wp_do]
    have hended : ∀ sessions, sessions <+: room.sessions → sessions = room.sessions ∨ Faulty env →
        Effect setup env (.depart session) st.toRegistry (Registry.forgetAll { st.toRegistry with
          rooms := st.rooms.erase room.roomId
          policies := withdrawn setup st.policies room.roomId } sessions) :=
      fun _ hpre hall => .ended hroom ⟨hindex, huser⟩ hpre hall
    refine wp_endRoomLocked (fun st₁ h₁ => wp_clearSessionMetadata_moves ?_ (.inl fun roomId hr => ?_))
      fun sessions st₁ hf hpre h₁ => .one (hended sessions hpre (.inr hf)) h₁
    · exact .one (hended _ List.prefix_rfl (.inl rfl)) h₁
    · rw [h₁, Registry.forgetAll_sessionRooms] at hr
      split_ifs at hr
      rw [h₁, Registry.forgetAll_rooms, ← Option.some.inj (hindex.symm.trans hr)]
      exact Dict.get?_erase_self ..
  · simp only [wp_do]
    refine wp_removeAndClear .refl hroom (.inl rfl) ⟨rfl, hindex, huser⟩ (fun _ _ => .inl rfl)
      (fun hun => ?_) fun _ _ _ _ _ hreach => hreach
    have hclears : (Operation.depart session).Clears env st.toRegistry session :=
      .inr ⟨room, hroom, ⟨rfl, hindex, huser⟩, hun⟩
    exact ⟨.refl, hclears, fun _ heq => Effects.cleared session .refl hclears heq⟩

theorem moves_leaveLocked (hkeyed : st.toRegistry.Keyed) {request : LeaveRequest}
    (huser : (env.sessions session).authenticatedUser = some request.participantId) :
    Moves setup env (.depart session) st (leaveLocked setup session request) := by
  unfold Moves leaveLocked
  simp only [wp_do, wp_ensure, wp_require]
  refine ⟨fun hindex => ⟨fun room hroom => ?_, fun _ => .refl⟩, fun _ => .refl⟩
  have hid : room.roomId = request.roomId := hkeyed _ _ hroom
  rw [← hid] at hroom hindex
  rw [← huser]
  exact moves_departLocked hroom hindex

theorem moves_disconnected (hkeyed : st.toRegistry.Keyed) (session : SessionId) :
    Moves setup env (.depart session) st (disconnected setup session) := by
  unfold Moves disconnected
  simp only [wp_do]
  cases hindex : st.sessionRooms.get? session with
  | none => exact .refl
  | some roomId =>
    cases hroom : st.rooms.get? roomId with
    | none =>
      simp only [Option.bind_some, hroom]
      exact .refl
    | some room =>
      simp only [Option.bind_some, hroom, wp_do]
      have hid : room.roomId = roomId := hkeyed _ _ hroom
      rw [← hid] at hroom hindex
      exact moves_departLocked hroom hindex

/-- Where `moderateRoom` leaves the registry: one store of the room away from a registry the effects
reach. -/
structure Moderated (setup : Setup) (env : CallEnv) (session : SessionId) (request : ModerateRequest)
    (before after : Registry) (room : Room) : Prop where
  reached : ∃ c base blocked muted, Effects setup env (.moderate session request) before c ∧
    c.rooms.get? base.roomId = some base ∧ request.roomId = base.roomId ∧
    request.Marks base blocked muted ∧ request.Allows base blocked muted ∧
    room = (base.withBlocked blocked).withMuted muted ∧
    after.policies = c.policies ∧ ∀ stored : Room, stored.roomId = base.roomId →
      after.putRoom stored = c.putRoom stored

variable {request : ModerateRequest}

theorem ModerateRequest.marks_remove (hop : request.operation = .remove)
    (h : room.members.get? request.target = none ∨ request.target ∈ room.blocked) :
    request.Marks room (insert request.target room.blocked) (room.muted.erase request.target) := by
  simpa only [Marks, hop, true_and] using h

theorem wp_evictTarget (hroom : c.rooms.get? room.roomId = some room)
    (hop : request.operation = .remove) (hid : request.roomId = room.roomId)
    (hauth : request.Authorized env session room)
    (hcapped : Capped maxBlocked room.blocked (insert request.target room.blocked))
    (hstored : st.toRegistry = c.putRoom (room.withBlocked (insert request.target room.blocked))) :
    wp (evictTarget setup request (room.withBlocked (insert request.target room.blocked))) env st
      (fun result st' => Moderated setup env session request c st'.toRegistry result.1)
      (fun _ st' => Effects setup env (.moderate session request) c st'.toRegistry) := by
  have hother : request.target ≠ room.initiatorId := hauth.1 ▸ hauth.2.2.2
  have hmuted : ∀ muted : Finset ParticipantId, Capped maxMuted muted (muted.erase request.target) :=
    fun _ => .inl (Finset.erase_subset ..)
  unfold evictTarget
  cases hmember : room.members.get? request.target with
  | none =>
    rw [show (room.withBlocked (insert request.target room.blocked)).members.get? request.target = none
      from hmember]
    refine ⟨c, room, _, _, .refl, hroom, hid, request.marks_remove hop (.inl hmember),
      ⟨hother, hcapped, hmuted _⟩, rfl, ?_, fun stored hid' => ?_⟩
    · rw [hstored]
      rfl
    · rw [hstored]
      exact putRoom_putRoom c hid'
  | some member =>
    rw [show (room.withBlocked (insert request.target room.blocked)).members.get? request.target =
      some member from hmember]
    simp only [wp_do]
    have hremoves : ∀ (c : Registry) (room' : Room), room'.roomId = room.roomId →
        room'.members = room.members → request.Authorized env session room' →
        Operation.Removes (.moderate session request) env c room' member.session :=
      fun _ room' hid' hm ha => ⟨hop, hid.trans hid'.symm, ha, member, by rw [hm]; exact hmember, rfl⟩
    -- a room whose target is blocked and that is the registry's current one
    have hdone : ∀ (c' : Registry) (base : Room),
        Effects setup env (.moderate session request) c c' → c'.rooms.get? base.roomId = some base →
        base.roomId = room.roomId → base.initiatorId = room.initiatorId →
        request.target ∈ base.blocked → Moderated setup env session request c c'
          (base.withMuted (base.muted.erase request.target)) := by
      intro c' base hreach hbase hid' hinitiator hblocked
      refine ⟨c', base, _, _, hreach, hbase, hid.trans hid'.symm,
        request.marks_remove hop (.inr hblocked),
        ⟨by rw [hinitiator]; exact hother, capped_insert (.inr hblocked), hmuted _⟩, ?_, rfl,
        fun _ _ => rfl⟩
      rw [Finset.insert_eq_of_mem hblocked]
      rfl
    by_cases huser : (env.sessions member.session).authenticatedUser = some request.target
    · refine wp_removeAndClear .refl hroom (.inr hstored) (hremoves _ _ rfl rfl hauth)
        (fun p hp => .inr ⟨session, request, rfl, ?_⟩) (fun hun => absurd rfl (hun _ _ huser hmember))
        fun p screen st₂ hp h₂ hreach => ?_
      · rw [huser, Option.some.injEq] at hp
        exact ⟨hp, by rw [hp], hcapped⟩
      · refine hdone st₂.toRegistry _ hreach ?_ rfl rfl (Finset.mem_insert_self ..)
        rw [h₂]
        exact Dict.get?_set_self ..
    · have hblocked : Effect setup env (.moderate session request) c st.toRegistry := by
        rw [hstored]
        exact .blocked hroom hop hid hauth hmember huser
      have hcurrent : st.rooms.get? room.roomId =
          some (room.withBlocked (insert request.target room.blocked)) := by
        rw [hstored]
        exact Dict.get?_set_self ..
      change wp (removeMemberLocked setup member.session
        ((room.withBlocked (insert request.target room.blocked)).withBlocked _)) env st _ _
      refine wp_removeAndClear (.single hblocked) hcurrent (.inl rfl) (hremoves _ _ rfl rfl hauth)
        (fun _ _ => .inl rfl) (fun hun => ?_) fun p screen st₂ _ h₂ hreach => ?_
      · have hclears : (Operation.moderate session request).Clears env st.toRegistry member.session :=
          .inr ⟨room.withBlocked (insert request.target room.blocked), hcurrent,
            hremoves _ _ rfl rfl hauth, hun⟩
        refine ⟨.single hblocked, hclears, fun st₂ h₂ => ?_⟩
        refine hdone st₂.toRegistry _ (.cleared _ (.single hblocked) hclears h₂) ?_ rfl rfl
          (Finset.mem_insert_self ..)
        rw [h₂]
        exact hcurrent
      · refine hdone st₂.toRegistry _ hreach ?_ rfl rfl (Finset.mem_insert_self ..)
        rw [h₂]
        exact Dict.get?_set_self ..

theorem wp_moderateRoom (hroom : st.rooms.get? room.roomId = some room)
    (hid : request.roomId = room.roomId) (hauth : request.Authorized env session room) :
    wp (moderateRoom setup request room) env st
      (fun result st' => Moderated setup env session request st.toRegistry st'.toRegistry result.1)
      (fun _ st' => Effects setup env (.moderate session request) st.toRegistry st'.toRegistry) := by
  have hsame : ∀ blocked muted, request.Marks room blocked muted →
      Capped maxBlocked room.blocked blocked → Capped maxMuted room.muted muted →
      Moderated setup env session request st.toRegistry st.toRegistry
        ((room.withBlocked blocked).withMuted muted) :=
    fun blocked muted hmarks hblocked hmuted => ⟨st.toRegistry, room, blocked, muted, .refl, hroom, hid,
      hmarks, ⟨hauth.1 ▸ hauth.2.2.2, hblocked, hmuted⟩, rfl, rfl, fun _ _ => rfl⟩
  unfold moderateRoom
  cases hop : request.operation with
  | reAdmit =>
    exact hsame (room.blocked.erase request.target) room.muted (by simp [ModerateRequest.Marks, hop])
      (.inl (Finset.erase_subset ..)) (.inl subset_rfl)
  | mute =>
    simp only [wp_do, wp_ensure]
    refine ⟨fun _ => ⟨fun hlimit => ?_, fun _ => .refl⟩, fun _ => .refl⟩
    exact hsame room.blocked (insert request.target room.muted) (by simp [ModerateRequest.Marks, hop])
      (.inl subset_rfl) (capped_insert hlimit)
  | allowMic =>
    simp only [wp_do, wp_ensure]
    refine ⟨fun _ => ?_, fun _ => .refl⟩
    exact hsame room.blocked (room.muted.erase request.target) (by simp [ModerateRequest.Marks, hop])
      (.inl subset_rfl) (.inl (Finset.erase_subset ..))
  | remove =>
    simp only [wp_do, wp_ensure, putRoom]
    refine ⟨fun _ => ⟨fun hlimit => ?_, fun _ => .refl⟩, fun _ => .refl⟩
    exact wp_evictTarget hroom hop hid hauth (capped_insert hlimit) rfl

/-- The checks of `moderate`: refused without a change, answered because the participant has left,
or carried out. -/
theorem wp_moderateLocked (hrefused : ∀ e, fail e st)
    (hleft : ∀ room, st.rooms.get? request.roomId = some room → request.Authorized env session room →
      request.operation ≠ .reAdmit →
      post { before := [(session, moderationResult request room false "PARTICIPANT_LEFT")], underLock := true }
        st)
    (hdone : ∀ room, st.rooms.get? request.roomId = some room → request.Authorized env session room →
      wp (moderateRoom setup request room) env st
        (fun result st' => wp (publishModeration setup session request result) env st' post fail) fail) :
    wp (moderateLocked setup session request) env st post fail := by
  unfold moderateLocked
  simp only [wp_do, wp_require, wp_ensure]
  refine ⟨fun room hroom => ⟨fun hactor => ⟨fun host hhost => ⟨fun hown => ⟨fun hlive =>
    ⟨fun htarget => ?_, fun _ => hrefused _⟩, fun _ => hrefused _⟩, fun _ => hrefused _⟩,
    fun _ => hrefused _⟩, fun _ => hrefused _⟩, fun _ => hrefused _⟩
  rw [wp_ite, wp_bind]
  have hauth : request.Authorized env session room := ⟨hactor, ⟨host, hhost, hown⟩, hlive, htarget⟩
  exact ⟨fun hcond => hleft room hroom hauth hcond.1, fun _ => hdone room hroom hauth⟩

theorem wp_publishModeration {result : Room × Option Member}
    (hpost : ∀ st', st'.toRegistry = { st.toRegistry.putRoom result.1.nextRevision with
        policies := published setup st.policies result.1.nextRevision } →
      post (moderationPlan session request result.1.nextRevision result.2) st')
    (hfail : ∀ st', Faulty env → st'.toRegistry = { st.toRegistry.putRoom result.1.nextRevision with
      policies := withdrawn setup st.policies result.1.roomId } → fail .osError st') :
    wp (publishModeration setup session request result) env st post fail := by
  simp only [publishModeration, putRoom, wp_do]
  exact wp_writePolicy (fun st' h => hpost st' h) fun st' hf h => hfail st' hf h

theorem moves_moderateLocked (hkeyed : st.toRegistry.Keyed) (session : SessionId)
    (request : ModerateRequest) :
    Moves setup env (.moderate session request) st (moderateLocked setup session request) := by
  refine wp_moderateLocked (fun _ => .refl) (fun _ _ _ _ => .refl) fun room hroom hauth => ?_
  have hid : room.roomId = request.roomId := hkeyed _ _ hroom
  rw [← hid] at hroom
  refine wp_mono (wp_moderateRoom hroom hid.symm hauth) (fun result st₁ hmoderated => ?_) fun _ _ h => h
  obtain ⟨c, base, blocked, muted, hreach, hbase, hid', hmarks, hallows, heq, hpolicies, hput⟩ :=
    hmoderated
  have hmarked : ∀ policies, Rewritten setup env c.policies result.1.nextRevision policies →
      Effects setup env (.moderate session request) st.toRegistry
        { st₁.toRegistry.putRoom result.1.nextRevision with policies } := by
    intro policies hrewritten
    rw [hput _ (by rw [heq]; rfl)]
    exact hreach.tail (.marked hbase hid' hmarks hallows (by rw [heq]) hrewritten)
  refine wp_publishModeration (fun st₂ h₂ => ?_) fun st₂ hf h₂ => ?_
  · rw [h₂]
    exact hmarked _ (.inl (by rw [← hpolicies]))
  · rw [h₂]
    exact hmarked _ (.inr ⟨hf, by rw [← hpolicies]; rfl⟩)

/-- Nothing but the screen of one room has changed. -/
def Screened (c : Registry) (room room' : Room) (st : CallState) : Prop :=
  (∃ screen, room' = room.withScreen screen) ∧
    (st.toRegistry = c ∧ room' = room ∨ st.toRegistry = c.putRoom room')

theorem Screened.store {room'' : Room} {st' : CallState} (h : Screened c room room' st)
    (hscreen : ∃ screen, room'' = room'.withScreen screen)
    (hstored : st'.toRegistry = st.toRegistry.putRoom room'') : Screened c room room'' st' := by
  obtain ⟨⟨screen, rfl⟩, hst⟩ := h
  obtain ⟨screen', rfl⟩ := hscreen
  refine ⟨⟨screen', rfl⟩, .inr ?_⟩
  rcases hst with ⟨hst, -⟩ | hst
  · rw [hstored, hst]
  · rw [hstored, hst]
    exact putRoom_putRoom c rfl

theorem Screened.moves (h : Screened c room room' st) (hroom : c.rooms.get? room.roomId = some room) :
    Effects setup env .screen c st.toRegistry := by
  obtain ⟨⟨screen, rfl⟩, ⟨h, -⟩ | h⟩ := h
  · exact .of_eq h
  · exact .one (.screened screen hroom) h

theorem wp_clearScreenLocked_screened {post : Room → CallState → Prop} (h : Screened c room room' st)
    (hpost : ∀ room'' st', Screened c room room'' st' → post room'' st') :
    wp (clearScreenLocked room') env st post fail :=
  wp_clearScreenLocked fun st' screen hst' => hpost _ st' (h.store ⟨screen, rfl⟩ hst')

variable {request : ScreenRequest}

theorem wp_renewLease {post : Room → CallState → Prop}
    (h : Screened c room room' st) (hpost : ∀ room'' st', Screened c room room'' st' → post room'' st') :
    wp (renewLease request room') env st post fail := by
  simp only [renewLease, putRoom, wp_do]
  refine wp_cancelTimer fun st₁ h₁ => wp_newTimer fun timer st₂ h₂ => wp_startTimer fun st₃ h₃ => ?_
  refine hpost _ st₃ (h.store ⟨⟨room'.screenOwner, room'.screenId, room'.screenRevision,
    env.monotonic + seconds screenLeaseSeconds, some timer⟩, rfl⟩ ?_)
  rw [h₃]
  simp only [h₂, h₁, Registry.putRoom]

theorem wp_applyScreen {post : Room × String → CallState → Prop}
    (h : Screened c room room' st)
    (hpost : ∀ result st', Screened c room result.1 st' → post result st') :
    wp (applyScreen request room') env st post fail := by
  unfold applyScreen
  cases request.action with
  | start =>
    simp only [wp_ite, wp_do, reserveScreen, putRoom]
    refine ⟨fun _ => wp_renewLease h fun _ st' h' => hpost _ st' h', fun _ => ⟨fun _ => ?_, fun _ => hpost _ st h⟩⟩
    exact wp_renewLease (h.store ⟨⟨request.participantId, request.shareId, room'.screenRevision + 1,
      room'.screenExpiresAt, room'.screenTimer⟩, rfl⟩ rfl) fun _ st' h' => hpost _ st' h'
  | stop =>
    simp only [wp_ite, wp_do]
    exact ⟨fun _ => wp_clearScreenLocked_screened h fun _ st' h' => hpost _ st' h', fun _ => hpost _ st h⟩
  | renew =>
    simp only [wp_ite, wp_do]
    exact ⟨fun _ => wp_renewLease h fun _ st' h' => hpost _ st' h', fun _ => hpost _ st h⟩

theorem wp_screenControlLocked
    (hrefused : ∀ e, fail e st)
    (hpost : ∀ room member result st', st.rooms.get? request.roomId = some room →
      room.members.get? request.participantId = some member → member.session = session →
      Screened st.toRegistry room result.1 st' →
      post (screenPlan session request room.screenRevision result) st') :
    wp (screenControlLocked session request) env st post fail := by
  unfold screenControlLocked
  simp only [wp_do, wp_require, wp_ensure]
  refine ⟨fun room hroom => ⟨fun member hmember => ⟨fun hown => ⟨fun _ => ?_, fun _ => hrefused _⟩,
    fun _ => hrefused _⟩, fun _ => hrefused _⟩, fun _ => hrefused _⟩
  have hstart : Screened st.toRegistry room room st := ⟨⟨room.screen, rfl⟩, .inl ⟨rfl, rfl⟩⟩
  have happly : ∀ room' st', Screened st.toRegistry room room' st' →
      wp (applyScreen request room') env st'
        (fun result => post (screenPlan session request room.screenRevision result)) fail :=
    fun _ _ h => wp_applyScreen h fun result st'' h' => hpost room member result st'' hroom hmember hown h'
  simp only [lapseScreen, wp_do, wp_ite]
  exact ⟨fun _ => wp_clearScreenLocked_screened hstart happly, fun _ => happly room st hstart⟩

theorem moves_screenControlLocked (hkeyed : st.toRegistry.Keyed) (session : SessionId)
    (request : ScreenRequest) :
    Moves setup env .screen st (screenControlLocked session request) := by
  refine wp_screenControlLocked (fun _ => .refl) fun room _ result st' hroom _ _ h => h.moves ?_
  rw [hkeyed _ _ hroom]
  exact hroom

theorem moves_expireScreen (hkeyed : st.toRegistry.Keyed) (roomId : RoomId) (shareId : String) :
    Moves setup env .screen st (expireScreen roomId shareId) := by
  unfold Moves expireScreen
  simp only [wp_do]
  cases hroom : st.rooms.get? roomId with
  | none => exact .refl
  | some room =>
    simp only [wp_do, wp_ite]
    have hid : room.roomId = roomId := hkeyed _ _ hroom
    rw [← hid] at hroom
    exact ⟨fun _ => .refl, fun _ =>
      wp_clearScreenLocked fun st₁ screen h₁ => .one (.screened screen hroom) h₁⟩

theorem moves_expireRoom (hkeyed : st.toRegistry.Keyed) (roomId : RoomId) :
    Moves setup env (.expire roomId) st (expireRoom setup roomId) := by
  unfold Moves expireRoom
  simp only [wp_do]
  cases hroom : st.rooms.get? roomId with
  | none => exact .refl
  | some room =>
    simp only [wp_do]
    have hid : room.roomId = roomId := hkeyed _ _ hroom
    rw [← hid] at hroom
    exact wp_endRoomLocked
      (fun st₁ h₁ => .one (.ended hroom hid.symm List.prefix_rfl (.inl rfl)) h₁)
      fun sessions st₁ hf hpre h₁ => .one (.ended hroom hid.symm hpre (.inr hf)) h₁

end Rules

end CallBackend.Call
