import CallBackend.Call.Broadcast
import CallBackend.Call.Departure

/-!
# Who is told about a room

The contents of a payload and its recipients are computed under the lock and sent after it is
released. Everything that shows the members of a room or its screen share goes to sessions of
members, in every run. The result of a moderation, which lists the removed participants, and the
right to hand out group keys are tied to the initiator's membership instead, and that membership is
the creator's session only as long as nobody removes it: `_remove_member_locked` looks for the
participant its session is authenticated as, so a creator who is in the room twice and removes the
other participant removes the initiator.
-/

namespace CallBackend.Call

open Exec

def Registry.Admits (c : Registry) (roomId : RoomId) (session : SessionId) : Prop :=
  ∃ p member, c.Holds roomId p member ∧ member.session = session

def Registry.HostedBy (c : Registry) (roomId : RoomId) (session : SessionId) : Prop :=
  ∃ p member, c.Leads roomId p ∧ c.Holds roomId p member ∧ member.session = session

/-- The room that a payload for members only is about. -/
def Payload.memberRoom : Payload → Option RoomId
  | .callCreated _ snapshot => some snapshot.roomId
  | .callJoined _ snapshot => some snapshot.roomId
  | .callMembership snapshot => some snapshot.roomId
  | .callScreenState roomId _ => some roomId
  | .callScreenResult _ roomId _ _ _ => some roomId
  | .callGroupKey _ roomId _ _ _ _ _ _ => some roomId
  | _ => none

def Payload.moderatedRoom : Payload → Option RoomId
  | .callModerationResult _ roomId _ _ _ _ => some roomId
  | _ => none

/-- The message has these texts as members. -/
def Carries (message : Json) (fields : List (String × String)) : Prop :=
  ∀ field ∈ fields, message.get field.1 = .str field.2

/-- If the payload is a group key: a message from the host asks for it, the payload has the parts of
the message, and the member whom it names as target is sent the payload. -/
def Forwards (c : Registry) (action : Action) (s : Send) : Prop :=
  ∀ requestId roomId senderId targetId keyId nonce ciphertext signature,
    s.2 = .callGroupKey requestId roomId senderId targetId keyId nonce ciphertext signature →
    ∃ session message, action = .message session message ∧ c.HostedBy roomId session ∧
      (∃ member, c.Holds roomId targetId member ∧ member.session = s.1) ∧
      Carries message [("requestId", requestId), ("roomId", roomId), ("targetParticipantId", targetId),
        ("keyId", keyId), ("nonce", nonce), ("ciphertext", ciphertext), ("signature", signature)]

/-! ### Group key requests -/

theorem text?_eq_some {value : Json} {text : String} (h : value.text? = some text) :
    value = .str text := by
  cases value with
  | str s => exact congrArg Json.str (Option.some.inj h)
  | _ => cases h

theorem textField_ok {message : Json} {name error text : String} {pattern : String → Bool}
    (h : textField message name pattern error = .ok text) : message.get name = .str text := by
  unfold textField at h
  cases htext : (message.get name).text? with
  | none =>
    rw [htext] at h
    cases h
  | some found =>
    rw [htext] at h
    dsimp only at h
    split_ifs at h
    rw [← Except.ok.inj h]
    exact text?_eq_some htext

theorem decodeBase64url_ok {value : Json} {length : Option Nat} {decoded : Bytes}
    (h : decodeBase64url value length = .ok decoded) : value = .str (value.text?.getD "") := by
  unfold decodeBase64url at h
  cases htext : value.text? with
  | none =>
    rw [htext] at h
    cases h
  | some text => exact text?_eq_some htext

theorem GroupKeyRequest.parse_ok {session : SessionView} {message : Json} {request : GroupKeyRequest}
    (h : GroupKeyRequest.parse session message = .ok request) :
    Carries message [("requestId", request.requestId), ("roomId", request.roomId),
      ("targetParticipantId", request.targetId), ("keyId", request.keyId), ("nonce", request.nonce),
      ("ciphertext", request.ciphertext), ("signature", request.signature)] := by
  obtain ⟨senderId, -, h⟩ := except_bind_eq_ok.1 h
  obtain ⟨-, -, h⟩ := except_bind_eq_ok.1 h
  obtain ⟨requestId, hrequest, h⟩ := except_bind_eq_ok.1 h
  obtain ⟨roomId, hroom, h⟩ := except_bind_eq_ok.1 h
  obtain ⟨targetId, htarget, h⟩ := except_bind_eq_ok.1 h
  obtain ⟨keyId, hkey, h⟩ := except_bind_eq_ok.1 h
  obtain ⟨_, hnonce, h⟩ := except_bind_eq_ok.1 h
  obtain ⟨ciphertext, hciphertext, h⟩ := except_bind_eq_ok.1 h
  split_ifs at h
  · cases h
  obtain ⟨_, hsignature, h⟩ := except_bind_eq_ok.1 h
  rw [← Except.ok.inj h]
  intro field hfield
  simp only [List.mem_cons, List.not_mem_nil, or_false] at hfield
  rcases hfield with rfl | rfl | rfl | rfl | rfl | rfl | rfl
  · exact textField_ok hrequest
  · exact textField_ok hroom
  · exact textField_ok htarget
  · exact textField_ok hkey
  · exact decodeBase64url_ok hnonce
  · exact decodeBase64url_ok hciphertext
  · exact decodeBase64url_ok hsignature

/-! ### What the handlers send to single sessions -/

structure Discreet (c c' : Registry) (action : Action) (s : Send) : Prop where
  members : ∀ roomId, s.2.memberRoom = some roomId → c'.Admits roomId s.1
  moderation : ∀ roomId, s.2.moderatedRoom = some roomId → c.HostedBy roomId s.1
  groupKey : Forwards c action s

section Handlers

variable {setup : Setup} {env : CallEnv} {st : CallState} {action : Action} {c c' : Registry}

theorem discreet_of_none {s : Send} (hmembers : s.2.memberRoom = none)
    (hmoderation : s.2.moderatedRoom = none) : Discreet c c' action s := by
  refine ⟨fun roomId h => ?_, fun roomId h => ?_, fun _ _ _ _ _ _ _ _ h => ?_⟩
  · rw [hmembers] at h
    cases h
  · rw [hmoderation] at h
    cases h
  · rw [h] at hmembers
    cases hmembers

variable {session : SessionId} {room : Room}

theorem discreet_moderationResult {request : ModerateRequest} {accepted : Bool} {code : String}
    (hhost : c.HostedBy request.roomId session) :
    Discreet c c' action (session, moderationResult request room accepted code) := by
  refine ⟨fun _ h => (by cases h), fun roomId h => ?_, fun _ _ _ _ _ _ _ _ h => by cases h⟩
  cases h
  exact hhost

variable {payload : Payload}

theorem discreet_of_admits {roomId : RoomId}
    (hroom : payload.memberRoom = some roomId) (hmoderation : payload.moderatedRoom = none)
    (hkey : Forwards c action (session, payload)) (hadmits : c'.Admits roomId session) :
    Discreet c c' action (session, payload) := by
  refine ⟨fun roomId' h => ?_, fun roomId' h => ?_, hkey⟩
  · obtain rfl : roomId = roomId' := Option.some.inj (hroom.symm.trans h)
    exact hadmits
  · cases hmoderation.symm.trans h

theorem hostedBy_of_authorized {request : ModerateRequest}
    (hroom : c.rooms.get? request.roomId = some room) (hauth : request.Authorized env session room) :
    c.HostedBy request.roomId session := by
  obtain ⟨hactor, ⟨host, hhost, hown⟩, -⟩ := hauth
  exact ⟨request.actor, host, ⟨room, hroom, hactor.symm⟩, ⟨room, hroom, hhost⟩, hown⟩

def Payload.snapshot? : Payload → Option Snapshot
  | .callCreated _ snapshot => some snapshot
  | .callJoined _ snapshot => some snapshot
  | .callMembership snapshot => some snapshot
  | _ => none

/-- A snapshot in the payload is the one of a room that is there. -/
def Registry.Shown (c : Registry) (payload : Payload) : Prop :=
  ∀ snapshot, payload.snapshot? = some snapshot →
    ∃ room, c.rooms.get? room.roomId = some room ∧ snapshot = room.snapshot

structure Plan.Proper (c c' : Registry) (action : Action) (plan : Plan) : Prop where
  addressed : plan.Addressed c c'
  single : ∀ s ∈ plan.before ++ plan.after, Discreet c c' action s ∧ c'.Shown s.2

theorem shown_of_none (h : payload.snapshot? = none) : c.Shown payload := by
  intro snapshot hsome
  rw [h] at hsome
  cases hsome

theorem shown_of_room (hroom : c.rooms.get? room.roomId = some room)
    (h : payload.snapshot? = some room.snapshot) : c.Shown payload := by
  intro snapshot hsome
  exact ⟨room, hroom, Option.some.inj (hsome.symm.trans h)⟩

theorem proper_of_single {plan : Plan} (haddressed : plan.Addressed c c')
    (hsends : plan.before ++ plan.after = [(session, payload)])
    (hdiscreet : Discreet c c' action (session, payload)) (hshown : c'.Shown payload) :
    plan.Proper c c' action := by
  refine ⟨haddressed, fun s hs => ?_⟩
  rw [hsends] at hs
  obtain rfl := List.mem_singleton.1 hs
  exact ⟨hdiscreet, hshown⟩

theorem proper_of_silent {plan : Plan} (haddressed : plan.Addressed c c')
    (hsends : plan.before ++ plan.after = []) : plan.Proper c c' action := by
  refine ⟨haddressed, fun s hs => ?_⟩
  rw [hsends] at hs
  cases hs

def Delivers (action : Action) (env : CallEnv) (st : CallState) (m : CallM Plan) : Prop :=
  wp m env st (fun plan st' => plan.Proper st.toRegistry st'.toRegistry action) fun _ _ => True

theorem delivers_createLocked (session : SessionId) (request : CreateRequest) :
    Delivers action env st (createLocked setup session request) := by
  refine wp_createLocked (fun _ => trivial) fun timer room hroom _ _ _ =>
    ⟨fun st' h => ?_, fun _ _ _ => trivial, fun _ _ _ _ => trivial⟩
  have hstored : st'.rooms.get? room.roomId = some room := by
    rw [h]
    exact Dict.get?_set_self ..
  have hmember : room.members.get? request.initiatorId = some (request.member session) := by
    rw [hroom]
    exact Dict.get?_set_self ..
  exact proper_of_single trivial rfl
    (discreet_of_admits rfl rfl nofun ⟨_, _, ⟨room, hstored, hmember⟩, rfl⟩) (shown_of_room hstored rfl)

theorem delivers_joinLocked (hkeyed : st.toRegistry.Keyed) (session : SessionId) (request : JoinRequest) :
    Delivers action env st (joinLocked setup session request) := by
  refine wp_joinLocked hkeyed (fun _ => trivial)
    (fun _ => proper_of_single trivial rfl (discreet_of_none rfl rfl) (shown_of_none rfl))
    (proper_of_single trivial rfl (discreet_of_none rfl rfl) (shown_of_none rfl))
    fun room _ => ⟨fun st' h => ?_, fun _ _ _ => trivial, fun _ _ _ => trivial⟩
  have hstored : st'.rooms.get? (room.joined request session).roomId = some (room.joined request session) := by
    rw [h]
    exact Dict.get?_set_self ..
  have hmember : (room.joined request session).members.get? request.participantId =
      some (request.member session) := by
    obtain ⟨revision, hrevision⟩ := room.joined_eq request session
    rw [hrevision]
    exact Dict.get?_set_self ..
  refine proper_of_single ?_ rfl (discreet_of_admits rfl rfl nofun
    ⟨_, _, ⟨_, hstored, hmember⟩, rfl⟩) (shown_of_room hstored rfl)
  unfold Plan.Addressed joinPlan
  cases room.changedBy request session with
  | false => trivial
  | true => exact ⟨_, hstored, rfl, rfl⟩

theorem delivers_departLocked {participantId : Option ParticipantId} {reason : EndReason}
    (hroom : st.rooms.get? room.roomId = some room) :
    wp (departLocked setup session participantId room reason) env st
      (fun plan st' => plan.Addressed st.toRegistry st'.toRegistry ∧ plan.before ++ plan.after = [])
      fun _ _ => True := by
  unfold departLocked
  rw [wp_ite]
  simp only [wp_do]
  refine ⟨fun _ => wp_endRoomLocked (fun st₁ h₁ => ?_) fun _ _ _ _ _ => trivial, fun _ => ?_⟩
  · refine wp_clearSessionMetadata (fun st₂ h₂ => ⟨⟨room, hroom, ?_, rfl⟩, rfl⟩) fun _ _ _ => trivial
    rw [h₂, h₁]
    simp [Registry.forgetAll_rooms]
  · refine wp_removeMemberLocked (fun _ => wp_of_forall fun _ _ => ⟨trivial, rfl⟩)
      (fun p member screen st₁ _ _ _ h₁ => ?_) fun _ _ _ _ _ _ _ _ _ => trivial
    refine wp_clearSessionMetadata (fun st₂ h₂ => ⟨⟨room.depart p screen, ?_, rfl, rfl⟩, rfl⟩)
      fun _ _ _ => trivial
    rw [h₂, h₁]
    exact Dict.get?_set_self ..

theorem delivers_leaveLocked (hkeyed : st.toRegistry.Keyed) (session : SessionId) (request : LeaveRequest) :
    Delivers action env st (leaveLocked setup session request) := by
  unfold Delivers leaveLocked
  simp only [wp_do, wp_ensure, wp_require]
  refine ⟨fun _ => ⟨fun room hroom => ?_, fun _ => trivial⟩, fun _ => trivial⟩
  rw [← hkeyed _ _ hroom] at hroom
  refine wp_mono (delivers_departLocked hroom) (fun plan st' h => ?_) fun _ _ _ => trivial
  refine ⟨h.1, fun s hs => ?_⟩
  rw [(List.append_eq_nil_iff.1 h.2).2] at hs
  obtain rfl := List.mem_singleton.1 hs
  exact ⟨discreet_of_none rfl rfl, shown_of_none rfl⟩

theorem delivers_disconnected (hkeyed : st.toRegistry.Keyed) (session : SessionId) :
    Delivers action env st (disconnected setup session) := by
  unfold Delivers disconnected
  simp only [wp_do]
  cases hroom : (st.sessionRooms.get? session).bind st.rooms.get? with
  | none => exact proper_of_silent trivial rfl
  | some room =>
    obtain ⟨roomId, -, hroom⟩ := Option.bind_eq_some_iff.1 hroom
    rw [← hkeyed _ _ hroom] at hroom
    exact wp_mono (delivers_departLocked hroom) (fun _ _ h => proper_of_silent h.1 h.2) fun _ _ h => h

theorem delivers_expireScreen (hkeyed : st.toRegistry.Keyed) (roomId : RoomId) (shareId : String) :
    Delivers action env st (expireScreen roomId shareId) := by
  unfold Delivers expireScreen
  simp only [wp_do]
  cases hroom : st.rooms.get? roomId with
  | none => exact proper_of_silent trivial rfl
  | some room =>
    simp only [wp_do, wp_ite]
    refine ⟨fun _ => proper_of_silent trivial rfl, fun _ => wp_clearScreenLocked fun st₁ screen h₁ =>
      proper_of_silent ⟨room.withScreen screen, ?_, rfl, rfl⟩ rfl⟩
    rw [h₁, ← hkeyed _ _ hroom]
    exact Dict.get?_set_self ..

theorem delivers_expireRoom (hkeyed : st.toRegistry.Keyed) (roomId : RoomId) :
    Delivers action env st (expireRoom setup roomId) := by
  unfold Delivers expireRoom
  simp only [wp_do]
  cases hroom : st.rooms.get? roomId with
  | none => exact proper_of_silent trivial rfl
  | some room =>
    simp only [wp_do]
    refine wp_endRoomLocked (fun st₁ h₁ => proper_of_silent ⟨room, hroom, ?_, rfl⟩ rfl) fun _ _ _ _ _ => trivial
    rw [h₁, hkeyed _ _ hroom]
    simp [Registry.forgetAll_rooms]

theorem delivers_moderateLocked (session : SessionId) (request : ModerateRequest) :
    Delivers action env st (moderateLocked setup session request) := by
  refine wp_moderateLocked (fun _ => trivial) (fun room hroom hauth _ => ?_) fun room hroom hauth => ?_
  · exact proper_of_single trivial rfl (discreet_moderationResult (hostedBy_of_authorized hroom hauth))
      (shown_of_none rfl)
  · refine wp_of_forall fun result st₁ => wp_publishModeration (fun st₂ h₂ => ?_) fun _ _ _ => trivial
    refine ⟨⟨result.1.nextRevision, ?_, rfl, rfl⟩, fun s hs => ?_⟩
    · rw [h₂]
      exact Dict.get?_set_self ..
    · rcases List.mem_append.1 hs with hremoved | hresult
      · obtain ⟨member, -, rfl⟩ := List.mem_map.1 hremoved
        exact ⟨discreet_of_none rfl rfl, shown_of_none rfl⟩
      · obtain rfl := List.mem_singleton.1 hresult
        exact ⟨discreet_moderationResult (hostedBy_of_authorized hroom hauth), shown_of_none rfl⟩

theorem delivers_screenControlLocked (hkeyed : st.toRegistry.Keyed) (session : SessionId)
    (request : ScreenRequest) : Delivers action env st (screenControlLocked session request) := by
  refine wp_screenControlLocked (fun _ => trivial) fun room member result st' hroom hmember hown h => ?_
  obtain ⟨⟨screen, hscreen⟩, hstate⟩ := h
  have hstored : st'.rooms.get? request.roomId = some result.1 := by
    rcases hstate with ⟨hsame, hresult⟩ | hput
    · rw [hsame, hresult, hroom]
    · rw [hput, ← hkeyed _ _ hroom, hscreen]
      exact Dict.get?_set_self ..
  refine proper_of_single ?_ rfl (discreet_of_admits rfl rfl nofun
    ⟨request.participantId, member, ⟨result.1, hstored, hscreen ▸ hmember⟩, hown⟩) (shown_of_none rfl)
  unfold Plan.Addressed screenPlan
  dsimp only
  cases decide (result.1.screenRevision ≠ room.screenRevision) with
  | false => trivial
  | true => exact ⟨result.1, hstored, rfl, rfl⟩

theorem delivers_forwardGroupKey (session : SessionId) (message : Json) :
    Delivers (.message session message) env st (forwardGroupKey session message) := by
  unfold Delivers forwardGroupKey parsed
  simp only [wp_do, wp_lift, wp_require, wp_ensure]
  refine ⟨fun request hrequest => ⟨fun room hroom => ⟨fun hsender => ⟨fun sender hmember =>
    ⟨fun hown => ⟨fun target htarget => ?_, fun _ => trivial⟩, fun _ => trivial⟩, fun _ => trivial⟩,
    fun _ => trivial⟩, fun _ => trivial⟩, fun _ _ => trivial⟩
  have hholds : st.toRegistry.Holds request.roomId request.targetId target := ⟨room, hroom, htarget⟩
  refine proper_of_single trivial rfl (discreet_of_admits rfl rfl (fun _ _ _ _ _ _ _ _ h => ?_)
    ⟨request.targetId, target, hholds, rfl⟩) (shown_of_none rfl)
  cases h
  exact ⟨session, message, rfl, ⟨request.senderId, sender, ⟨room, hroom, hsender.symm⟩,
    ⟨room, hroom, hmember⟩, hown⟩, ⟨target, hholds, rfl⟩, GroupKeyRequest.parse_ok hrequest⟩

theorem delivers_parsed {α : Type} {parse : SessionView → Except Exn α} {m : α → CallM Plan}
    (h : ∀ request, Delivers action env st (m request)) :
    Delivers action env st (do let request ← parsed session parse; m request) := by
  unfold Delivers parsed
  simp only [wp_do, wp_lift]
  exact ⟨fun request _ => h request, fun _ _ => trivial⟩

theorem delivers_run (hkeyed : st.toRegistry.Keyed) (action : Action) :
    Delivers action env st (action.run setup) := by
  cases action with
  | message session content =>
    simp only [Action.run, dispatch]
    cases handlerFor content with
    | none => exact proper_of_silent trivial rfl
    | some handler =>
      cases handler with
      | create => exact delivers_parsed fun request => delivers_createLocked session request
      | join => exact delivers_parsed fun request => delivers_joinLocked hkeyed session request
      | leave => exact delivers_parsed fun request => delivers_leaveLocked hkeyed session request
      | groupKey => exact delivers_forwardGroupKey session content
      | moderate => exact delivers_parsed fun request => delivers_moderateLocked session request
      | screen => exact delivers_parsed fun request => delivers_screenControlLocked hkeyed session request
  | disconnected session => exact delivers_disconnected hkeyed session
  | expireRoom roomId => exact delivers_expireRoom hkeyed roomId
  | expireScreen roomId shareId => exact delivers_expireScreen hkeyed roomId shareId
  | changed session change => exact proper_of_silent trivial rfl
  | restart views metadata => exact proper_of_silent trivial rfl

end Handlers

/-! ### Runs -/

section Runs

variable {setup : Setup} {w : World} {event : Event} {raises : Nat → Option Exn} {s : Send}

theorem mem_reached {n : Nat} {sends : List Send} (h : s ∈ reached raises n sends) : s ∈ sends := by
  induction sends generalizing n with
  | nil => cases h
  | cons first rest ih =>
    rcases List.mem_cons.1 h with rfl | h
    · exact .head _
    · split_ifs at h
      · exact .tail _ (ih h)
      · cases h

theorem World.mem_attempts (h : s ∈ w.attempts setup event raises) :
    ∃ plan, w.outcome setup event = .ok plan ∧ s ∈ plan.sends := by
  cases houtcome : w.outcome setup event with
  | error e =>
    rw [World.attempts, houtcome] at h
    cases h
  | ok plan =>
    rw [World.attempts_of_ok houtcome] at h
    exact ⟨plan, rfl, mem_reached h⟩

/-- A broadcast is for members, and has nothing that is meant for the host alone. -/
theorem Plan.Addressed.discreet {c c' : Registry} {plan : Plan} {action : Action}
    (h : plan.Addressed c c') (hs : s ∈ plan.broadcast) : Discreet c c' action s := by
  have hadmits : ∀ roomId room, c'.rooms.get? roomId = some room → ∀ session ∈ room.sessions,
      c'.Admits roomId session := by
    intro roomId room hroom session hsession
    obtain ⟨member, hmember, rfl⟩ := List.mem_map.1 hsession
    obtain ⟨p, hp⟩ := (Dict.mem_values_iff _ _).1 hmember
    exact ⟨p, member, ⟨room, hroom, hp⟩, rfl⟩
  unfold Plan.broadcast at hs
  unfold Plan.Addressed at h
  split at h
  · rename_i hpayload
    rw [hpayload] at hs
    cases hs
  · rename_i snapshot hpayload
    obtain ⟨room, hroom, rfl, hrecipients⟩ := h
    rw [hpayload, hrecipients] at hs
    obtain ⟨session, hsession, rfl⟩ := List.mem_map.1 hs
    exact discreet_of_admits rfl rfl nofun (hadmits _ room hroom session hsession)
  · rename_i roomId screen hpayload
    obtain ⟨room, hroom, -, hrecipients⟩ := h
    rw [hpayload, hrecipients] at hs
    obtain ⟨session, hsession, rfl⟩ := List.mem_map.1 hs
    exact discreet_of_admits rfl rfl nofun (hadmits _ room hroom session hsession)
  · rename_i roomId reason hpayload
    rw [hpayload] at hs
    obtain ⟨session, -, rfl⟩ := List.mem_map.1 hs
    exact discreet_of_none rfl rfl
  · exact h.elim

/-- In every run, what an event leads to is sent to the right sessions and shows rooms as they are. -/
theorem proper_next (hreach : (service setup).Reachable System.anyStep w) {plan : Plan}
    (hplan : w.outcome setup event = .ok plan) :
    plan.Proper w.call.toRegistry (w.next setup event).call.toRegistry event.action := by
  rcases served rfl (delivers_run (reachable_covered hreach).keyed event.action) with
    ⟨plan', houtcome, hproper⟩ | ⟨e, houtcome, -⟩
  · rw [hplan, Except.ok.injEq] at houtcome
    exact houtcome ▸ hproper
  · rw [hplan] at houtcome
    cases houtcome

theorem discreet_next (hreach : (service setup).Reachable System.anyStep w)
    (hs : s ∈ w.attempts setup event raises) :
    Discreet w.call.toRegistry (w.next setup event).call.toRegistry event.action s := by
  obtain ⟨plan, hplan, hs⟩ := World.mem_attempts hs
  have hproper := proper_next hreach hplan
  by_cases hbroadcast : s ∈ plan.broadcast
  · exact hproper.addressed.discreet hbroadcast
  · refine (hproper.single s ?_).1
    simpa [Plan.sends, hbroadcast] using hs

theorem reachable_founded (hreach : (service setup).Reachable (SparesHost setup) w) :
    w.call.toRegistry.Founded w.creators := by
  suffices hall : w.call.toRegistry.Covered setup ∧ w.call.toRegistry.Founded w.creators from hall.2
  refine hreach.invariant (I := fun w => w.call.toRegistry.Covered setup ∧
    w.call.toRegistry.Founded w.creators) (fun w hw => ?_) fun w event w' hw hok hstep => ?_
  · rw [hw]
    exact ⟨covered_init setup, fun r p ⟨_, hroom, _⟩ => by cases hroom⟩
  · rw [hstep]
    exact ⟨covered_next event hw.1, founded_next hw.1.keyed hw.2 hok⟩

theorem Registry.Founded.creator {c : Registry} {creators : RoomId → Option SessionId}
    {roomId : RoomId} {session : SessionId} (h : c.Founded creators) (hhost : c.HostedBy roomId session) :
    creators roomId = some session := by
  obtain ⟨p, member, hleads, ⟨room, hroom, hmember⟩, rfl⟩ := hhost
  obtain ⟨member', ⟨room', hroom', hmember'⟩, hcreator⟩ := h roomId p hleads
  obtain rfl : room' = room := Option.some.inj (hroom'.symm.trans hroom)
  obtain rfl : member' = member := Option.some.inj (hmember'.symm.trans hmember)
  exact hcreator

/-- In every run, what is sent about a room for its members goes to sessions of its members, and a
group key goes to the member its request names, with the parts of the request. If moreover no
creator has removed a participant of the creator's own session, then only the session that created
the room is sent the results of moderations, and has group keys delivered. -/
theorem room_information_private (hreach : (service setup).Reachable System.anyStep w)
    (raises : Nat → Option Exn) {s : Send} (hs : s ∈ w.attempts setup event raises) :
    (∀ roomId, s.2.memberRoom = some roomId →
      (w.next setup event).call.toRegistry.Admits roomId s.1) ∧
    Forwards w.call.toRegistry event.action s ∧
    ((service setup).Reachable (SparesHost setup) w →
      (∀ roomId, s.2.moderatedRoom = some roomId → w.creators roomId = some s.1) ∧
      ∀ requestId roomId senderId targetId keyId nonce ciphertext signature,
        s.2 = .callGroupKey requestId roomId senderId targetId keyId nonce ciphertext signature →
        ∃ session message, event.action = .message session message ∧
          w.creators roomId = some session) := by
  have hdiscreet := discreet_next hreach hs
  refine ⟨hdiscreet.members, hdiscreet.groupKey, fun hspared => ?_⟩
  have hfounded := reachable_founded hspared
  refine ⟨fun roomId h => hfounded.creator (hdiscreet.moderation roomId h), ?_⟩
  intro requestId roomId senderId targetId keyId nonce ciphertext signature h
  obtain ⟨session, message, haction, hhost, -⟩ := hdiscreet.groupKey _ _ _ _ _ _ _ _ h
  exact ⟨session, message, haction, hfounded.creator hhost⟩

end Runs

open Sample in
theorem room_information_private_removal :
    let w := World.after setup {} (opening ++ joining)
    ∃ s ∈ w.attempts setup (remove "host" "bob") fun _ => none,
      s.2.moderatedRoom = some "room" ∧ w.creators "room" = some s.1 := by
  intro w
  have hsent : ((w.attempts setup (remove "host" "bob") fun _ => none).any fun s =>
      s.2.moderatedRoom = some "room") = true := by decide +kernel
  obtain ⟨s, hs, hroom⟩ := List.any_eq_true.1 hsent
  have hspared : (service setup).Reachable (SparesHost setup) w :=
    reachable_after_of_meets (.init rfl) ⟨(cleanly_changed rfl).sparesHost, (cleanly_changed rfl).sparesHost,
      (cleanly_message rfl (by decide) (by decide)).sparesHost, (cleanly_changed rfl).sparesHost,
      (cleanly_changed rfl).sparesHost, (cleanly_message rfl (by decide) (by decide)).sparesHost, trivial⟩
  have hprivate := room_information_private (reachable_after (.init rfl) _) (fun _ => none) hs
  exact ⟨s, hs, of_decide_eq_true hroom, (hprivate.2.2 hspared).1 "room" (of_decide_eq_true hroom)⟩

namespace Sample

/-- Alice opens a call, joins it as Bob in the same session, and as Alice removes Bob. -/
def removingOneself : List Event :=
  opening ++ [authenticated "host" "bob", join "host", authenticated "host" "alice", remove "host" "bob"]

/-- The account of Alice joins in another session. -/
def rejoining : List Event := [opened "other", authenticated "other" "alice", join "other"]

end Sample

open Sample in
/-- The divergence: the removal has taken the initiator's membership away, and a session that did not
create the room takes it over and is sent the removed participants. -/
theorem successor_sees_removed :
    let w := World.after setup {} (removingOneself ++ rejoining)
    (service setup).Reachable System.anyStep w ∧ w.creators "room" = some "host" ∧
      ∃ s ∈ w.attempts setup (remove "other" "bob") fun _ => none,
        s.2.moderatedRoom = some "room" ∧ s.1 = "other" := by
  intro w
  have hsent : ((w.attempts setup (remove "other" "bob") fun _ => none).any fun s =>
      s.2.moderatedRoom = some "room" ∧ s.1 = "other") = true := by decide +kernel
  obtain ⟨s, hs, hroom⟩ := List.any_eq_true.1 hsent
  exact ⟨reachable_after (.init rfl) _, by decide +kernel, s, hs, of_decide_eq_true hroom⟩

end CallBackend.Call
