import CallBackend.Call.Broadcast

/-!
# What a refused join tells

A join request for a room that is gone or expired is answered with `call_join_rejected`, whose reason
is generic so that the answer does not tell whether the room exists. A request for a live room with
the wrong invitation raises instead, and the dispatcher only logs the exception. So the joining session
can tell the two apart: it is sent one payload in the first case and none in the second.
-/

namespace CallBackend.Call

open Exec

/-- The payloads the session is sent when the event is served, in order. -/
def World.payloadsTo (setup : Setup) (w : World) (event : Event) (raises : Nat → Option Exn)
    (session : SessionId) : List Payload :=
  ((w.attempts setup event raises).filter fun send => send.1 = session).map Prod.snd

def World.Unavailable (w : World) (now : Nanos) (roomId : RoomId) : Prop :=
  ∀ room, w.call.rooms.get? roomId = some room → room.expiresAtMs ≤ millis now

structure World.AgreeOutside (roomId : RoomId) (w w' : World) : Prop where
  views : w.views = w'.views
  rooms : ∀ other, other ≠ roomId → w.call.rooms.get? other = w'.call.rooms.get? other
  sessionRooms : w.call.sessionRooms = w'.call.sessionRooms
  callRoomId : w.call.callRoomId = w'.call.callRoomId
  policies : ∀ other, other ≠ roomId → w.call.policies.get? other = w'.call.policies.get? other

def unavailablePlan (session : SessionId) (request : JoinRequest) : Plan where
  before := [(session, .callJoinRejected request.requestId request.roomId "CALL_UNAVAILABLE")]
  underLock := true

section Joining

variable {setup : Setup} {env : CallEnv} {st : CallState} {w : World} {event : Event}
  {session : SessionId} {request : JoinRequest}

theorem joinLocked_unavailable (hfree : st.sessionRooms.get? session = none)
    (h : ∀ room, st.rooms.get? request.roomId = some room → room.expiresAtMs ≤ millis env.now) :
    joinLocked setup session request env st = (.ok (unavailablePlan session request), st) := by
  have hwp : wp (joinLocked setup session request) env st
      (fun plan st' => plan = unavailablePlan session request ∧ st' = st) (fun _ _ => False) := by
    unfold joinLocked
    simp only [wp_do, wp_ensure]
    refine ⟨fun _ => ?_, fun hbusy => hbusy (.inl hfree)⟩
    cases hroom : st.rooms.get? request.roomId with
    | none => exact ⟨rfl, rfl⟩
    | some room =>
      simp only [wp_ite]
      exact ⟨fun _ => ⟨rfl, rfl⟩, fun hlive => absurd (h room hroom) hlive⟩
  rcases hresult : joinLocked setup session request env st with ⟨result, st'⟩
  cases result with
  | ok plan =>
    obtain ⟨rfl, rfl⟩ := wp_ok hwp hresult
    rfl
  | error e => exact (wp_error hwp hresult).elim

theorem joinLocked_uninvited {room : Room} (hfree : st.sessionRooms.get? session = none)
    (hroom : st.rooms.get? request.roomId = some room) (hlive : ¬room.expiresAtMs ≤ millis env.now)
    (hhash : room.inviteTokenHash ≠ setup.sha256 request.inviteToken) :
    joinLocked setup session request env st = (.error (.valueError "invalid call invitation"), st) := by
  have hwp : wp (joinLocked setup session request) env st (fun _ _ => False)
      (fun e st' => e = .valueError "invalid call invitation" ∧ st' = st) := by
    unfold joinLocked
    simp only [wp_do, wp_ensure]
    refine ⟨fun _ => ?_, fun hbusy => absurd (.inl hfree) hbusy⟩
    simp only [hroom, wp_ite, wp_bind, wp_ensure]
    exact ⟨fun hexpired => hlive hexpired,
      fun _ => ⟨fun heq => absurd heq.symm hhash, fun _ => ⟨trivial, trivial⟩⟩⟩
  rcases hresult : joinLocked setup session request env st with ⟨result, st'⟩
  cases result with
  | ok plan => exact (wp_ok hwp hresult).elim
  | error e =>
    obtain ⟨rfl, rfl⟩ := wp_error hwp hresult
    rfl

theorem outcome_join {content : Json} (haction : event.action = .message session content)
    (hhandler : handlerFor content = some .join)
    (hparse : JoinRequest.parse setup (w.views session) content = .ok request) :
    w.outcome setup event = (joinLocked setup session request (w.env event) w.call).1 := by
  simp only [World.outcome, haction, Action.run, dispatch, hhandler]
  exact congrArg Prod.fst (bind_ok (parsed_eq hparse))

theorem payloadsTo_unavailable {raises : Nat → Option Exn}
    (h : w.outcome setup event = .ok (unavailablePlan session request)) :
    w.payloadsTo setup event raises session =
      [.callJoinRejected request.requestId request.roomId "CALL_UNAVAILABLE"] := by
  rw [World.payloadsTo, World.attempts_of_ok h]
  simp [Plan.sends, Plan.broadcast, unavailablePlan, reached]

theorem payloadsTo_error {raises : Nat → Option Exn} {e : Exn} (h : w.outcome setup event = .error e) :
    w.payloadsTo setup event raises session = [] := by
  simp [World.payloadsTo, World.attempts, h]

/-- Two worlds agree outside a room, which is unavailable in the first and has another invitation than
the request in the second: a session that is in no call is sent the same payloads in both exactly
when the room is expired in the second as well. -/
theorem join_tells_nothing_iff {w' : World} {content : Json} {room : Room} (raises : Nat → Option Exn)
    (hagree : w.AgreeOutside request.roomId w') (haction : event.action = .message session content)
    (hhandler : handlerFor content = some .join)
    (hparse : JoinRequest.parse setup (w.views session) content = .ok request)
    (hfree : w.call.sessionRooms.get? session = none)
    (hunavailable : w.Unavailable event.now request.roomId)
    (hroom : w'.call.rooms.get? request.roomId = some room)
    (hhash : room.inviteTokenHash ≠ setup.sha256 request.inviteToken) :
    w.payloadsTo setup event raises session = w'.payloadsTo setup event raises session ↔
      room.expiresAtMs ≤ millis event.now := by
  have hparse' : JoinRequest.parse setup (w'.views session) content = .ok request := by
    rw [← hagree.views]
    exact hparse
  have hfree' : w'.call.sessionRooms.get? session = none := by
    rw [← hagree.sessionRooms]
    exact hfree
  have hfirst : w.outcome setup event = .ok (unavailablePlan session request) := by
    have hjoin : joinLocked setup session request (w.env event) w.call = _ :=
      joinLocked_unavailable hfree hunavailable
    rw [outcome_join haction hhandler hparse, hjoin]
  rw [payloadsTo_unavailable hfirst]
  by_cases hexpired : room.expiresAtMs ≤ millis event.now
  · have hsecond : w'.outcome setup event = .ok (unavailablePlan session request) := by
      rw [outcome_join haction hhandler hparse', joinLocked_unavailable hfree']
      intro current hcurrent
      rw [hroom, Option.some.injEq] at hcurrent
      exact hcurrent ▸ hexpired
    rw [payloadsTo_unavailable hsecond]
    simp only [hexpired]
  · have hsecond : w'.outcome setup event = .error (.valueError "invalid call invitation") := by
      rw [outcome_join haction hhandler hparse', joinLocked_uninvited hfree' hroom hexpired hhash]
    rw [payloadsTo_error hsecond]
    simp [hexpired]

end Joining

namespace Sample

def createOther (session : SessionId) : Event :=
  { action := .message session (request "call_create" (("inviteTokenHash",
      .str "AQAAAAAAAAAAAAAAAAAAAAAAAAAAAAAAAAAAAAAAAAA") :: keys)) }

def hosted : World :=
  World.after setup {} [opened "host", authenticated "host" "alice", createOther "host",
    opened "guest", authenticated "guest" "bob"]

def unhosted : World := { hosted with
  call := { hosted.call with
    rooms := hosted.call.rooms.erase "room"
    policies := hosted.call.policies.erase "room" } }

theorem unhosted_agrees : unhosted.AgreeOutside "room" hosted where
  views := rfl
  rooms _ hne := Dict.get?_erase_of_ne _ (Ne.symm hne)
  sessionRooms := rfl
  callRoomId := rfl
  policies _ hne := Dict.get?_erase_of_ne _ (Ne.symm hne)

def bobRequest : JoinRequest := ⟨"bob", "request-1", "room", List.replicate 32 0, point, zeros⟩

def lateJoin : Event := { join "guest" with now := seconds maxCallSeconds }

end Sample

open Sample in
theorem join_tells_nothing_late :
    (hosted.call.rooms.get? "room").isSome ∧
    unhosted.payloadsTo setup lateJoin (fun _ => none) "guest" =
      hosted.payloadsTo setup lateJoin (fun _ => none) "guest" := by
  have hparse : (JoinRequest.parse setup (unhosted.views "guest")
      (request "call_join" (("inviteToken", .str zeros) :: keys))).toOption =
      some bobRequest := by decide +kernel
  have hfree : unhosted.call.sessionRooms.get? "guest" = none := by decide +kernel
  have hroom : (hosted.call.rooms.get? "room").any (fun room =>
      room.inviteTokenHash ≠ setup.sha256 bobRequest.inviteToken ∧
        room.expiresAtMs ≤ millis (seconds maxCallSeconds)) = true := by decide +kernel
  obtain ⟨room, hroom, hfacts⟩ := (Option.any_eq_true _ _).1 hroom
  obtain ⟨hhash, hexpired⟩ := of_decide_eq_true hfacts
  refine ⟨by rw [hroom]; rfl, ?_⟩
  refine (join_tells_nothing_iff _ unhosted_agrees rfl (by decide)
    (except_toOption_eq_some.1 hparse) hfree (fun gone hgone => ?_) hroom hhash).2 hexpired
  rw [show bobRequest.roomId = "room" from rfl, show unhosted.call.rooms.get? "room" = none
    from Dict.get?_erase_self ..] at hgone
  cases hgone

open Sample in
/-- The divergence: Bob is told that the room is unavailable when it does not exist, and nothing when
it exists and the invitation is wrong. -/
theorem join_tells_whether_room_exists :
    unhosted.AgreeOutside "room" hosted ∧
    unhosted.call.rooms.get? "room" = none ∧
    (∃ room, hosted.call.rooms.get? "room" = some room ∧
      room.inviteTokenHash ≠ setup.sha256 bobRequest.inviteToken) ∧
    unhosted.payloadsTo setup (Sample.join "guest") (fun _ => none) "guest" ≠
      hosted.payloadsTo setup (Sample.join "guest") (fun _ => none) "guest" := by
  have hroom : (hosted.call.rooms.get? "room").any (fun room =>
      room.inviteTokenHash ≠ setup.sha256 bobRequest.inviteToken) = true := by
    decide +kernel
  obtain ⟨room, hroom, hhash⟩ := (Option.any_eq_true _ _).1 hroom
  refine ⟨unhosted_agrees, Dict.get?_erase_self .., ⟨room, hroom, of_decide_eq_true hhash⟩, ?_⟩
  intro heq
  have hlengths : (unhosted.payloadsTo setup (Sample.join "guest") (fun _ => none)
      "guest").length = 1 ∧ (hosted.payloadsTo setup (Sample.join "guest") (fun _ => none)
      "guest").length = 0 := by decide +kernel
  rw [heq] at hlengths
  omega

end CallBackend.Call
