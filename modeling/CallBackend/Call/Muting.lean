import CallBackend.Call.Removal
import CallBackend.Call.Revision

/-!
# A mute by the host

The muted participants of a room are kept apart from its members, so a mute outlives the membership
of its target: they may leave, be disconnected and come back in another session. Only the host can
lift it, by allowing the microphone or by removing the participant.
-/

namespace CallBackend.Call

open Exec

/-- A request that takes the participant out of the muted ones of the room. -/
def ModerateRequest.Unmutes (request : ModerateRequest) (roomId : RoomId) (p : ParticipantId) : Prop :=
  (request.operation = .allowMic ∨ request.operation = .remove) ∧ request.roomId = roomId ∧ request.target = p

/-- If the room exists, the participant is muted there. -/
def Registry.Mutes (c : Registry) (roomId : RoomId) (p : ParticipantId) : Prop :=
  ∀ room, c.rooms.get? roomId = some room → p ∈ room.muted

section Effects

variable {setup : Setup} {env : CallEnv} {op : Operation} {c c' : Registry} {session : SessionId}
  {roomId : RoomId} {p : ParticipantId} {room : Room} {request : ModerateRequest}

theorem ModerateRequest.Marks.muted {blocked muted : Finset ParticipantId}
    (hmarks : request.Marks room blocked muted) (hunmutes : ¬request.Unmutes room.roomId p)
    (hid : request.roomId = room.roomId) (hp : p ∈ room.muted) : p ∈ muted := by
  have herase : request.operation = .allowMic ∨ request.operation = .remove →
      p ∈ room.muted.erase request.target := by
    intro hop
    exact Finset.mem_erase_of_ne_of_mem (fun htarget => hunmutes ⟨hop, hid, htarget.symm⟩) hp
  unfold Marks at hmarks
  split at hmarks <;> rename_i hop
  · exact hmarks.2 ▸ hp
  · exact hmarks.2.1 ▸ herase (.inr hop)
  · exact hmarks.2 ▸ Finset.mem_insert_of_mem hp
  · exact hmarks.2 ▸ herase (.inl hop)

/-- The room keeps its id, and the participant muted if it is the one of `roomId`. -/
def Room.KeepsMute (roomId : RoomId) (p : ParticipantId) (room room' : Room) : Prop :=
  room'.roomId = room.roomId ∧ (room.roomId = roomId → p ∈ room.muted → p ∈ room'.muted)

theorem Room.KeepsMute.of_muted {room' : Room} (hid : room'.roomId = room.roomId)
    (hmuted : room'.muted = room.muted) : room.KeepsMute roomId p room' :=
  ⟨hid, fun _ hp => hmuted ▸ hp⟩

theorem Effect.mutes (he : Effect setup env op c c') (hcreate : ∀ s request, op ≠ .create s request)
    (hunmutes : ∀ host request, op = .moderate host request → ¬request.Unmutes roomId p) :
    c.Evolves (Room.KeepsMute roomId p) c' := by
  have hrefl : ∀ room : Room, room.KeepsMute roomId p room := fun _ => .of_muted rfl rfl
  cases he with
  | opened => exact absurd rfl (hcreate _ _)
  | abandoned => exact absurd rfl (hcreate _ _)
  | joined hadmission => exact .store hrefl hadmission.current rfl rfl (.of_muted rfl rfl)
  | removed hremoval =>
    obtain ⟨_, _, -, rfl⟩ := hremoval.after
    exact .store hrefl hremoval.current rfl rfl (.of_muted rfl rfl)
  | removalFailed hremoval =>
    obtain ⟨_, _, -, rfl⟩ := hremoval.after
    exact .store hrefl hremoval.current rfl rfl (.of_muted rfl rfl)
  | cleared => exact fun _ room h => ⟨room, h, hrefl room⟩
  | ended =>
    intro _ room hroom
    rw [Registry.forgetAll_rooms] at hroom
    exact ⟨room, (Dict.get?_erase_eq_some hroom).2, hrefl room⟩
  | blocked hroom => exact .store hrefl hroom rfl rfl (.of_muted rfl rfl)
  | marked hroom hid hmarks _ heq =>
    subst heq
    exact .store hrefl hroom rfl rfl
      ⟨rfl, fun hroomId hp => hmarks.muted (hroomId ▸ hunmutes _ _ rfl) hid hp⟩
  | screened screen hroom => exact .store hrefl hroom rfl rfl (.of_muted rfl rfl)

theorem Effects.mutes (he : Effects setup env op c c') (hkeyed : c.Keyed) (h : c.Mutes roomId p)
    (hcreate : ∀ s request, op ≠ .create s request)
    (hunmutes : ∀ host request, op = .moderate host request → ¬request.Unmutes roomId p) :
    c'.Mutes roomId p := by
  have hevolves : c.Evolves (Room.KeepsMute roomId p) c' := by
    induction he with
    | refl => exact fun _ room hroom => ⟨room, hroom, .of_muted rfl rfl⟩
    | tail _ heffect ih =>
      refine Registry.Evolves.trans (fun _ _ _ hr hr' => ?_) ih (heffect.mutes hcreate hunmutes)
      exact ⟨hr'.1.trans hr.1, fun hid hp => hr'.2 (hr.1.trans hid) (hr.2 hid hp)⟩
  intro room' hroom'
  obtain ⟨room, hroom, -, hmuted⟩ := hevolves roomId room' hroom'
  exact hmuted (hkeyed _ _ hroom) (h room hroom)

theorem wp_moderateLocked_mute {st : CallState} (hkeyed : st.toRegistry.Keyed)
    (hop : request.operation = .mute) :
    wp (moderateLocked setup session request) env st
      (fun plan st' => plan.moderationAccepted = true → st'.toRegistry.Mutes request.roomId request.target)
      (fun _ _ => True) := by
  refine wp_moderateLocked (fun _ => trivial) (fun _ _ _ _ h => by cases h) fun room hroom _ => ?_
  simp only [moderateRoom, hop, wp_do, wp_ensure]
  refine ⟨fun _ => ⟨fun _ => ?_, fun _ => trivial⟩, fun _ => trivial⟩
  refine wp_publishModeration (fun st' h' _ room' hroom' => ?_) fun _ _ _ => trivial
  rw [h', ← hkeyed _ _ hroom] at hroom'
  rw [← Option.some.inj ((Dict.get?_set_self ..).symm.trans hroom')]
  exact Finset.mem_insert_self ..

/-- Only the host can change something by a moderation. -/
theorem wp_moderateLocked_host {st : CallState} :
    let post := fun st' : CallState => st'.toRegistry = st.toRegistry ∨
      ∃ room, st.rooms.get? request.roomId = some room ∧ request.Authorized env session room
    wp (moderateLocked setup session request) env st (fun _ => post) fun _ => post := by
  refine wp_moderateLocked (fun _ => .inl rfl) (fun _ _ _ _ => .inl rfl) fun room hroom hauth => ?_
  have hhost : ∃ room, st.rooms.get? request.roomId = some room ∧ request.Authorized env session room :=
    ⟨room, hroom, hauth⟩
  exact wp_mono (wp_true _) (fun _ _ _ => wp_mono (wp_true _) (fun _ _ _ => .inr hhost) fun _ _ _ => .inr hhost)
    fun _ _ _ => .inr hhost

end Effects

/-! ### Runs -/

/-- The room exists, and its host asks neither to allow the participant's microphone nor to remove
them. -/
def StillMuted (setup : Setup) (roomId : RoomId) (p : ParticipantId) (w : World) (event : Event) : Prop :=
  w.call.rooms.get? roomId ≠ none ∧
    ∀ host request room, event.action.operation setup w.views = some (.moderate host request) →
      w.call.rooms.get? request.roomId = some room → request.Authorized (w.env event) host room →
      ¬request.Unmutes roomId p

section Runs

variable {setup : Setup} {w : World} {event : Event} {roomId : RoomId} {p : ParticipantId}

theorem mutes_next (hkeyed : w.call.toRegistry.Keyed) (h : w.call.toRegistry.Mutes roomId p)
    (hstill : StillMuted setup roomId p w event) :
    (w.next setup event).call.toRegistry.Mutes roomId p := by
  rcases next_registry hkeyed event with ⟨views, metadata, -, hcall⟩ | hsame | ⟨op, hop, heffects⟩
  · rw [hcall]
    exact fun _ hroom => by cases hroom
  · rwa [hsame]
  · cases op with
    | create session request =>
      obtain ⟨room, hroom⟩ := Option.ne_none_iff_exists'.1 hstill.1
      intro room' hroom'
      rw [← Option.some.inj ((heffects.create_same hroom).symm.trans hroom')]
      exact h room hroom
    | moderate host request =>
      by_cases hunmutes : request.Unmutes roomId p
      · have hor := served (run_moderate hop) wp_moderateLocked_host
        simp only [exists_and_right] at hor
        rcases hor.elim And.right And.right with hsame | ⟨room, hroom, hauth⟩
        · rwa [hsame]
        · exact absurd hunmutes (hstill.2 host request room hop hroom hauth)
      · refine heffects.mutes hkeyed h (fun _ _ heq => by cases heq) fun _ _ heq => ?_
        cases heq
        exact hunmutes
    | _ => exact heffects.mutes hkeyed h (fun _ _ heq => by cases heq) fun _ _ heq => by cases heq

/-- A mute cannot be evaded. In every run after the service has accepted the mute of a participant,
and while the room exists and its host does not lift the mute, the participant is muted in the room,
in every policy file that has them as a member and in every snapshot of the room, where they are
listed exactly if they are a member. -/
theorem host_mute_lasts {session : SessionId} {request : ModerateRequest} {w' : World}
    (hreach : (service setup).Reachable System.anyStep w)
    (hop : event.action.operation setup w.views = some (.moderate session request))
    (hmute : request.operation = .mute) (haccepted : ModerationAccepted setup w event)
    (hpath : (service setup).Path (StillMuted setup request.roomId request.target)
      (w.next setup event) w') :
    (∀ room, w'.call.rooms.get? request.roomId = some room → request.target ∈ room.muted ∧
      (request.target ∈ room.snapshot.mutedParticipantIds ↔
        ∃ member, room.members.get? request.target = some member)) ∧
    ∀ doc, w'.call.policies.get? request.roomId = some doc → ∀ sessionId,
      doc.members.get? request.target = some sessionId → request.target ∈ doc.muted := by
  have hmuted : (w.next setup event).call.toRegistry.Mutes request.roomId request.target := by
    obtain ⟨plan, hplan, haccepted⟩ := haccepted
    rcases served (run_moderate hop) (wp_moderateLocked_mute (reachable_covered hreach).keyed hmute) with
      ⟨plan', houtcome, h⟩ | ⟨e, houtcome, -⟩
    · rw [hplan, Except.ok.injEq] at houtcome
      exact h (houtcome ▸ haccepted)
    · rw [hplan] at houtcome
      cases houtcome
  have hrun : (service setup).Reachable System.anyStep w' ∧
      w'.call.toRegistry.Mutes request.roomId request.target := by
    induction hpath with
    | refl => exact ⟨.step hreach trivial rfl, hmuted⟩
    | step _ hok hstep ih =>
      rw [hstep]
      exact ⟨.step ih.1 trivial rfl, mutes_next (reachable_covered ih.1).keyed ih.2 hok⟩
  refine ⟨fun room hroom => ⟨hrun.2 room hroom, ?_⟩, fun doc hdoc sessionId hlisted => ?_⟩
  · exact (room.mem_mutedMembers _).trans (and_iff_right (hrun.2 room hroom))
  · obtain ⟨room, hroom, hcovered⟩ := (reachable_covered hrun.1).covered _ doc hdoc
    exact hcovered.muted _ sessionId hlisted (hrun.2 room hroom)

end Runs

/-! ### Bob is muted, leaves and comes back -/

def Sample.mute (session : SessionId) (target : ParticipantId) : Event :=
  { action := .message session (request "call_moderate"
      [("targetParticipantId", .str target), ("operation", .str "mute")]) }

theorem stillMuted_of_handler {setup : Setup} {w : World} {event : Event} {session : SessionId} {content : Json}
    {roomId : RoomId} {p : ParticipantId} (haction : event.action = .message session content)
    (hhandler : handlerFor content ≠ some .moderate) (hroom : (w.call.rooms.get? roomId).isSome) :
    StillMuted setup roomId p w event := by
  refine ⟨Option.isSome_iff_ne_none.1 hroom, fun host request room hop => ?_⟩
  rw [haction, Action.operation, requestedOperation] at hop
  split at hop <;> simp_all

open Sample in
theorem host_mute_lasts_bob :
    let w := World.after setup {} (opening ++ joining)
    let w' := (w.next setup (mute "host" "bob")).after setup
      [Sample.leave "guest", Sample.join "guest"]
    ∃ room, w'.call.rooms.get? "room" = some room ∧ "bob" ∈ room.muted := by
  intro w w'
  have hthere : (w'.call.rooms.get? "room").isSome := by decide +kernel
  obtain ⟨room, hroom⟩ := Option.isSome_iff_exists.1 hthere
  have hop : (mute "host" "bob").action.operation setup w.views =
      some (.moderate "host" ⟨"alice", "request-1", "room", "bob", .mute⟩) := by decide +kernel
  have haccepted : ((w.outcome setup (mute "host" "bob")).toOption.any
      Plan.moderationAccepted) = true := by decide +kernel
  have hleft : (service setup).Path (StillMuted setup "room" "bob")
      (w.next setup (mute "host" "bob"))
      ((w.next setup (mute "host" "bob")).next setup (Sample.leave "guest")) :=
    .step .refl (stillMuted_of_handler rfl (by decide) (by decide +kernel)) rfl
  have hback : (service setup).Path (StillMuted setup "room" "bob")
      (w.next setup (mute "host" "bob")) w' :=
    hleft.step (stillMuted_of_handler rfl (by decide) (by decide +kernel)) rfl
  exact ⟨room, hroom, ((host_mute_lasts (reachable_after (.init rfl) _) hop rfl
    (moderationAccepted_of_any haccepted) hback).1 room hroom).1⟩

end CallBackend.Call
