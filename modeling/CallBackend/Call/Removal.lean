import CallBackend.Call.Policy
import CallBackend.Call.Membership

/-!
# Removing a participant

The host removes a participant by address, and the service blocks that address; but the member is
deleted through the address its session has at that moment. When the two agree, a removed
participant stays out of the room and of its policy file until they are readmitted or the room ends.
When the session has proved another address in between, the removal is accepted and the participant
remains a member.
-/

namespace CallBackend.Call

open Exec

def Room.Disjoint (room : Room) : Prop := ∀ p ∈ room.blocked, room.members.get? p = none

/-- If the request removes a member, the member's session has the address that is removed. -/
def ModerateRequest.Matches (request : ModerateRequest) (env : CallEnv) (session : SessionId)
    (c : Registry) : Prop :=
  request.operation = .remove → ∀ room member, c.rooms.get? request.roomId = some room →
    request.Authorized env session room → room.members.get? request.target = some member →
    (env.sessions member.session).authenticatedUser = some request.target

/-- A step whose removals name the current address of the member's session, and whose readmissions
are written. -/
def Matched (setup : Setup) (w : World) (event : Event) : Prop :=
  ∀ session request, event.action.operation setup w.views = some (.moderate session request) →
    request.Matches (w.env event) session w.call.toRegistry ∧
      (request.operation = .reAdmit → ¬Faulty (w.env event))

section Effects

variable {setup : Setup} {env : CallEnv} {op : Operation} {c c' : Registry}
  {session : SessionId} {p : ParticipantId} {room room' : Room}

theorem Removal.disjoint (hremoval : Removal env op c session p room room') (h : room.Disjoint) :
    room'.Disjoint := by
  obtain ⟨blocked, screen, hblocks, rfl⟩ := hremoval.after
  intro q hq
  change (room.members.erase p).get? q = none
  rw [Dict.get?_erase]
  split_ifs with hpq
  · rfl
  · rcases hblocks with rfl | ⟨_, _, _, _, rfl, -⟩
    · exact h q hq
    · exact h q ((Finset.mem_insert.1 hq).resolve_left (Ne.symm hpq))

variable {request : ModerateRequest}

theorem ModerateRequest.Marks.disjoint {blocked muted : Finset ParticipantId}
    (hmarks : request.Marks room blocked muted) (h : room.Disjoint) :
    ((room.withBlocked blocked).withMuted muted).nextRevision.Disjoint := by
  intro q hq
  change q ∈ blocked at hq
  change room.members.get? q = none
  unfold Marks at hmarks
  split at hmarks
  · rw [hmarks.1] at hq
    exact h q (Finset.mem_of_mem_erase hq)
  · obtain ⟨rfl, -, htarget⟩ := hmarks
    rcases Finset.mem_insert.1 hq with rfl | hq
    · exact htarget.elim id (h _)
    · exact h q hq
  · exact h q (hmarks.1 ▸ hq)
  · exact h q (hmarks.1 ▸ hq)

theorem Effect.disjoint (he : Effect setup env op c c') (h : c.AllRooms Room.Disjoint)
    (hmatch : ∀ session request, op = .moderate session request → request.Matches env session c) :
    c'.AllRooms Room.Disjoint := by
  cases he with
  | opened hnew _ _ _ _ =>
    refine h.store rfl fun p hp => ?_
    rw [hnew] at hp
    cases hp
  | abandoned _ _ _ => exact h
  | @joined _ session request room revision _ hadmission _ =>
    refine h.store rfl fun p hp => ?_
    have hne : request.participantId ≠ p := fun heq => hadmission.unblocked (heq ▸ hp)
    exact (Dict.get?_set_of_ne _ _ hne).trans (h _ room hadmission.current p hp)
  | removed hremoval => exact h.store rfl (hremoval.disjoint (h _ _ hremoval.current))
  | removalFailed hremoval _ => exact h.store rfl (hremoval.disjoint (h _ _ hremoval.current))
  | cleared session _ => exact h
  | ended _ _ _ _ => exact h.erase (Registry.forgetAll_rooms ..)
  | blocked hroom hop hid hauth hmember huser =>
    rw [← hid] at hroom
    exact absurd (hmatch _ _ rfl hop _ _ hroom hauth hmember) huser
  | marked hroom _ hmarks _ heq _ =>
    refine h.store rfl ?_
    rw [heq]
    exact hmarks.disjoint (h _ _ hroom)
  | @screened _ room screen hroom =>
    have hold : room.Disjoint := h _ room hroom
    exact h.store rfl hold

theorem ModerateRequest.Matches.of_shrinks (h : request.Matches env session c) (hshrinks : c.Shrinks c') :
    request.Matches env session c' := by
  intro hop room' member hroom' hauth hmember
  obtain ⟨room, hroom, hmembers, hinitiator, hexpiry⟩ := hshrinks _ room' hroom'
  exact h hop room member hroom (hauth.of_shrunk hmembers hinitiator hexpiry) (hmembers _ _ hmember)

theorem Effects.disjoint (he : Effects setup env op c c') (h : c.AllRooms Room.Disjoint)
    (hmatch : ∀ session request, op = .moderate session request → request.Matches env session c) :
    c'.AllRooms Room.Disjoint := by
  suffices hboth : c'.AllRooms Room.Disjoint ∧
      ∀ session request, op = .moderate session request → request.Matches env session c' from hboth.1
  induction he with
  | refl => exact ⟨h, hmatch⟩
  | tail _ heffect ih =>
    refine ⟨heffect.disjoint ih.1 ih.2, fun session request hop => ?_⟩
    subst hop
    exact (ih.2 session request rfl).of_shrinks heffect.shrinks

/-! ### Blocked participants stay blocked -/

/-- If the room exists, it blocks the participant. -/
def Registry.Bars (c : Registry) (roomId : RoomId) (p : ParticipantId) : Prop :=
  ∀ room, c.rooms.get? roomId = some room → p ∈ room.blocked

def Operation.Readmits (op : Operation) (roomId : RoomId) (p : ParticipantId) : Prop :=
  ∃ session request, op = .moderate session request ∧ request.operation = .reAdmit ∧
    request.roomId = roomId ∧ request.target = p

variable {roomId : RoomId}

theorem Registry.Bars.store (h : c.Bars roomId p) (hroom : c.rooms.get? room.roomId = some room)
    (hrooms : c'.rooms = c.rooms.set room'.roomId room') (hid : room'.roomId = room.roomId)
    (hblocked : room.roomId = roomId → p ∈ room.blocked → p ∈ room'.blocked) : c'.Bars roomId p := by
  intro current hcurrent
  rw [hrooms, Dict.get?_set] at hcurrent
  split_ifs at hcurrent with heq
  · cases hcurrent
    have hsame : room.roomId = roomId := hid ▸ heq
    exact hblocked hsame (h room (hsame ▸ hroom))
  · exact h current hcurrent

theorem Removal.bars {q : ParticipantId} (hremoval : Removal env op c session q room room')
    (hrooms : c'.rooms = c.rooms.set room'.roomId room') (h : c.Bars roomId p) : c'.Bars roomId p := by
  obtain ⟨blocked, screen, hblocks, rfl⟩ := hremoval.after
  refine h.store hremoval.current hrooms rfl fun _ hp => ?_
  change p ∈ blocked
  rcases hblocks with rfl | ⟨_, _, _, _, rfl, -⟩
  · exact hp
  · exact Finset.mem_insert_of_mem hp

theorem Effect.bars (he : Effect setup env op c c') (h : c.Bars roomId p)
    (hreAdmit : ¬op.Readmits roomId p)
    (hexists : ∀ session request, op = .create session request → c.rooms.get? roomId ≠ none) :
    c'.Bars roomId p := by
  cases he with
  | @opened _ session request room timer _ hnew habsent _ _ _ =>
    intro current hcurrent
    change (c.rooms.set room.roomId room).get? roomId = some current at hcurrent
    rw [Dict.get?_set] at hcurrent
    split_ifs at hcurrent with heq
    · exact absurd (heq ▸ habsent) (hexists session request rfl)
    · exact h current hcurrent
  | abandoned _ _ _ => exact h
  | joined hadmission _ => exact h.store hadmission.current rfl rfl fun _ hp => hp
  | removed hremoval => exact hremoval.bars rfl h
  | removalFailed hremoval _ => exact hremoval.bars rfl h
  | cleared session _ => exact h
  | ended _ _ _ _ =>
    intro current hcurrent
    rw [Registry.forgetAll_rooms] at hcurrent
    exact h current (Dict.get?_erase_eq_some hcurrent).2
  | blocked hroom _ _ _ _ _ =>
    exact h.store hroom rfl rfl fun _ hp => Finset.mem_insert_of_mem hp
  | @marked _ host request room room' blocked muted _ hroom hid hmarks _ heq _ =>
    subst heq
    refine h.store hroom rfl rfl fun hsame hp => ?_
    change p ∈ blocked
    unfold ModerateRequest.Marks at hmarks
    split at hmarks
    · rename_i hop
      rw [hmarks.1]
      refine Finset.mem_erase_of_ne_of_mem (fun htarget => ?_) hp
      exact hreAdmit ⟨host, request, rfl, hop, hid.trans hsame, htarget.symm⟩
    · rw [hmarks.1]
      exact Finset.mem_insert_of_mem hp
    · exact hmarks.1 ▸ hp
    · exact hmarks.1 ▸ hp
  | screened screen hroom => exact h.store hroom rfl rfl fun _ hp => hp

theorem Effects.bars (he : Effects setup env op c c') (h : c.Bars roomId p)
    (hreAdmit : ¬op.Readmits roomId p) (hexists : c.rooms.get? roomId ≠ none) :
    c'.Bars roomId p := by
  suffices hboth : c'.Bars roomId p ∧
      ∀ session request, op = .create session request → c'.rooms.get? roomId ≠ none from hboth.1
  induction he with
  | refl => exact ⟨h, fun _ _ _ => hexists⟩
  | tail _ heffect ih =>
    refine ⟨heffect.bars ih.1 hreAdmit ih.2, fun session request hop => ?_⟩
    subst hop
    exact heffect.create_keeps (ih.2 session request rfl)

/-! ### Accepted moderations -/

def Plan.moderationAccepted (plan : Plan) : Bool :=
  plan.after.any fun send => match send.2 with
    | .callModerationResult _ _ _ accepted _ _ => accepted
    | _ => false

theorem wp_moderateLocked_remove {st : CallState} (hkeyed : st.toRegistry.Keyed)
    (hop : request.operation = .remove) :
    wp (moderateLocked setup session request) env st
      (fun plan st' => plan.moderationAccepted = true →
        ∃ room, st'.rooms.get? request.roomId = some room ∧ request.target ∈ room.blocked)
      (fun _ _ => True) := by
  refine wp_moderateLocked (fun _ => trivial) (fun _ _ _ _ h => by cases h) fun room hroom hauth => ?_
  have hid : room.roomId = request.roomId := hkeyed _ _ hroom
  rw [← hid] at hroom
  refine wp_mono (wp_moderateRoom hroom hid.symm hauth) (fun result st₁ hmoderated => ?_)
    fun _ _ _ => trivial
  obtain ⟨c, base, blocked, muted, -, -, hid', hmarks, -, heq, -, -⟩ := hmoderated
  refine wp_publishModeration (fun st₂ h₂ _ => ⟨result.1.nextRevision, ?_, ?_⟩) fun _ _ _ => trivial
  · rw [h₂, heq, hid']
    exact Dict.get?_set_self ..
  · rw [heq]
    change request.target ∈ blocked
    simp only [ModerateRequest.Marks, hop] at hmarks
    rw [hmarks.1]
    exact Finset.mem_insert_self ..

/-- A readmission whose policy is written is accepted, or refused without a change. -/
theorem wp_moderateLocked_reAdmit {st : CallState} (hop : request.operation = .reAdmit)
    (hfault : ¬Faulty env) :
    wp (moderateLocked setup session request) env st
      (fun plan _ => plan.moderationAccepted = true) (fun _ st' => st'.toRegistry = st.toRegistry) := by
  refine wp_moderateLocked (fun _ => rfl) (fun _ _ _ hne => absurd hop hne) fun room _ _ => ?_
  simp only [moderateRoom, hop, wp_pure]
  refine wp_publishModeration (fun _ _ => ?_) fun _ hf _ => absurd hf hfault
  simp [Plan.moderationAccepted, moderationPlan, moderationResult]

end Effects

/-! ### Runs -/

section Runs

variable {setup : Setup} {w : World}

def ModerationAccepted (setup : Setup) (w : World) (event : Event) : Prop :=
  ∃ plan, w.outcome setup event = .ok plan ∧ plan.moderationAccepted = true

variable {event : Event}

theorem moderationAccepted_of_any
    (h : (w.outcome setup event).toOption.any Plan.moderationAccepted = true) :
    ModerationAccepted setup w event := by
  obtain ⟨plan, hplan, haccepted⟩ := (Option.any_eq_true _ _).1 h
  cases houtcome : w.outcome setup event with
  | error e => simp [houtcome, Except.toOption] at hplan
  | ok plan' =>
    obtain rfl : plan' = plan := by simpa [houtcome, Except.toOption] using hplan
    exact ⟨plan', houtcome, haccepted⟩

theorem disjoint_next (hkeyed : w.call.toRegistry.Keyed) (h : w.call.toRegistry.AllRooms Room.Disjoint)
    (hmatched : Matched setup w event) :
    (w.next setup event).call.toRegistry.AllRooms Room.Disjoint := by
  rcases next_registry hkeyed event with ⟨views, metadata, -, hcall⟩ | heq | ⟨op, hop, heffects⟩
  · rw [hcall]
    exact fun _ _ hroom => by cases hroom
  · rw [heq]
    exact h
  · exact heffects.disjoint h fun session request hmoderate => (hmatched session request (hmoderate ▸ hop)).1

theorem reachable_disjoint (h : (service setup).Reachable (Matched setup) w) :
    w.call.toRegistry.AllRooms Room.Disjoint := by
  refine (h.invariant (I := fun w => w.call.toRegistry.Covered setup ∧
    w.call.toRegistry.AllRooms Room.Disjoint) (fun w hw => ?_) fun w event w' hw hok hstep => ?_).2
  · rw [hw]
    exact ⟨covered_init setup, fun _ _ hroom => by cases hroom⟩
  · rw [hstep]
    exact ⟨covered_next event hw.1, disjoint_next hw.1.keyed hw.2 hok⟩

/-- A step that accepts no readmission of the participant and starts while the room exists leaves
them blocked. -/
theorem bars_next {roomId : RoomId} {p : ParticipantId} (hkeyed : w.call.toRegistry.Keyed)
    (h : w.call.toRegistry.Bars roomId p) (hexists : w.call.rooms.get? roomId ≠ none)
    (hmatched : Matched setup w event)
    (hnot : ¬∃ op, event.action.operation setup w.views = some op ∧ op.Readmits roomId p ∧
      ModerationAccepted setup w event) :
    (w.next setup event).call.toRegistry.Bars roomId p := by
  rcases next_registry hkeyed event with ⟨views, metadata, -, hcall⟩ | heq | ⟨op, hop, heffects⟩
  · rw [hcall]
    exact fun _ hroom => by cases hroom
  · rw [heq]
    exact h
  · by_cases hreadmits : op.Readmits roomId p
    · obtain ⟨session, request, rfl, hreAdmit, hid, htarget⟩ := hreadmits
      have hwritten : ¬Faulty (w.env event) := (hmatched session request hop).2 hreAdmit
      rcases served (run_moderate hop) (wp_moderateLocked_reAdmit hreAdmit hwritten) with
        ⟨plan, houtcome, haccepted⟩ | ⟨e, -, hcall⟩
      · exact absurd ⟨_, hop, ⟨session, request, rfl, hreAdmit, hid, htarget⟩, plan, houtcome,
          haccepted⟩ hnot
      · rw [hcall]
        exact h
    · exact heffects.bars h hreadmits hexists

/-- The steps of a run during which the participant stays removed: removals match, the room exists,
and no readmission of the participant is accepted. -/
def StillRemoved (setup : Setup) (roomId : RoomId) (p : ParticipantId) (w : World) (event : Event) :
    Prop :=
  Matched setup w event ∧ w.call.rooms.get? roomId ≠ none ∧
    ¬∃ op, event.action.operation setup w.views = some op ∧ op.Readmits roomId p ∧
      ModerationAccepted setup w event

/-- In every run whose removals match, once a removal has been accepted, and until a readmission is
accepted or the room ends, the participant is neither a member of the room nor in its policy file,
and no member of the room is blocked. -/
theorem removed_participant_stays_out {event : Event} {session : SessionId} {request : ModerateRequest}
    {w' : World} (hreach : (service setup).Reachable (Matched setup) w) (hmatched : Matched setup w event)
    (hop : event.action.operation setup w.views = some (.moderate session request))
    (hremove : request.operation = .remove) (haccepted : ModerationAccepted setup w event)
    (hpath : (service setup).Path (StillRemoved setup request.roomId request.target)
      (w.next setup event) w') :
    (∀ room, w'.call.rooms.get? request.roomId = some room →
      room.members.get? request.target = none ∧ ∀ p ∈ room.blocked, room.members.get? p = none) ∧
    ∀ doc, w'.call.policies.get? request.roomId = some doc → doc.members.get? request.target = none := by
  have hreach' : (service setup).Reachable (Matched setup) (w.next setup event) :=
    .step hreach hmatched rfl
  have hblocked : (w.next setup event).call.toRegistry.Bars request.roomId request.target := by
    obtain ⟨plan, hplan, haccepted⟩ := haccepted
    rcases served (run_moderate hop) (wp_moderateLocked_remove (reachable_covered hreach).keyed hremove) with
      ⟨plan', houtcome, h⟩ | ⟨e, houtcome, -⟩
    · rw [hplan, Except.ok.injEq] at houtcome
      obtain ⟨room, hroom, htarget⟩ := h (houtcome ▸ haccepted)
      intro room' hroom'
      rw [hroom, Option.some.injEq] at hroom'
      exact hroom' ▸ htarget
    · rw [hplan] at houtcome
      cases houtcome
  have hrun : (service setup).Reachable (Matched setup) w' ∧
      w'.call.toRegistry.Bars request.roomId request.target := by
    induction hpath with
    | refl => exact ⟨hreach', hblocked⟩
    | step _ hok hstep ih =>
      rw [hstep]
      exact ⟨.step ih.1 hok.1 rfl, bars_next (reachable_covered ih.1).keyed ih.2 hok.2.1 hok.1 hok.2.2⟩
  have hmembers : ∀ room, w'.call.rooms.get? request.roomId = some room →
      room.members.get? request.target = none ∧ ∀ p ∈ room.blocked, room.members.get? p = none :=
    fun room hroom => ⟨reachable_disjoint hrun.1 _ room hroom _ (hrun.2 room hroom),
      reachable_disjoint hrun.1 _ room hroom⟩
  refine ⟨hmembers, fun doc hdoc => ?_⟩
  obtain ⟨room, hroom, hcovered⟩ := (reachable_covered hrun.1).covered _ doc hdoc
  rw [Option.eq_none_iff_forall_not_mem]
  intro sessionId hlisted
  obtain ⟨member, hmember, -⟩ := hcovered.members _ sessionId hlisted
  rw [(hmembers room hroom).1] at hmember
  cases hmember

end Runs

/-! ### A removal that matches, and one that does not -/

theorem Sample.matched_of_handler {setup : Setup} {w : World} {session : SessionId} {content : Json}
    {event : Event} (haction : event.action = .message session content)
    (h : handlerFor content = some .create ∨ handlerFor content = some .join) : Matched setup w event := by
  intro host request hop
  rcases h with h | h <;> simp [haction, Action.operation, requestedOperation, h] at hop

theorem Sample.matched_of_changed {setup : Setup} {w : World} {session : SessionId}
    {change : SessionChange} {event : Event} (haction : event.action = .changed session change) :
    Matched setup w event := by
  intro host request hop
  simp [haction, Action.operation] at hop

open Sample in
theorem removed_participant_stays_out_bob :
    let w := World.after setup {} (opening ++ joining)
    ∀ room, (w.next setup (remove "host" "bob")).call.rooms.get? "room" = some room →
      room.members.get? "bob" = none := by
  intro w room hroom
  have hreach : (service setup).Reachable (Matched setup) w :=
    reachable_after_of_meets (.init rfl) ⟨matched_of_changed rfl, matched_of_changed rfl,
      matched_of_handler rfl (.inl (by decide)), matched_of_changed rfl,
      matched_of_changed rfl, matched_of_handler rfl (.inr (by decide)), trivial⟩
  have hop : (remove "host" "bob").action.operation setup w.views =
      some (.moderate "host" ⟨"alice", "request-1", "room", "bob", .remove⟩) := by decide +kernel
  have hidentity : ((w.call.rooms.get? "room").all fun room => (room.members.get? "bob").all fun member =>
      (w.views member.session).authenticatedUser = some "bob") = true := by decide +kernel
  have hmatched : Matched setup w (remove "host" "bob") := by
    intro session request hrequest
    rw [hop, Option.some.injEq, Operation.moderate.injEq] at hrequest
    obtain ⟨rfl, rfl⟩ := hrequest
    refine ⟨fun _ room member hroom _ hmember => ?_, fun hreAdmit => by cases hreAdmit⟩
    have hmember : room.members.get? "bob" = some member := hmember
    have hroom : w.call.rooms.get? "room" = some room := hroom
    simpa [hroom, hmember, World.env] using hidentity
  have haccepted : ((w.outcome setup (remove "host" "bob")).toOption.any
      Plan.moderationAccepted) = true := by decide +kernel
  exact ((removed_participant_stays_out hreach hmatched hop rfl
    (moderationAccepted_of_any haccepted) .refl).1 room hroom).1

open Sample in
/-- The divergence: Bob joins, the session of Bob proves another address, and the removal of Bob is
accepted while Bob stays a member and in the policy file. -/
theorem removal_misses_renamed_guest :
    let w := World.after setup {}
      (opening ++ joining ++ [authenticated "guest" "carol"])
    let w' := w.next setup (remove "host" "bob")
    (service setup).Reachable System.anyStep w ∧
    (remove "host" "bob").action.operation setup w.views =
      some (.moderate "host" ⟨"alice", "request-1", "room", "bob", .remove⟩) ∧
    ModerationAccepted setup w (remove "host" "bob") ∧
    (∃ room, w'.call.rooms.get? "room" = some room ∧ (room.members.get? "bob").isSome ∧
      "bob" ∈ room.blocked) ∧
    ∃ doc, w'.call.policies.get? "room" = some doc ∧ (doc.members.get? "bob").isSome := by
  intro w w'
  have haccepted : ((w.outcome setup (remove "host" "bob")).toOption.any
      Plan.moderationAccepted) = true := by decide +kernel
  have hroom : ((w'.call.rooms.get? "room").any fun room =>
      (room.members.get? "bob").isSome ∧ "bob" ∈ room.blocked) = true := by decide +kernel
  have hdoc : ((w'.call.policies.get? "room").any fun doc => (doc.members.get? "bob").isSome) = true := by
    decide +kernel
  refine ⟨reachable_after (.init rfl) _, by decide +kernel, moderationAccepted_of_any haccepted, ?_, ?_⟩
  · obtain ⟨room, hroom, h⟩ := (Option.any_eq_true _ _).1 hroom
    exact ⟨room, hroom, by simpa using h⟩
  · obtain ⟨doc, hdoc, h⟩ := (Option.any_eq_true _ _).1 hdoc
    exact ⟨doc, hdoc, h⟩

end CallBackend.Call
