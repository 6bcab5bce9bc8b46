import CallBackend.Call.Presence
import CallBackend.Call.Removal

/-!
# The registry invariant

The service keeps three views of who is in which room: the members of the rooms, the index by
session, and the metadata of the sessions. They agree in every state that runs without failing
writes reach, as long as no session changes its address while it is in a room; the rooms stay within
their limits, and the creator of a room is one of its members and is neither blocked nor muted.
-/

namespace CallBackend.Call

open Function

structure Room.Sound (room : Room) : Prop where
  members : room.members.size ≤ maxParticipantsPerRoom
  blocked : room.blocked.card ≤ maxBlocked
  muted : room.muted.card ≤ maxMuted
  present : (room.members.get? room.initiatorId).isSome
  unmuted : room.initiatorId ∉ room.muted
  disjoint : room.Disjoint

theorem Room.Sound.unblocked {room : Room} (h : room.Sound) : room.initiatorId ∉ room.blocked := by
  intro hblocked
  have hpresent := h.present
  rw [h.disjoint _ hblocked] at hpresent
  cases hpresent

structure Registry.Sound (views : SessionId → SessionView) (c : Registry) : Prop where
  keyed : c.Keyed
  size : c.rooms.size ≤ maxRooms
  rooms : c.AllRooms Room.Sound
  own : ∀ roomId p member, c.Holds roomId p member →
    member.participantId = p ∧ (views member.session).authenticatedUser = some p
  indexed : ∀ session roomId, (∃ p member, c.Holds roomId p member ∧ member.session = session) ↔
    c.sessionRooms.get? session = some roomId
  recorded : ∀ session roomId,
    c.sessionRooms.get? session = some roomId ↔ c.callRoomId session = some roomId

section Registry

variable {setup : Setup} {env : CallEnv} {views : SessionId → SessionView} {op : Operation}
  {c c' : Registry}

theorem Registry.Sound.linked (h : c.Sound views) : c.Linked where
  indexed roomId p member hm := (h.indexed member.session roomId).1 ⟨p, member, hm, rfl⟩
  present session roomId := (h.indexed session roomId).2
  metadata session roomId := (h.recorded session roomId).2

variable {p : ParticipantId}

theorem Registry.Sound.unique (h : c.Sound views) {r r' : RoomId} {p' : ParticipantId} {m m' : Member}
    (hm : c.Holds r p m) (hm' : c.Holds r' p' m') (hsession : m.session = m'.session) :
    r = r' ∧ p = p' := by
  have hr := h.linked.indexed r p m hm
  have hr' := h.linked.indexed r' p' m' hm'
  have hp := (h.own r p m hm).2
  have hp' := (h.own r' p' m' hm').2
  rw [hsession, hr', Option.some.injEq] at hr
  rw [hsession, hp', Option.some.injEq] at hp
  exact ⟨hr.symm, hp.symm⟩

theorem Registry.Sound.clean (h : c.Sound env.sessions) (hwritten : ¬Faulty env) : op.Clean env c := by
  have hown : ∀ session, Own env c session := by
    intro session roomId p member hm hsession
    rw [← hsession]
    exact (h.own roomId p member hm).2
  cases op with
  | depart session =>
    exact ⟨fun roomId p member hm hsession => .inl (hown session roomId p member hm hsession), hwritten⟩
  | moderate host request => exact fun _ => ⟨hwritten, fun _ member _ _ _ => hown member.session⟩
  | expire roomId => exact hwritten
  | _ => trivial

theorem Registry.Sound.congr {views' : SessionId → SessionView} (h : c.Sound views)
    (hviews : ∀ session, c.sessionRooms.get? session ≠ none →
      (views' session).authenticatedUser = (views session).authenticatedUser) : c.Sound views' where
  keyed := h.keyed
  size := h.size
  rooms := h.rooms
  own roomId p member hm := by
    have hindexed := h.linked.indexed roomId p member hm
    rw [hviews member.session (by rw [hindexed]; simp)]
    exact h.own roomId p member hm
  indexed := h.indexed
  recorded := h.recorded

/-! ### Rooms -/

theorem Capped.le {limit : Nat} {before after : Finset ParticipantId} (h : Capped limit before after)
    (hbefore : before.card ≤ limit) : after.card ≤ limit :=
  h.elim (fun hsub => (Finset.card_le_card hsub).trans hbefore) id

theorem newRoom_sound (now : Nanos) (session : SessionId) (request : CreateRequest) (timer : TimerId) :
    (newRoom now session request timer).Sound where
  members := show 1 ≤ maxParticipantsPerRoom by decide
  blocked := Nat.zero_le _
  muted := Nat.zero_le _
  present := by simp [newRoom]
  unmuted := by simp [newRoom]
  disjoint p hp := by cases hp

variable {session : SessionId} {room : Room}

theorem Admission.sound {request : JoinRequest} (h : Admission setup env c session request room)
    (hroom : room.Sound) (revision : Nat) :
    Room.Sound { room.admitting request session with revision } where
  members := by
    by_cases hnew : room.members.get? request.participantId = none
    · exact h.capacity hnew
    · have hsize := Dict.size_set room.members request.participantId (request.member session)
      rw [if_neg hnew] at hsize
      exact hsize.trans_le hroom.members
  blocked := hroom.blocked
  muted := hroom.muted
  present := by
    change ((room.members.set _ _).get? room.initiatorId).isSome
    rw [Dict.get?_set]
    split_ifs
    · rfl
    · exact hroom.present
  unmuted := hroom.unmuted
  disjoint p hp := by
    have hne : request.participantId ≠ p := fun heq => h.unblocked (heq ▸ hp)
    exact (Dict.get?_set_of_ne _ _ hne).trans (hroom.disjoint p hp)

variable {room' : Room}

theorem Removal.not_initiator (h : Removal env op c session p room room')
    (hsound : c.Sound env.sessions) :
    p ≠ room.initiatorId := by
  intro hp
  have hremoves := h.removes
  cases op with
  | depart actor => exact hremoves.2.2 (hp ▸ h.identity)
  | moderate host request =>
    obtain ⟨-, -, hauth, target, htarget, hsession⟩ := hremoves
    have htarget := (hsound.own _ _ _ ((Registry.holds_of_room h.current _ _).2 htarget)).2
    rw [hsession, h.identity, Option.some.injEq] at htarget
    exact hauth.2.2.2 (htarget.symm.trans (hp.trans hauth.1.symm))
  | _ => exact hremoves

theorem Removal.sound (h : Removal env op c session p room room') (hsound : c.Sound env.sessions) :
    room'.Sound := by
  have hroom := hsound.rooms _ _ h.current
  have hne := h.not_initiator hsound
  have hdisjoint := h.disjoint hroom.disjoint
  obtain ⟨blocked, screen, hblocks, rfl⟩ := h.after
  refine ⟨(Dict.size_erase_le ..).trans hroom.members, ?_, hroom.muted, ?_, hroom.unmuted, hdisjoint⟩
  · rcases hblocks with rfl | ⟨_, _, _, _, _, hcapped⟩
    · exact hroom.blocked
    · exact hcapped.le hroom.blocked
  · change ((room.members.erase p).get? room.initiatorId).isSome
    rw [Dict.get?_erase_of_ne _ hne]
    exact hroom.present

theorem ModerateRequest.Allows.sound {request : ModerateRequest} {blocked muted : Finset ParticipantId}
    (h : request.Allows room blocked muted) (hmarks : request.Marks room blocked muted)
    (hroom : room.Sound) :
    ((room.withBlocked blocked).withMuted muted).nextRevision.Sound where
  members := hroom.members
  blocked := h.blocked.le hroom.blocked
  muted := h.muted.le hroom.muted
  present := hroom.present
  unmuted := by
    change room.initiatorId ∉ muted
    have hunmuted := hroom.unmuted
    unfold Marks at hmarks
    split at hmarks
    · rw [hmarks.2]
      exact hunmuted
    · rw [hmarks.2.1]
      exact fun hmem => hunmuted (Finset.mem_of_mem_erase hmem)
    · rw [hmarks.2, Finset.mem_insert, not_or]
      exact ⟨Ne.symm h.other, hunmuted⟩
    · rw [hmarks.2]
      exact fun hmem => hunmuted (Finset.mem_of_mem_erase hmem)
  disjoint := hmarks.disjoint hroom.disjoint

/-! ### Effects -/

def Operation.Truthful (op : Operation) (env : CallEnv) : Prop :=
  match op with
  | .create session request => (env.sessions session).authenticatedUser = some request.initiatorId
  | .join session request => (env.sessions session).authenticatedUser = some request.participantId
  | _ => True

theorem Effect.keyed (he : Effect setup env op c c') (h : c.Keyed) : c'.Keyed := by
  cases he with
  | opened _ _ _ _ _ => exact h.store rfl
  | joined _ _ => exact h.store rfl
  | removed _ => exact h.store rfl
  | removalFailed _ _ => exact h.store rfl
  | ended _ _ _ _ =>
    intro roomId room hroom
    rw [Registry.forgetAll_rooms] at hroom
    exact h roomId room (Dict.get?_erase_eq_some hroom).2
  | blocked _ _ _ _ _ _ => exact h.store rfl
  | marked _ _ _ _ _ _ => exact h.store rfl
  | screened _ _ => exact h.store rfl
  | abandoned _ _ _ => exact h
  | cleared _ _ => exact h

theorem Registry.size_store (hroom : c.rooms.get? room.roomId = some room)
    (hid : room'.roomId = room.roomId) (h : c.rooms.size ≤ maxRooms) :
    (c.rooms.set room'.roomId room').size ≤ maxRooms := by
  rw [Dict.size_set, hid, hroom, if_neg (by simp)]
  exact h

theorem Effect.size (he : Effect setup env op c c') (h : c.rooms.size ≤ maxRooms) :
    c'.rooms.size ≤ maxRooms := by
  cases he with
  | @opened _ _ _ room _ _ _ habsent _ hsize _ =>
    change (c.rooms.set room.roomId room).size ≤ maxRooms
    rw [Dict.size_set, if_pos habsent]
    exact hsize
  | @joined _ session request room revision _ hadmission _ =>
    have hid : Room.roomId { room.admitting request session with revision } = room.roomId := rfl
    exact Registry.size_store hadmission.current hid h
  | removed hremoval =>
    obtain ⟨_, _, -, rfl⟩ := hremoval.after
    exact Registry.size_store hremoval.current rfl h
  | removalFailed hremoval _ =>
    obtain ⟨_, _, -, rfl⟩ := hremoval.after
    exact Registry.size_store hremoval.current rfl h
  | ended _ _ _ _ =>
    rw [Registry.forgetAll_rooms]
    exact (Dict.size_erase_le ..).trans h
  | blocked hroom _ _ _ _ _ => exact Registry.size_store hroom rfl h
  | marked hroom _ _ _ heq _ =>
    rw [heq]
    exact Registry.size_store hroom rfl h
  | screened _ hroom => exact Registry.size_store hroom rfl h
  | abandoned _ _ _ => exact h
  | cleared _ _ => exact h

theorem Effect.rooms (he : Effect setup env op c c') (h : c.Sound env.sessions) (hwritten : ¬Faulty env) :
    c'.AllRooms Room.Sound := by
  cases he with
  | opened hnew _ _ _ _ =>
    refine h.rooms.store rfl ?_
    rw [hnew]
    exact newRoom_sound ..
  | joined hadmission _ => exact h.rooms.store rfl (hadmission.sound (h.rooms _ _ hadmission.current) _)
  | removed hremoval => exact h.rooms.store rfl (hremoval.sound h)
  | removalFailed _ hfaulty => exact absurd hfaulty hwritten
  | ended _ _ _ _ => exact h.rooms.erase (Registry.forgetAll_rooms ..)
  | blocked hroom _ _ _ hmember huser =>
    exact absurd (h.own _ _ _ ((Registry.holds_of_room hroom _ _).2 hmember)).2 huser
  | marked hroom _ hmarks hallows heq _ =>
    refine h.rooms.store rfl ?_
    rw [heq]
    exact hallows.sound hmarks (h.rooms _ _ hroom)
  | screened _ hroom =>
    obtain ⟨hmembers, hblocked, hmuted, hpresent, hunmuted, hdisjoint⟩ := h.rooms _ _ hroom
    exact h.rooms.store rfl ⟨hmembers, hblocked, hmuted, hpresent, hunmuted, hdisjoint⟩
  | abandoned _ _ _ => exact h.rooms
  | cleared _ _ => exact h.rooms

theorem Change.own (hchange : Change setup env op c c') (h : c.Sound env.sessions)
    (htruthful : op.Truthful env) (roomId : RoomId) (p : ParticipantId) (member : Member)
    (hm : c'.Holds roomId p member) :
    member.participantId = p ∧ (env.sessions member.session).authenticatedUser = some p := by
  cases hchange with
  | kept hholds _ _ _ => exact h.own roomId p member ((hholds roomId p member).1 hm)
  | opened _ _ hholds _ _ _ =>
    rcases (hholds roomId p member).1 hm with ⟨-, hp, hmember⟩ | hm
    · rw [hp, hmember]
      exact ⟨rfl, htruthful⟩
    · exact h.own roomId p member hm
  | joined _ _ _ hholds _ _ _ =>
    rw [hholds] at hm
    split_ifs at hm with hp
    · rw [hp.2, hm]
      exact ⟨rfl, htruthful⟩
    · exact h.own roomId p member hm
  | removed _ _ _ _ hholds _ _ _ => exact h.own roomId p member ((hholds roomId p member).1 hm).1
  | ended _ _ _ _ hholds _ _ _ => exact h.own roomId p member ((hholds roomId p member).1 hm).2

theorem Operation.Clears.unindexed (hclears : op.Clears env c session) (h : c.Sound env.sessions) :
    c.sessionRooms.get? session = none := by
  rw [Option.eq_none_iff_forall_ne_some]
  intro roomId hindexed
  obtain ⟨p, member, hm, hsession⟩ := (h.indexed session roomId).2 hindexed
  rcases hclears with hgone | ⟨room, hroom, hremoves, hunmatched⟩
  · obtain ⟨room, hroom, -⟩ := hm
    rw [hgone roomId hindexed] at hroom
    cases hroom
  · have huser := (h.own roomId p member hm).2
    rw [hsession] at huser
    have hp : room.members.get? p = some member := by
      cases op with
      | depart actor =>
        obtain rfl := Option.some.inj (hindexed.symm.trans hremoves.2.1)
        exact (Registry.holds_of_room hroom p member).1 hm
      | moderate host request =>
        obtain ⟨-, -, -, target, htarget, hsame⟩ := hremoves
        have htarget := (Registry.holds_of_room hroom _ _).2 htarget
        have hsame := h.unique hm htarget (hsession.trans hsame.symm)
        rw [hsame.1] at hm
        exact (Registry.holds_of_room hroom p member).1 hm
      | _ => exact hremoves.elim
    exact hunmatched p member huser hp hsession

theorem Effect.recorded (he : Effect setup env op c c') (h : c.Sound env.sessions)
    (hwritten : ¬Faulty env) (session : SessionId) (roomId : RoomId)
    (hindexed : c'.sessionRooms.get? session = some roomId) : c'.callRoomId session = some roomId := by
  have hbefore := (h.recorded session roomId).1
  have hbind : ∀ s r, (c.sessionRooms.set s r).get? session = some roomId →
      update c.callRoomId s (some r) session = some roomId := by
    intro s r hs
    rw [Dict.get?_set] at hs
    split_ifs at hs with heq
    · rw [← heq, update_self, hs]
    · rw [update_of_ne (Ne.symm heq)]
      exact hbefore hs
  cases he with
  | opened _ _ _ _ _ => exact hbind _ _ hindexed
  | joined _ _ => exact hbind _ _ hindexed
  | @removed _ _ s _ _ _ _ =>
    change (c.sessionRooms.erase s).get? session = some roomId at hindexed
    change update c.callRoomId s none session = some roomId
    obtain ⟨hne, hindexed⟩ := Dict.get?_erase_eq_some hindexed
    rw [update_of_ne (Ne.symm hne)]
    exact hbefore hindexed
  | @cleared _ _ s hclears =>
    change update c.callRoomId s none session = some roomId
    rw [update_of_ne]
    · exact hbefore hindexed
    · rintro rfl
      rw [hclears.unindexed h] at hindexed
      cases hindexed
  | ended _ _ _ _ =>
    rw [Registry.forgetAll_sessionRooms] at hindexed
    rw [Registry.forgetAll_callRoomId]
    split_ifs at hindexed ⊢
    exact hbefore hindexed
  | abandoned _ _ hfaulty => exact absurd hfaulty hwritten
  | removalFailed _ hfaulty => exact absurd hfaulty hwritten
  | blocked _ _ _ _ _ _ => exact hbefore hindexed
  | marked _ _ _ _ _ _ => exact hbefore hindexed
  | screened _ _ => exact hbefore hindexed

theorem Effect.sound (he : Effect setup env op c c') (h : c.Sound env.sessions)
    (htruthful : op.Truthful env) (hwritten : ¬Faulty env) : c'.Sound env.sessions := by
  have hlinked := he.change.linked h.linked (h.clean hwritten)
  refine ⟨he.keyed h.keyed, he.size h.size, he.rooms h hwritten, he.change.own h htruthful, ?_, ?_⟩
  · intro session roomId
    constructor
    · rintro ⟨p, member, hm, rfl⟩
      exact hlinked.indexed roomId p member hm
    · exact hlinked.present session roomId
  · intro session roomId
    exact ⟨he.recorded h hwritten session roomId, hlinked.metadata session roomId⟩

theorem Effects.sound (he : Effects setup env op c c') (h : c.Sound env.sessions)
    (htruthful : op.Truthful env) (hwritten : ¬Faulty env) : c'.Sound env.sessions := by
  induction he with
  | refl => exact h
  | tail _ heffect ih => exact heffect.sound ih htruthful hwritten

theorem sound_empty (views : SessionId → SessionView) : ({} : Registry).Sound views where
  keyed roomId room hroom := by cases hroom
  size := by decide
  rooms roomId room hroom := by cases hroom
  own roomId p member := by
    rintro ⟨room, hroom, -⟩
    cases hroom
  indexed session roomId := by
    constructor
    · rintro ⟨p, member, ⟨room, hroom, -⟩, -⟩
      cases hroom
    · intro hindexed
      cases hindexed
  recorded session roomId := by
    constructor
    · intro hindexed
      cases hindexed
    · intro hrecorded
      cases hrecorded

end Registry

/-! ### Runs -/

/-- A step of the running service in which no write fails and no session that is in a room changes
its address. -/
structure Steady (w : World) (event : Event) : Prop where
  running : ∀ views metadata, event.action ≠ .restart views metadata
  written : ¬Faulty (w.env event)
  kept : ∀ session, w.call.sessionRooms.get? session ≠ none →
    (event.action.views w.views session).authenticatedUser = (w.views session).authenticatedUser

section Runs

variable {setup : Setup} {w : World} {event : Event}

theorem steady_message {session : SessionId} {content : Json}
    (haction : event.action = .message session content) (hwritten : ¬Faulty (w.env event)) :
    Steady w event := by
  refine ⟨fun views metadata hrestart => ?_, hwritten, fun s _ => ?_⟩
  · rw [haction] at hrestart
    cases hrestart
  · rw [haction]
    rfl

theorem steady_changed {session : SessionId} {change : SessionChange}
    (haction : event.action = .changed session change)
    (hfree : w.call.sessionRooms.get? session = none) (hwritten : ¬Faulty (w.env event)) :
    Steady w event := by
  refine ⟨fun views metadata hrestart => ?_, hwritten, fun s hs => ?_⟩
  · rw [haction] at hrestart
    cases hrestart
  · have hne : s ≠ session := fun heq => hs (heq ▸ hfree)
    simp only [haction, Action.views, update_of_ne hne]

theorem operation_truthful {op : Operation} (hop : event.action.operation setup w.views = some op) :
    op.Truthful (w.env event) := by
  cases op with
  | create session request =>
    obtain ⟨content, -, -, hparse⟩ := comesFrom_of_operation hop
    exact (CreateRequest.parse_ok hparse).1
  | join session request =>
    obtain ⟨content, -, -, hparse⟩ := comesFrom_of_operation hop
    exact (JoinRequest.parse_ok hparse).1
  | _ => trivial

/-- Only a step that runs no operation changes what the service reads of the sessions. -/
theorem views_of_operation {op : Operation} (hop : event.action.operation setup w.views = some op) :
    event.action.views w.views = w.views := by
  cases haction : event.action with
  | changed session change => simp [haction, Action.operation] at hop
  | restart views metadata => simp [haction, Action.operation] at hop
  | _ => rfl

theorem sound_next (h : w.call.toRegistry.Sound w.views) (hsteady : Steady w event) :
    (w.next setup event).call.toRegistry.Sound (w.next setup event).views := by
  have hviews : (w.next setup event).views = event.action.views w.views := rfl
  rcases next_registry h.keyed event with ⟨views, metadata, haction, -⟩ | heq |
    ⟨op, hop, heffects⟩
  · exact absurd haction (hsteady.running views metadata)
  · rw [heq, hviews]
    exact h.congr hsteady.kept
  · rw [hviews, views_of_operation hop]
    exact heffects.sound h (operation_truthful hop) hsteady.written

theorem reachable_sound (hreach : (service setup).Reachable Steady w) :
    w.call.toRegistry.Sound w.views := by
  refine hreach.invariant (I := fun w => w.call.toRegistry.Sound w.views) (fun w hw => ?_)
    fun w event w' hw hok hstep => ?_
  · rw [hw]
    exact sound_empty _
  · rw [hstep]
    exact sound_next hw hok

/-- In every run without failing writes in which no session changes its address while it is in a
room: the rooms and their lists stay within the limits, the creator of a room is a member of it and
neither blocked nor muted, nobody is a member and blocked, members are filed under the address of
their session, and the members, the index and the metadata agree on who is in which room. -/
theorem registry_invariant (hreach : (service setup).Reachable Steady w) :
    w.call.rooms.size ≤ 1024 ∧
    (∀ roomId room, w.call.rooms.get? roomId = some room →
      room.members.size ≤ 32 ∧ room.blocked.card ≤ 256 ∧ room.muted.card ≤ 256 ∧
      (room.members.get? room.initiatorId).isSome ∧ room.initiatorId ∉ room.blocked ∧
      room.initiatorId ∉ room.muted ∧
      ∀ p member, room.members.get? p = some member → p ∉ room.blocked ∧
        member.participantId = p ∧ (w.views member.session).authenticatedUser = some p) ∧
    (∀ session roomId,
      ((∃ room p member, w.call.rooms.get? roomId = some room ∧ room.members.get? p = some member ∧
          member.session = session) ↔ w.call.sessionRooms.get? session = some roomId) ∧
        (w.call.sessionRooms.get? session = some roomId ↔ w.call.callRoomId session = some roomId)) ∧
    ∀ roomId roomId' room room' p p' member member', w.call.rooms.get? roomId = some room →
      w.call.rooms.get? roomId' = some room' → room.members.get? p = some member →
      room'.members.get? p' = some member' → member.session = member'.session →
      roomId = roomId' ∧ p = p' := by
  have h := reachable_sound hreach
  refine ⟨h.size, fun roomId room hroom => ?_, fun session roomId => ⟨?_, h.recorded session roomId⟩, ?_⟩
  · have hsound := h.rooms roomId room hroom
    refine ⟨hsound.members, hsound.blocked, hsound.muted, hsound.present, hsound.unblocked,
      hsound.unmuted, fun p member hmember => ⟨fun hblocked => ?_, h.own roomId p member ⟨room, hroom, hmember⟩⟩⟩
    rw [hsound.disjoint p hblocked] at hmember
    cases hmember
  · rw [← h.indexed session roomId]
    constructor
    · rintro ⟨room, p, member, hroom, hmember, hsession⟩
      exact ⟨p, member, ⟨room, hroom, hmember⟩, hsession⟩
    · rintro ⟨p, member, ⟨room, hroom, hmember⟩, hsession⟩
      exact ⟨room, p, member, hroom, hmember, hsession⟩
  · intro roomId roomId' room room' p p' member member' hroom hroom' hmember hmember' hsession
    exact h.unique ⟨room, hroom, hmember⟩ ⟨room', hroom', hmember'⟩ hsession

end Runs

namespace Sample

theorem unfaulty (w : World) (action : Action) : ¬Faulty (w.env { action }) := by
  rintro ⟨_, hfailed⟩
  cases hfailed

theorem joining_steady : World.Meets setup Steady {} (opening ++ joining) := by
  refine ⟨?_, ?_, ?_, ?_, ?_, ?_, trivial⟩
  · exact steady_changed rfl rfl (unfaulty _ _)
  · exact steady_changed rfl rfl (unfaulty _ _)
  · exact steady_message rfl (unfaulty _ _)
  · exact steady_changed rfl (by decide +kernel) (unfaulty _ _)
  · exact steady_changed rfl (by decide +kernel) (unfaulty _ _)
  · exact steady_message rfl (unfaulty _ _)

end Sample

open Sample in
theorem registry_invariant_joining :
    let w := World.after setup {} (opening ++ joining)
    w.call.sessionRooms.get? "guest" = some "room" ∧ w.call.rooms.size ≤ 1024 ∧
      w.call.callRoomId "guest" = some "room" := by
  intro w
  have hindexed : w.call.sessionRooms.get? "guest" = some "room" := by decide +kernel
  have h := registry_invariant (reachable_after_of_meets (.init rfl) joining_steady)
  exact ⟨hindexed, h.1, ((h.2.2.1 "guest" "room").2).1 hindexed⟩

end CallBackend.Call
