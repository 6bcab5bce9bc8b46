import CallBackend.Call.Effect

/-!
# Memberships as a relation

Forgetting revisions, screens and policies, a registry is a relation between rooms, participants and
members, together with the participant who leads each room. `Change` says what an effect does to it:
nothing, one new room, one new member, one member less, or one room less, with what happens to the
index and the metadata of the sessions. `Effect.change` connects the two.
-/

namespace CallBackend.Call

namespace Registry

def Holds (c : Registry) (roomId : RoomId) (p : ParticipantId) (member : Member) : Prop :=
  ∃ room, c.rooms.get? roomId = some room ∧ room.members.get? p = some member

def Leads (c : Registry) (roomId : RoomId) (p : ParticipantId) : Prop :=
  ∃ room, c.rooms.get? roomId = some room ∧ room.initiatorId = p

variable {c c' : Registry} {room : Room}

theorem holds_set (hrooms : c'.rooms = c.rooms.set room.roomId room) (roomId : RoomId)
    (p : ParticipantId) (member : Member) :
    c'.Holds roomId p member ↔
      if room.roomId = roomId then room.members.get? p = some member else c.Holds roomId p member := by
  unfold Holds
  rw [hrooms, Dict.get?_set]
  split_ifs <;> simp

theorem leads_set (hrooms : c'.rooms = c.rooms.set room.roomId room) (roomId : RoomId)
    (p : ParticipantId) :
    c'.Leads roomId p ↔
      if room.roomId = roomId then room.initiatorId = p else c.Leads roomId p := by
  unfold Leads
  rw [hrooms, Dict.get?_set]
  split_ifs <;> simp

theorem holds_of_room (hroom : c.rooms.get? room.roomId = some room) (p : ParticipantId)
    (member : Member) :
    c.Holds room.roomId p member ↔ room.members.get? p = some member := by
  simp [Holds, hroom]

theorem leads_of_room (hroom : c.rooms.get? room.roomId = some room) (p : ParticipantId) :
    c.Leads room.roomId p ↔ room.initiatorId = p := by
  simp [Leads, hroom]

theorem holds_store {room' : Room} (hroom : c.rooms.get? room.roomId = some room)
    (hrooms : c'.rooms = c.rooms.set room'.roomId room') (hid : room'.roomId = room.roomId)
    (hmembers : room'.members = room.members) (roomId : RoomId) (p : ParticipantId) (member : Member) :
    c'.Holds roomId p member ↔ c.Holds roomId p member := by
  rw [holds_set hrooms, hid, hmembers]
  split_ifs with heq
  · rw [← heq, holds_of_room hroom]
  · rfl

theorem leads_store {room' : Room} (hroom : c.rooms.get? room.roomId = some room)
    (hrooms : c'.rooms = c.rooms.set room'.roomId room') (hid : room'.roomId = room.roomId)
    (hinitiator : room'.initiatorId = room.initiatorId) (roomId : RoomId) (p : ParticipantId) :
    c'.Leads roomId p ↔ c.Leads roomId p := by
  rw [leads_set hrooms, hid, hinitiator]
  split_ifs with heq
  · rw [← heq, leads_of_room hroom]
  · rfl

theorem holds_erase {gone : RoomId} (hrooms : c'.rooms = c.rooms.erase gone) (roomId : RoomId)
    (p : ParticipantId) (member : Member) :
    c'.Holds roomId p member ↔ gone ≠ roomId ∧ c.Holds roomId p member := by
  unfold Holds
  rw [hrooms, Dict.get?_erase]
  split_ifs with heq <;> simp [heq]

theorem leads_erase {gone : RoomId} (hrooms : c'.rooms = c.rooms.erase gone) (roomId : RoomId)
    (p : ParticipantId) :
    c'.Leads roomId p ↔ gone ≠ roomId ∧ c.Leads roomId p := by
  unfold Leads
  rw [hrooms, Dict.get?_erase]
  split_ifs with heq <;> simp [heq]

end Registry

inductive Change (setup : Setup) (env : CallEnv) : Operation → Registry → Registry → Prop
  | kept {op : Operation} {c c' : Registry} :
      (∀ roomId p member, c'.Holds roomId p member ↔ c.Holds roomId p member) →
      (∀ roomId p, c'.Leads roomId p ↔ c.Leads roomId p) → c'.sessionRooms = c.sessionRooms →
      (∀ session roomId, c'.callRoomId session = some roomId → c.callRoomId session = some roomId) →
      Change setup env op c c'
  | opened {c c' : Registry} {session : SessionId} {request : CreateRequest} :
      c.rooms.get? request.roomId = none → c.sessionRooms.get? session = none →
      (∀ roomId p m, c'.Holds roomId p m ↔
        (roomId = request.roomId ∧ p = request.initiatorId ∧ m = request.member session) ∨
          c.Holds roomId p m) →
      (∀ roomId p, c'.Leads roomId p ↔
        (roomId = request.roomId ∧ p = request.initiatorId) ∨ c.Leads roomId p) →
      c'.sessionRooms = c.sessionRooms.set session request.roomId →
      c'.callRoomId = Function.update c.callRoomId session (some request.roomId) →
      Change setup env (.create session request) c c'
  | joined {c c' : Registry} {session : SessionId} {request : JoinRequest} :
      (c.rooms.get? request.roomId).isSome →
      (c.sessionRooms.get? session = none ∨ c.sessionRooms.get? session = some request.roomId) →
      (∀ m, c.Holds request.roomId request.participantId m → m.session = session) →
      (∀ roomId p m, c'.Holds roomId p m ↔
        if roomId = request.roomId ∧ p = request.participantId then m = request.member session
        else c.Holds roomId p m) →
      (∀ roomId p, c'.Leads roomId p ↔ c.Leads roomId p) →
      c'.sessionRooms = c.sessionRooms.set session request.roomId →
      c'.callRoomId = Function.update c.callRoomId session (some request.roomId) →
      Change setup env (.join session request) c c'
  | removed {op : Operation} {c c' : Registry} {session : SessionId} {room : Room}
      {participantId : ParticipantId} :
      c.rooms.get? room.roomId = some room → op.Removes env c room session →
      (∃ m, c.Holds room.roomId participantId m ∧ m.session = session) →
      (env.sessions session).authenticatedUser = some participantId →
      (∀ roomId p m, c'.Holds roomId p m ↔
        c.Holds roomId p m ∧ ¬(roomId = room.roomId ∧ p = participantId)) →
      (∀ roomId p, c'.Leads roomId p ↔ c.Leads roomId p) →
      c'.sessionRooms = c.sessionRooms.erase session →
      (∀ s roomId, c'.callRoomId s = some roomId →
        c.callRoomId s = some roomId ∧ (s = session → Faulty env)) →
      Change setup env op c c'
  | ended {op : Operation} {c c' : Registry} {room : Room} {sessions : List SessionId} :
      c.rooms.get? room.roomId = some room → op.Ends env c room →
      sessions = room.sessions ∨ Faulty env → sessions <+: room.sessions →
      (∀ roomId p m, c'.Holds roomId p m ↔ room.roomId ≠ roomId ∧ c.Holds roomId p m) →
      (∀ roomId p, c'.Leads roomId p ↔ room.roomId ≠ roomId ∧ c.Leads roomId p) →
      (∀ s, c'.sessionRooms.get? s = if s ∈ sessions then none else c.sessionRooms.get? s) →
      (∀ s, c'.callRoomId s = if s ∈ sessions then none else c.callRoomId s) →
      Change setup env op c c'

section Effects

variable {setup : Setup} {env : CallEnv} {op : Operation} {c c' : Registry} {session : SessionId}

theorem update_none_eq_some {f : SessionId → Option RoomId} {s : SessionId} {roomId : RoomId}
    (h : Function.update f session none s = some roomId) : f s = some roomId ∧ s ≠ session := by
  by_cases hs : s = session
  · simp [hs] at h
  · exact ⟨by simpa [Function.update_of_ne hs] using h, hs⟩

variable {room room' : Room}

theorem change_store (hroom : c.rooms.get? room.roomId = some room)
    (hrooms : c'.rooms = c.rooms.set room'.roomId room') (hid : room'.roomId = room.roomId)
    (hmembers : room'.members = room.members) (hinitiator : room'.initiatorId = room.initiatorId)
    (hindex : c'.sessionRooms = c.sessionRooms) (hmeta : c'.callRoomId = c.callRoomId) :
    Change setup env op c c' :=
  .kept (Registry.holds_store hroom hrooms hid hmembers) (Registry.leads_store hroom hrooms hid hinitiator)
    hindex fun _ _ h => hmeta ▸ h

theorem Removal.change {p : ParticipantId} (h : Removal env op c session p room room')
    (hrooms : c'.rooms = c.rooms.set room'.roomId room')
    (hindex : c'.sessionRooms = c.sessionRooms.erase session)
    (hmeta : ∀ s roomId, c'.callRoomId s = some roomId →
      c.callRoomId s = some roomId ∧ (s = session → Faulty env)) :
    Change setup env op c c' := by
  obtain ⟨blocked, screen, -, heq⟩ := h.after
  have hid : room'.roomId = room.roomId := by rw [heq]; rfl
  have hmembers : room'.members = room.members.erase p := by rw [heq]; rfl
  have hinitiator : room'.initiatorId = room.initiatorId := by rw [heq]; rfl
  obtain ⟨member, hmember, hsession⟩ := h.bound
  refine .removed h.current h.removes ⟨member, (Registry.holds_of_room h.current p member).2 hmember, hsession⟩
    h.identity (fun roomId q m => ?_) (Registry.leads_store h.current hrooms hid hinitiator) hindex hmeta
  rw [Registry.holds_set hrooms, hid, hmembers, Dict.get?_erase]
  by_cases hroom : room.roomId = roomId
  · subst hroom
    rw [if_pos rfl, Registry.holds_of_room h.current]
    by_cases hq : p = q
    · simp [hq]
    · simp [hq, Ne.symm hq]
  · simp [hroom, Ne.symm hroom]

theorem Effect.change (he : Effect setup env op c c') : Change setup env op c c' := by
  cases he with
  | @opened _ session request room timer policies hnew habsent hfree _ _ =>
    subst hnew
    refine .opened habsent hfree (fun roomId p m => ?_) (fun roomId p => ?_) rfl rfl
    · rw [Registry.holds_set rfl]
      by_cases hroom : request.roomId = roomId
      · subst hroom
        have hnone : ¬c.Holds request.roomId p m := by
          rintro ⟨_, hcurrent, _⟩
          rw [show c.rooms.get? request.roomId = none from habsent] at hcurrent
          cases hcurrent
        change (if request.roomId = request.roomId then
          ((∅ : Dict ParticipantId Member).set request.initiatorId (request.member session)).get? p = some m
          else _) ↔ _
        rw [if_pos rfl, Dict.get?_set]
        by_cases hp : request.initiatorId = p
        · simp [hp, hnone, eq_comm]
        · simp [hp, Ne.symm hp, hnone]
      · change (if request.roomId = roomId then _ else c.Holds roomId p m) ↔ _
        simp [hroom, Ne.symm hroom]
    · rw [Registry.leads_set rfl]
      by_cases hroom : request.roomId = roomId
      · subst hroom
        have hnone : ¬c.Leads request.roomId p := by
          rintro ⟨_, hcurrent, _⟩
          rw [show c.rooms.get? request.roomId = none from habsent] at hcurrent
          cases hcurrent
        change (if request.roomId = request.roomId then request.initiatorId = p else _) ↔ _
        simp [hnone, eq_comm]
      · change (if request.roomId = roomId then _ else c.Leads roomId p) ↔ _
        simp [hroom, Ne.symm hroom]
  | abandoned _ _ _ => exact .kept (fun _ _ _ => .rfl) (fun _ _ => .rfl) rfl fun _ _ h => (update_none_eq_some h).1
  | @joined _ session request room revision _ hadmission _ =>
    have hcurrent := hadmission.current
    rw [← hadmission.named] at hcurrent
    refine .joined (by rw [hcurrent]; rfl) ?_ (fun m hm => ?_) (fun roomId p m => ?_)
      (Registry.leads_store hadmission.current rfl rfl rfl) ?_ ?_
    · rw [hadmission.named]
      exact hadmission.free
    · rw [hadmission.named, Registry.holds_of_room hadmission.current] at hm
      exact hadmission.own m hm
    · rw [Registry.holds_set rfl, hadmission.named]
      by_cases hroom : room.roomId = roomId
      · subst hroom
        change (if room.roomId = room.roomId then
          (room.members.set request.participantId (request.member session)).get? p = some m else _) ↔ _
        rw [if_pos rfl, Dict.get?_set, Registry.holds_of_room hadmission.current]
        by_cases hp : request.participantId = p
        · simp [hp, eq_comm]
        · simp [hp, Ne.symm hp]
      · change (if room.roomId = roomId then _ else c.Holds roomId p m) ↔ _
        simp [hroom, Ne.symm hroom]
    · rw [hadmission.named]
      rfl
    · rw [hadmission.named]
      rfl
  | removed hremoval =>
    refine hremoval.change rfl rfl fun s roomId h => ?_
    obtain ⟨h, hne⟩ := update_none_eq_some h
    exact ⟨h, fun heq => absurd heq hne⟩
  | removalFailed hremoval hf => exact hremoval.change rfl rfl fun s roomId h => ⟨h, fun _ => hf⟩
  | cleared session _ => exact .kept (fun _ _ _ => .rfl) (fun _ _ => .rfl) rfl fun _ _ h => (update_none_eq_some h).1
  | ended hroom hends hpre hall =>
    exact .ended hroom hends hall hpre (Registry.holds_erase (Registry.forgetAll_rooms ..))
      (Registry.leads_erase (Registry.forgetAll_rooms ..)) (Registry.forgetAll_sessionRooms _ _)
      (Registry.forgetAll_callRoomId _ _)
  | blocked hroom _ _ _ _ _ => exact change_store hroom rfl rfl rfl rfl rfl rfl
  | marked hroom _ _ _ heq _ =>
    subst heq
    exact change_store hroom rfl rfl rfl rfl rfl rfl
  | screened screen hroom => exact change_store hroom rfl rfl rfl rfl rfl rfl

/-! ### Rooms that stay and rooms that shrink -/

theorem Effect.create_same {request : CreateRequest} {roomId : RoomId}
    (he : Effect setup env (.create session request) c c') (h : c.rooms.get? roomId = some room) :
    c'.rooms.get? roomId = some room := by
  cases he with
  | opened _ habsent =>
    refine (Dict.get?_set_of_ne _ _ fun heq => ?_).trans h
    rw [heq, h] at habsent
    cases habsent
  | abandoned => exact h
  | removed hremoval => exact hremoval.removes.elim
  | removalFailed hremoval _ => exact hremoval.removes.elim
  | cleared => exact h
  | ended _ hends _ _ => exact hends.elim

theorem Effect.create_keeps {request : CreateRequest} {roomId : RoomId}
    (he : Effect setup env (.create session request) c c') (h : c.rooms.get? roomId ≠ none) :
    c'.rooms.get? roomId ≠ none := by
  obtain ⟨room, hroom⟩ := Option.ne_none_iff_exists'.1 h
  rw [he.create_same hroom]
  exact Option.some_ne_none room

def Registry.Shrinks (c c' : Registry) : Prop :=
  ∀ roomId room', c'.rooms.get? roomId = some room' → ∃ room, c.rooms.get? roomId = some room ∧
    (∀ p member, room'.members.get? p = some member → room.members.get? p = some member) ∧
    room'.initiatorId = room.initiatorId ∧ room'.expiresAtMs = room.expiresAtMs

theorem Effect.shrinks {request : ModerateRequest}
    (he : Effect setup env (.moderate session request) c c') : c.Shrinks c' := by
  refine he.evolves (fun _ _ h => (by cases h)) (fun _ => ⟨fun _ _ h => h, rfl, rfl⟩)
    (fun _ _ _ _ h => (by cases h)) (fun room _ p _ => ⟨fun _ _ h => ?_, rfl, rfl⟩)
    (fun _ _ => ⟨fun _ _ h => h, rfl, rfl⟩) (fun _ _ _ => ⟨fun _ _ h => h, rfl, rfl⟩)
    fun _ _ => ⟨fun _ _ h => h, rfl, rfl⟩
  exact (Dict.get?_erase_eq_some h).2

theorem ModerateRequest.Authorized.of_shrunk {request : ModerateRequest}
    (h : request.Authorized env session room')
    (hmembers : ∀ p member, room'.members.get? p = some member → room.members.get? p = some member)
    (hinitiator : room'.initiatorId = room.initiatorId) (hexpiry : room'.expiresAtMs = room.expiresAtMs) :
    request.Authorized env session room := by
  obtain ⟨hactor, ⟨host, hhost, hsession⟩, hlive, htarget⟩ := h
  exact ⟨hinitiator ▸ hactor, ⟨host, hmembers _ _ hhost, hsession⟩, hexpiry ▸ hlive, htarget⟩

end Effects

end CallBackend.Call
