import CallBackend.Call.Run

/-!
# The policy directory never grants more than the rooms

The media service trusts the policy files alone. A file of a room is `Covered` when it grants no
more than the room does: its members are members of the room under the same session, a muted member
it lists is listed as muted, and it expires with the room. The service keeps every file covered
through every effect, because an update that cannot be written removes the file.
-/

namespace CallBackend.Call

open Exec

structure PolicyDocument.Covered (doc : PolicyDocument) (room : Room) : Prop where
  members : ∀ p session, doc.members.get? p = some session →
    ∃ member, room.members.get? p = some member ∧ member.session = session
  muted : ∀ p session, doc.members.get? p = some session → p ∈ room.muted → p ∈ doc.muted
  expiry : doc.expiresAt = room.expiresAtMs

structure Registry.Covered (setup : Setup) (c : Registry) : Prop where
  keyed : c.Keyed
  undirected : setup.policyDirectory = false → ∀ roomId, c.policies.get? roomId = none
  covered : ∀ roomId doc, c.policies.get? roomId = some doc →
    ∃ room, c.rooms.get? roomId = some room ∧ doc.Covered room

theorem Room.mem_mutedMembers (room : Room) (p : ParticipantId) :
    p ∈ room.mutedMembers ↔ p ∈ room.muted ∧ ∃ member, room.members.get? p = some member := by
  simp only [mutedMembers, sorted, Finset.mem_sort, Finset.mem_inter, List.mem_toFinset, Dict.mem_keys_iff]

theorem Room.policy_covered (room : Room) : room.policy.Covered room where
  members p session h := by
    rw [policy, Dict.get?_mapValues, Option.map_eq_some_iff] at h
    exact h
  muted p session h hmuted := by
    rw [policy, Dict.get?_mapValues, Option.map_eq_some_iff] at h
    obtain ⟨member, hmember, -⟩ := h
    exact (room.mem_mutedMembers p).2 ⟨hmuted, member, hmember⟩
  expiry := rfl

section Effects

variable {setup : Setup} {env : CallEnv} {op : Operation} {c c' : Registry}

/-- The policy directory after the room was stored: its file is current, gone, or was left alone and
is still covered. -/
def Kept (setup : Setup) (c : Registry) (room : Room) (policies : Dict RoomId PolicyDocument) : Prop :=
  policies = published setup c.policies room ∨ policies = withdrawn setup c.policies room.roomId ∨
    policies = c.policies ∧ ∀ doc, c.policies.get? room.roomId = some doc → doc.Covered room

variable {room : Room} {policies : Dict RoomId PolicyDocument}

theorem Rewritten.kept (h : Rewritten setup env c.policies room policies) : Kept setup c room policies := by
  rcases h with h | ⟨-, h⟩
  · exact .inl h
  · exact .inr (.inl h)

theorem Kept.covered {doc : PolicyDocument} (hkept : Kept setup c room policies) (h : c.Covered setup)
    (hdoc : policies.get? room.roomId = some doc) : doc.Covered room := by
  rcases hkept with hp | hp | ⟨hp, hcovered⟩
  · rw [hp, published] at hdoc
    split_ifs at hdoc with hdir
    · rw [Dict.get?_set_self, Option.some.injEq] at hdoc
      exact hdoc ▸ room.policy_covered
    · rw [h.undirected (by simpa using hdir)] at hdoc
      cases hdoc
  · rw [hp, withdrawn] at hdoc
    split_ifs at hdoc with hdir
    · rw [Dict.get?_erase_self] at hdoc
      cases hdoc
    · rw [h.undirected (by simpa using hdir)] at hdoc
      cases hdoc
  · rw [hp] at hdoc
    exact hcovered doc hdoc

theorem Kept.other {roomId : RoomId} (hkept : Kept setup c room policies) (hne : room.roomId ≠ roomId) :
    policies.get? roomId = c.policies.get? roomId := by
  rcases hkept with hp | hp | ⟨hp, -⟩
  · rw [hp, published]
    split_ifs
    · exact Dict.get?_set_of_ne _ _ hne
    · rfl
  · rw [hp, withdrawn]
    split_ifs
    · exact Dict.get?_erase_of_ne _ hne
    · rfl
  · rw [hp]

theorem withdrawn_undirected {roomId : RoomId} (hdir : setup.policyDirectory = false) :
    withdrawn setup policies roomId = policies := by
  simp [withdrawn, hdir]

theorem Kept.undirected (hkept : Kept setup c room policies) (hdir : setup.policyDirectory = false) :
    policies = c.policies := by
  rcases hkept with hp | hp | ⟨hp, -⟩
  · simpa [published, hdir] using hp
  · rw [hp, withdrawn_undirected hdir]
  · exact hp

theorem Registry.Keyed.store (h : c.Keyed) (hrooms : c'.rooms = c.rooms.set room.roomId room) : c'.Keyed := by
  intro roomId room' hroom'
  rw [hrooms, Dict.get?_set] at hroom'
  split_ifs at hroom' with hid
  · rw [← Option.some.inj hroom', hid]
  · exact h roomId room' hroom'

theorem Registry.Covered.store (h : c.Covered setup) (hrooms : c'.rooms = c.rooms.set room.roomId room)
    (hkept : Kept setup c room c'.policies) :
    c'.Covered setup := by
  refine ⟨h.keyed.store hrooms, fun hdir => ?_, fun roomId doc hdoc => ?_⟩
  · rw [hkept.undirected hdir]
    exact h.undirected hdir
  · by_cases hid : room.roomId = roomId
    · rw [← hid] at hdoc ⊢
      exact ⟨room, by rw [hrooms, Dict.get?_set_self], hkept.covered h hdoc⟩
    · rw [hkept.other hid] at hdoc
      rw [hrooms, Dict.get?_set_of_ne _ _ hid]
      exact h.covered roomId doc hdoc

theorem Registry.Covered.erase (h : c.Covered setup) (roomId : RoomId)
    (hrooms : c'.rooms = c.rooms.erase roomId) (hpolicies : c'.policies = withdrawn setup c.policies roomId) :
    c'.Covered setup := by
  refine ⟨fun r room hroom => ?_, fun hdir => ?_, fun r doc hdoc => ?_⟩
  · rw [hrooms] at hroom
    exact h.keyed r room (Dict.get?_erase_eq_some hroom).2
  · rw [hpolicies, withdrawn_undirected hdir]
    exact h.undirected hdir
  · rw [hpolicies, withdrawn] at hdoc
    split_ifs at hdoc with hdir
    · obtain ⟨hne, hdoc⟩ := Dict.get?_erase_eq_some hdoc
      rw [hrooms, Dict.get?_erase_of_ne _ hne]
      exact h.covered r doc hdoc
    · rw [h.undirected (by simpa using hdir)] at hdoc
      cases hdoc

theorem Registry.Covered.of_eq (h : c.Covered setup) (hrooms : c'.rooms = c.rooms)
    (hpolicies : c'.policies = c.policies) : c'.Covered setup := by
  refine ⟨?_, ?_, ?_⟩
  · unfold Keyed
    rw [hrooms]
    exact h.keyed
  · rw [hpolicies]
    exact h.undirected
  · rw [hrooms, hpolicies]
    exact h.covered

theorem Registry.Covered.grown (h : c.Covered setup) {room' : Room}
    (hroom : c.rooms.get? room.roomId = some room) (hid : room'.roomId = room.roomId)
    (hmembers : ∀ p member, room.members.get? p = some member →
      ∃ member', room'.members.get? p = some member' ∧ member'.session = member.session)
    (hmuted : room'.muted = room.muted) (hexpiry : room'.expiresAtMs = room.expiresAtMs)
    (doc : PolicyDocument) (hdoc : c.policies.get? room'.roomId = some doc) : doc.Covered room' := by
  rw [hid] at hdoc
  obtain ⟨current, hcurrent, hcovered⟩ := h.covered _ doc hdoc
  rw [hroom, Option.some.injEq] at hcurrent
  rw [← hcurrent] at hcovered
  refine ⟨fun p session hp => ?_, fun p session hp hm => ?_, ?_⟩
  · obtain ⟨member, hmember, hsession⟩ := hcovered.members p session hp
    obtain ⟨member', hmember', heq⟩ := hmembers p member hmember
    exact ⟨member', hmember', heq.trans hsession⟩
  · exact hcovered.muted p session hp (hmuted ▸ hm)
  · rw [hexpiry]
    exact hcovered.expiry

theorem Effect.covered (he : Effect setup env op c c') (h : c.Covered setup) : c'.Covered setup := by
  cases he with
  | @opened _ session request room timer policies hnew habsent _ _ hpolicies =>
    refine h.store rfl ?_
    rcases hpolicies with hp | ⟨-, hp⟩
    · exact .inl hp
    · refine .inr (.inr ⟨hp, fun doc hdoc => ?_⟩)
      obtain ⟨current, hcurrent, -⟩ := h.covered _ doc hdoc
      rw [habsent] at hcurrent
      cases hcurrent
  | @abandoned _ session request habsent _ _ =>
    refine h.erase request.roomId ?_ rfl
    exact (Dict.erase_of_get?_eq_none habsent).symm
  | @joined _ session request room revision policies hadmission hpolicies =>
    refine h.store rfl ?_
    rcases hpolicies with hp | ⟨-, hp⟩
    · exact hp.kept
    · refine .inr (.inr ⟨hp, h.grown hadmission.current rfl (fun p member hmember => ?_) rfl rfl⟩)
      by_cases hp : request.participantId = p
      · subst hp
        exact ⟨request.member session, Dict.get?_set_self .., (hadmission.own member hmember).symm⟩
      · exact ⟨member, (Dict.get?_set_of_ne _ _ hp).trans hmember, rfl⟩
  | removed hremoval => exact h.store rfl (.inl rfl)
  | removalFailed hremoval _ => exact h.store rfl (.inr (.inl rfl))
  | cleared session _ => exact h.of_eq rfl rfl
  | @ended _ _ room sessions hroom _ _ _ =>
    exact h.erase room.roomId (Registry.forgetAll_rooms ..) (Registry.forgetAll_policies ..)
  | blocked hroom _ _ _ _ _ =>
    exact h.store rfl (.inr (.inr ⟨rfl, h.grown hroom rfl (fun p member hm => ⟨member, hm, rfl⟩) rfl rfl⟩))
  | marked _ _ _ _ _ hrewritten => exact h.store rfl hrewritten.kept
  | screened screen hroom =>
    exact h.store rfl (.inr (.inr ⟨rfl, h.grown hroom rfl (fun p member hm => ⟨member, hm, rfl⟩) rfl rfl⟩))

theorem Effects.covered (he : Effects setup env op c c') (h : c.Covered setup) : c'.Covered setup := by
  induction he with
  | refl => exact h
  | tail _ heffect ih => exact heffect.covered ih

end Effects

variable {setup : Setup}

theorem covered_restart {st : CallState} (metadata : SessionId → Option RoomId)
    (h : st.toRegistry.Covered setup) : (restart setup metadata st).toRegistry.Covered setup := by
  refine ⟨fun _ _ hroom => ?_, fun hdir => ?_, fun roomId doc hdoc => ?_⟩
  · cases hroom
  · simpa [restart, hdir] using h.undirected hdir
  · cases hdir : setup.policyDirectory with
    | true => simp [restart, hdir] at hdoc
    | false => simp [restart, hdir, h.undirected hdir] at hdoc

theorem covered_next {w : World} (event : Event) (h : w.call.toRegistry.Covered setup) :
    (w.next setup event).call.toRegistry.Covered setup := by
  rcases next_registry h.keyed event with ⟨views, metadata, -, hcall⟩ | heq | ⟨op, -, heffects⟩
  · rw [hcall]
    exact covered_restart metadata h
  · exact h.of_eq (congrArg Registry.rooms heq) (congrArg Registry.policies heq)
  · exact heffects.covered h

theorem covered_init (setup : Setup) : ({} : Registry).Covered setup := by
  refine ⟨fun _ _ hroom => ?_, fun _ _ => rfl, fun _ _ hdoc => ?_⟩
  · cases hroom
  · cases hdoc

theorem reachable_covered {ok : World → Event → Prop} {w : World} (h : (service setup).Reachable ok w) :
    w.call.toRegistry.Covered setup := by
  refine h.invariant (I := fun w => w.call.toRegistry.Covered setup) (fun w hw => ?_)
    fun w event w' hw _ hstep => ?_
  · rw [hw]
    exact covered_init setup
  · rw [hstep]
    exact covered_next event hw

/-- In every state of every run, whatever writes fail: a policy file belongs to an existing room,
lists only current members under their sessions, lists as muted every member of it that the room
mutes, and expires with the room. -/
theorem policies_never_exceed_rooms (setup : Setup) {w : World}
    (h : (service setup).Reachable System.anyStep w) :
    (∀ roomId doc, w.call.policies.get? roomId = some doc →
      ∃ room, w.call.rooms.get? roomId = some room ∧
        (∀ p session, doc.members.get? p = some session →
          ∃ member, room.members.get? p = some member ∧ member.session = session) ∧
        (∀ p session, doc.members.get? p = some session → p ∈ room.muted → p ∈ doc.muted) ∧
        doc.expiresAt = room.expiresAtMs) ∧
      ∀ roomId, w.call.rooms.get? roomId = none → w.call.policies.get? roomId = none := by
  have hcovered := reachable_covered h
  refine ⟨fun roomId doc hdoc => ?_, fun roomId habsent => ?_⟩
  · obtain ⟨room, hroom, hdoc⟩ := hcovered.covered roomId doc hdoc
    exact ⟨room, hroom, hdoc.members, hdoc.muted, hdoc.expiry⟩
  · rw [Option.eq_none_iff_forall_not_mem]
    intro doc hdoc
    obtain ⟨room, hroom, -⟩ := hcovered.covered roomId doc hdoc
    rw [habsent] at hroom
    cases hroom

theorem policies_never_exceed_rooms_opening :
    ∃ doc, (World.after Sample.setup {} Sample.opening).call.policies.get? "room" = some doc ∧
      ∃ room, (World.after Sample.setup {} Sample.opening).call.rooms.get? "room" = some room ∧
        doc.expiresAt = room.expiresAtMs := by
  have hreachable := reachable_after (.init rfl : (service Sample.setup).Reachable System.anyStep {})
    Sample.opening
  have hwritten : ((World.after Sample.setup {} Sample.opening).call.policies.get? "room").isSome := by
    decide +kernel
  obtain ⟨doc, hdoc⟩ := Option.isSome_iff_exists.1 hwritten
  obtain ⟨room, hroom, -, -, hexpiry⟩ := (policies_never_exceed_rooms Sample.setup hreachable).1 _ doc hdoc
  exact ⟨doc, hdoc, room, hroom, hexpiry⟩

end CallBackend.Call
