import CallBackend.Call.Audience

/-!
# The revision of a room's membership

A snapshot is computed at the end of the locked part of a handler, so it shows the room as the step
leaves it. The counter `revision` is raised by hand where members come, go or are muted. No step
changes what a snapshot shows of the members and leaves the counter as it is, unless the session of
a join cannot be persisted: the member is stored before that write, and the counter is raised after
it.
-/

namespace CallBackend.Call

open Exec

/-- The payloads of a plan, whether or not there is anyone to receive the broadcast. -/
def Plan.payloads (plan : Plan) : List Payload :=
  (plan.before ++ plan.after).map Prod.snd ++ plan.payload.toList

def World.snapshots (setup : Setup) (w : World) (event : Event) : List Snapshot :=
  match w.outcome setup event with
  | .ok plan => plan.payloads.filterMap Payload.snapshot?
  | .error _ => []

/-- The later snapshot has a greater revision, or the same one and the same membership. -/
def Snapshot.Precedes (s s' : Snapshot) : Prop :=
  s.revision < s'.revision ∨ s.revision = s'.revision ∧ s.members = s'.members ∧
    s.mutedParticipantIds = s'.mutedParticipantIds

theorem Snapshot.Precedes.refl (s : Snapshot) : s.Precedes s := .inr ⟨rfl, rfl, rfl⟩

theorem Snapshot.Precedes.trans {s s' s'' : Snapshot} (h : s.Precedes s') (h' : s'.Precedes s'') :
    s.Precedes s'' := by
  rcases h with h | ⟨hrevision, hmembers, hmuted⟩
  · rcases h' with h' | ⟨hrevision', -⟩
    · exact .inl (h.trans h')
    · exact .inl (h.trans_eq hrevision')
  · rcases h' with h' | ⟨hrevision', hmembers', hmuted'⟩
    · exact .inl (hrevision.trans_lt h')
    · exact .inr ⟨hrevision.trans hrevision', hmembers.trans hmembers', hmuted.trans hmuted'⟩

/-! ### One step -/

/-- Every room was there before, and its snapshot follows the one it had. -/
def Registry.Follows (c c' : Registry) : Prop :=
  c.Evolves (fun room room' => room.snapshot.Precedes room'.snapshot) c'

section Steps

variable {setup : Setup} {env : CallEnv} {st : CallState} {op : Operation} {c c' : Registry}
  {session : SessionId} {room room' : Room}

theorem Registry.Follows.refl (c : Registry) : c.Follows c := fun _ room h => ⟨room, h, .refl _⟩

theorem Effects.follows (he : Effects setup env op c c') (hcreate : ∀ s request, op ≠ .create s request)
    (hjoin : ∀ s request, op ≠ .join s request) : c.Follows c' := by
  induction he with
  | refl => exact .refl c
  | tail _ heffect ih =>
    refine Registry.Evolves.trans (fun _ _ _ => Snapshot.Precedes.trans) ih ?_
    exact heffect.evolves hcreate (fun _ => .refl _) (fun _ _ _ _ h => absurd h (hjoin _ _))
      (fun _ _ _ _ => .inl (Nat.lt_succ_self _)) (fun _ _ => .refl _)
      (fun _ _ _ => .inl (Nat.lt_succ_self _)) fun _ _ => .refl _

theorem Effects.create_same {request : CreateRequest} {roomId : RoomId}
    (he : Effects setup env (.create session request) c c') (h : c.rooms.get? roomId = some room) :
    c'.rooms.get? roomId = some room := by
  induction he with
  | refl => exact h
  | tail _ heffect ih => exact heffect.create_same ih

/-- A member who joins again with the same keys is shown as before. -/
theorem Room.precedes_joined (room : Room) (request : JoinRequest) (session : SessionId) :
    room.snapshot.Precedes (room.joined request session).snapshot := by
  unfold Room.joined
  split_ifs with hchanged
  · exact .inl (Nat.lt_succ_self _)
  rw [Room.changedBy, Bool.not_eq_true, Bool.not_eq_false', Option.any_eq_true] at hchanged
  obtain ⟨member, hmember, hsame⟩ := hchanged
  obtain ⟨hid, hagreement, hsigning⟩ := of_decide_eq_true hsame
  have hkeys : (room.admitting request session).members.keys = room.members.keys := by
    refine (Dict.keys_assign ..).trans (if_pos ?_)
    exact (room.members.mem_keys_iff _).2 ⟨member, hmember⟩
  refine .inr ⟨rfl, ?_, ?_⟩
  · change List.filterMap _ _ = List.filterMap _ (List.insertionSort _ _)
    rw [hkeys]
    refine List.filterMap_congr fun p _ => ?_
    change _ = ((room.members.set _ _).get? p).map _
    rw [Dict.get?_set]
    split_ifs with hp
    · rw [← hp, hmember, Option.map_some, Option.map_some, Member.publicValue, hid, hagreement, hsigning]
      rfl
    · rfl
  · change room.mutedMembers = sorted (room.muted ∩ (room.admitting request session).members.keys.toFinset)
    rw [hkeys]
    rfl

theorem follows_joinLocked (hkeyed : st.toRegistry.Keyed) (session : SessionId) (request : JoinRequest) :
    wp (joinLocked setup session request) env st (fun _ st' => st.toRegistry.Follows st'.toRegistry)
      fun e st' => e ≠ .databaseError → st.toRegistry.Follows st'.toRegistry := by
  refine wp_joinLocked hkeyed (fun _ _ => .refl _) (fun _ => .refl _) (.refl _) fun room hadmission => ?_
  have hfollows : ∀ c' : Registry, c'.rooms = st.rooms.set (room.joined request session).roomId
      (room.joined request session) → st.toRegistry.Follows c' := by
    intro c' hrooms
    refine Registry.Evolves.store (fun _ => .refl _) hadmission.current hrooms ?_ (room.precedes_joined request session)
    obtain ⟨revision, hrevision⟩ := room.joined_eq request session
    rw [hrevision]
    rfl
  exact ⟨fun _ h => hfollows _ (by rw [h]; rfl), fun _ _ h _ => hfollows _ (by rw [h]; rfl),
    fun _ _ _ hne => absurd rfl hne⟩

variable {w : World} {event : Event} {roomId : RoomId}

theorem precedes_next (hkeyed : w.call.toRegistry.Keyed)
    (hpersisted : w.outcome setup event ≠ .error .databaseError)
    (hroom : w.call.rooms.get? roomId = some room)
    (hroom' : (w.next setup event).call.rooms.get? roomId = some room') :
    room.snapshot.Precedes room'.snapshot := by
  have hof : w.call.toRegistry.Follows (w.next setup event).call.toRegistry →
      room.snapshot.Precedes room'.snapshot := by
    intro hfollows
    obtain ⟨found, hfound, hprecedes⟩ := hfollows roomId room' hroom'
    rwa [Option.some.inj (hroom.symm.trans hfound)]
  rcases next_registry hkeyed event with ⟨views, metadata, -, hcall⟩ | hsame | ⟨op, hop, heffects⟩
  · rw [hcall] at hroom'
    cases hroom'
  · exact hof (hsame ▸ .refl _)
  · cases op with
    | create session request =>
      rw [Option.some.inj ((heffects.create_same hroom).symm.trans hroom')]
      exact .refl _
    | join session request =>
      rcases served (run_join hop) (follows_joinLocked hkeyed session request) with
        ⟨plan, -, hfollows⟩ | ⟨e, houtcome, hfollows⟩
      · exact hof hfollows
      · exact hof (hfollows fun he => hpersisted (he ▸ houtcome))
    | depart session => exact hof (heffects.follows nofun nofun)
    | moderate session request => exact hof (heffects.follows nofun nofun)
    | screen => exact hof (heffects.follows nofun nofun)
    | expire roomId => exact hof (heffects.follows nofun nofun)

end Steps

/-! ### Runs -/

/-- No session fails to be persisted, and the room is there after the event. -/
def Lives (setup : Setup) (roomId : RoomId) (w : World) (event : Event) : Prop :=
  w.outcome setup event ≠ .error .databaseError ∧ (w.next setup event).call.rooms.get? roomId ≠ none

section Runs

variable {setup : Setup} {w : World} {event : Event} {roomId : RoomId}

theorem precedes_after (hreach : (service setup).Reachable System.anyStep w) {events : List Event} {room : Room}
    (hroom : w.call.rooms.get? roomId = some room) (hlives : w.Meets setup (Lives setup roomId) events) :
    ∃ room', (w.after setup events).call.rooms.get? roomId = some room' ∧
      room.snapshot.Precedes room'.snapshot := by
  induction events generalizing w room with
  | nil => exact ⟨room, hroom, .refl _⟩
  | cons event rest ih =>
    obtain ⟨⟨hpersisted, hthere⟩, hrest⟩ := hlives
    obtain ⟨room₁, hroom₁⟩ := Option.ne_none_iff_exists'.1 hthere
    obtain ⟨room', hroom', hlater⟩ := ih (.step hreach trivial rfl) hroom₁ hrest
    exact ⟨room', hroom',
      (precedes_next (reachable_covered hreach).keyed hpersisted hroom hroom₁).trans hlater⟩

/-- A snapshot shows a room as the event leaves it. -/
theorem room_of_snapshot (hreach : (service setup).Reachable System.anyStep w) {snapshot : Snapshot}
    (h : snapshot ∈ w.snapshots setup event) :
    ∃ room, (w.next setup event).call.rooms.get? snapshot.roomId = some room ∧ snapshot = room.snapshot := by
  cases houtcome : w.outcome setup event with
  | error e =>
    rw [World.snapshots, houtcome] at h
    cases h
  | ok plan =>
    rw [World.snapshots, houtcome] at h
    obtain ⟨payload, hpayload, hsnapshot⟩ := List.mem_filterMap.1 h
    have hproper := proper_next hreach houtcome
    suffices hroom : ∃ room, (w.next setup event).call.rooms.get? room.roomId = some room ∧
        snapshot = room.snapshot by
      obtain ⟨room, hroom, rfl⟩ := hroom
      exact ⟨room, hroom, rfl⟩
    rcases List.mem_append.1 hpayload with hpayload | hpayload
    · obtain ⟨s, hs, rfl⟩ := List.mem_map.1 hpayload
      exact (hproper.single s hs).2 snapshot hsnapshot
    · have haddressed := hproper.addressed
      rw [Plan.Addressed, Option.mem_toList.1 hpayload] at haddressed
      cases payload with
      | callMembership _ =>
        obtain ⟨room, hroom, hshown, -⟩ := haddressed
        exact ⟨room, hroom, (Option.some.inj hsnapshot).symm.trans hshown⟩
      | callCreated _ _ => exact haddressed.elim
      | callJoined _ _ => exact haddressed.elim
      | _ => cases hsnapshot

/-- The revision identifies the membership. As long as a room lives and sessions are persisted, no
snapshot of it has a smaller revision than an earlier one, and snapshots with the same revision show the
same members, with their keys, and the same muted participants. -/
theorem membership_revision_identifies (hreach : (service setup).Reachable System.anyStep w)
    {first last : Event} {between : List Event}
    (hlives : w.Meets setup (Lives setup roomId) (first :: between))
    (hlast : Lives setup roomId (w.after setup (first :: between)) last) {s s' : Snapshot}
    (hs : s ∈ w.snapshots setup first)
    (hs' : s' ∈ w.snapshots setup first ∨ s' ∈ (w.after setup (first :: between)).snapshots setup last)
    (hroom : s.roomId = roomId) (hroom' : s'.roomId = roomId) :
    s.revision ≤ s'.revision ∧ (s.revision = s'.revision → s.members = s'.members ∧
      s.mutedParticipantIds = s'.mutedParticipantIds) := by
  have hprecedes : s.Precedes s' := by
    obtain ⟨room, hthere, rfl⟩ := room_of_snapshot hreach hs
    rw [hroom] at hthere
    rcases hs' with hs' | hs'
    · obtain ⟨room', hthere', rfl⟩ := room_of_snapshot hreach hs'
      rw [hroom', hthere] at hthere'
      rw [Option.some.inj hthere']
      exact .refl _
    · have hreach' := reachable_after hreach (first :: between)
      obtain ⟨room', hthere', rfl⟩ := room_of_snapshot hreach' hs'
      rw [hroom'] at hthere'
      obtain ⟨room₁, hroom₁, hearlier⟩ := precedes_after (.step hreach trivial rfl) hthere hlives.2
      exact hearlier.trans (precedes_next (reachable_covered hreach').keyed hlast.1 hroom₁ hthere')
  rcases hprecedes with hlt | ⟨heq, hmembers, hmuted⟩
  · exact ⟨hlt.le, fun heq => absurd heq hlt.ne⟩
  · exact ⟨heq.le, fun _ => ⟨hmembers, hmuted⟩⟩

end Runs

theorem lives_of_isSome {setup : Setup} {roomId : RoomId} {w : World} {event : Event}
    (h : ((w.outcome setup event).toOption.isSome ∧ ((w.next setup event).call.rooms.get? roomId).isSome)) :
    Lives setup roomId w event := by
  refine ⟨fun hfailed => ?_, Option.isSome_iff_ne_none.1 h.2⟩
  rw [hfailed] at h
  cases h.1

open Sample in
/-- Bob joins the room that Alice has opened. -/
theorem membership_revision_identifies_joining :
    let w := World.after setup {} [opened "host", authenticated "host" "alice"]
    let w' := w.after setup [Sample.create "host", opened "guest", authenticated "guest" "bob"]
    ∃ s ∈ w.snapshots setup (Sample.create "host"),
      ∃ s' ∈ w'.snapshots setup (Sample.join "guest"), s.revision ≤ s'.revision := by
  intro w w'
  have hfirst : (w.snapshots setup (Sample.create "host")).map Snapshot.roomId = ["room"] := by
    decide +kernel
  have hlast : "room" ∈ (w'.snapshots setup (Sample.join "guest")).map Snapshot.roomId := by
    decide +kernel
  obtain ⟨s, hs, hroom⟩ := List.mem_map.1 (hfirst ▸ List.mem_singleton_self _)
  obtain ⟨s', hs', hroom'⟩ := List.mem_map.1 hlast
  refine ⟨s, hs, s', hs', (membership_revision_identifies (reachable_after (.init rfl) _) ?_
    (lives_of_isSome (by decide +kernel)) hs (.inr hs') hroom hroom').1⟩
  exact ⟨lives_of_isSome (by decide +kernel), lives_of_isSome (by decide +kernel),
    lives_of_isSome (by decide +kernel), trivial⟩

end CallBackend.Call
