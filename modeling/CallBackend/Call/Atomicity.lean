import CallBackend.Call.Registry

/-!
# Failing policy writes

`_write_policy` is called after the registry has been changed. When it raises, `create` takes its
changes back, but `join` does not, and a removal stops before it has cleared the metadata of the
session. From a state of the registry invariant, `atomic_iff` says which operations are atomic all the
same: a `create`, a `join` that repeats a membership, and a moderator's removal whose first policy
write succeeds and whose second one fails.
-/

namespace CallBackend.Call

open Exec Function

/-- The rooms, the index and the metadata are as before. -/
structure Registry.Unchanged (c c' : Registry) : Prop where
  rooms : c'.rooms = c.rooms
  sessionRooms : c'.sessionRooms = c.sessionRooms
  callRoomId : c'.callRoomId = c.callRoomId

structure Registry.Traceless (c : Registry) (session : SessionId) : Prop where
  free : c.Free session
  unindexed : c.sessionRooms.get? session = none
  unrecorded : c.callRoomId session = none

/-- What an operation owes when its policy write fails: one that admits leaves everything as it was,
one that removes leaves no trace of the session. -/
def Operation.Atomic (op : Operation) (c c' : Registry) : Prop :=
  match op with
  | .create _ _ => c.Unchanged c'
  | .join _ _ => c.Unchanged c'
  | .depart session => c'.Traceless session
  | .moderate _ request => request.operation = .remove → ∀ member,
      c.Holds request.roomId request.target member → c'.Traceless member.session
  | _ => True

/-- The operation is a `create`, or a `join` that repeats a membership, or a removal whose first write
succeeds. -/
def Operation.Spared (op : Operation) (env : CallEnv) (st : CallState) : Prop :=
  match op with
  | .join session request =>
    st.toRegistry.Holds request.roomId request.participantId (request.member session)
  | .depart _ => False
  | .moderate _ request => request.operation = .remove → ∀ member,
      st.toRegistry.Holds request.roomId request.target member → env.writeSucceeds st.writes = true
  | _ => True

section Ledger

variable {setup : Setup} {env : CallEnv} {st : CallState}

/-- However it ends, the computation has had no policy write fail. -/
def Unfailing (env : CallEnv) (st : CallState) {α : Type} (m : CallM α) : Prop :=
  wp m env st (fun _ st' => st'.policyFailures = st.policyFailures)
    (fun _ st' => st'.policyFailures = st.policyFailures)

theorem unfailing_persist (session : SessionId) : Unfailing env st (persist session) := by
  unfold Unfailing persist attemptWrite
  simp only [wp_do, wp_ite, wp_ensure]
  simp

theorem unfailing_bindSession (session : SessionId) (roomId : RoomId) :
    Unfailing env st (bindSession session roomId) := by
  unfold Unfailing bindSession setCallRoomId
  simp only [wp_do]
  exact unfailing_persist session

theorem wp_bindSession_counted (session : SessionId) (roomId : RoomId) :
    wp (bindSession session roomId) env st
      (fun _ st' => st'.toRegistry = st.toRegistry.bind session roomId ∧
        st'.policyFailures = st.policyFailures)
      (fun _ st' => st'.policyFailures = st.policyFailures) := by
  have hbind : wp (bindSession session roomId) env st
      (fun _ st' => st'.toRegistry = st.toRegistry.bind session roomId) (fun _ _ => True) :=
    wp_bindSession (fun _ h => h) fun _ _ _ => trivial
  exact wp_mono (wp_and hbind (unfailing_bindSession session roomId)) (fun _ _ h => h) fun _ _ h => h.2

theorem unfailing_clearSessionMetadata (session : SessionId) :
    Unfailing env st (clearSessionMetadata session) := by
  unfold Unfailing clearSessionMetadata setCallRoomId
  simp only [wp_do]
  exact unfailing_persist session

theorem unfailing_clearScreenLocked (room : Room) : Unfailing env st (clearScreenLocked room) := by
  unfold clearScreenLocked
  cases room.screenTimer <;> exact rfl

theorem wp_clearSessionMetadata_counted (session : SessionId) :
    wp (clearSessionMetadata session) env st
      (fun _ st' => st'.toRegistry = { st.toRegistry with
        callRoomId := update st.callRoomId session none } ∧
        st'.policyFailures = st.policyFailures)
      (fun _ st' => st'.policyFailures = st.policyFailures) := by
  have hclear : wp (clearSessionMetadata session) env st
      (fun _ st' => st'.toRegistry = { st.toRegistry with
        callRoomId := update st.callRoomId session none }) (fun _ _ => True) :=
    wp_clearSessionMetadata (fun _ h => h) fun _ _ _ => trivial
  exact wp_mono (wp_and hclear (unfailing_clearSessionMetadata session)) (fun _ _ h => h) fun _ _ h => h.2

theorem unfailing_cancelTimer (timer : Option TimerId) : Unfailing env st (cancelTimer timer) := by
  cases timer <;> exact rfl

theorem unfailing_unlinkPolicy (roomId : RoomId) : Unfailing env st (unlinkPolicy setup roomId) := by
  unfold Unfailing unlinkPolicy
  rw [wp_ite]
  exact ⟨fun _ => rfl, fun _ => rfl⟩

theorem unfailing_pure {α : Type} (a : α) : Unfailing env st (pure a) := rfl

theorem Unfailing.bind {α β : Type} {m : CallM α} {f : α → CallM β} (hm : Unfailing env st m)
    (hf : ∀ a st', st'.policyFailures = st.policyFailures → Unfailing env st' (f a)) :
    Unfailing env st (m >>= f) := by
  unfold Unfailing
  rw [wp_bind]
  refine wp_mono hm (fun a st' h => ?_) fun _ _ h => h
  exact wp_mono (hf a st' h) (fun _ _ h' => h'.trans h) fun _ _ h' => h'.trans h

theorem unfailing_endRoomLocked (room : Room) : Unfailing env st (endRoomLocked setup room) := by
  unfold endRoomLocked
  refine .bind (unfailing_clearScreenLocked room) fun room' st₁ _ => .bind rfl fun _ st₂ _ => .bind (unfailing_unlinkPolicy _) fun _ st₃ _ =>
    .bind (unfailing_cancelTimer _) fun _ st₄ _ => .bind ?_ fun _ _ _ => unfailing_pure _
  refine wp_forEach (fun member _ st₅ h₅ => ?_) rfl
  have hstep : Unfailing env st₅ (do
      popSessionRoom member.session
      setCallRoomId member.session none
      persist member.session) := .bind rfl fun _ _ _ => .bind rfl fun _ _ _ => unfailing_persist _
  exact wp_mono hstep (fun _ _ h => h.trans h₅) fun _ _ h => h.trans h₅

theorem wp_releaseScreen_writes (participantId : ParticipantId) (room : Room) :
    wp (releaseScreen participantId room) env st
      (fun _ st' => st'.writes = st.writes ∧ st'.policyFailures = st.policyFailures ∧
        st'.callRoomId = st.callRoomId) (fun _ _ => False) := by
  unfold releaseScreen
  rw [wp_ite]
  refine ⟨fun _ => ?_, fun _ => ⟨rfl, rfl, rfl⟩⟩
  unfold clearScreenLocked
  cases room.screenTimer <;> exact ⟨rfl, rfl, rfl⟩

theorem wp_writePolicy_counted (room : Room) :
    wp (writePolicy setup room) env st
      (fun _ st' => st'.policyFailures = st.policyFailures ∧
        (setup.policyDirectory = true → env.writeSucceeds st.writes = true))
      (fun error st' => error = .osError ∧ setup.policyDirectory = true ∧
        env.writeSucceeds st.writes = false ∧
        ∃ policies, st'.toRegistry = { st.toRegistry with policies }) := by
  unfold writePolicy attemptWrite
  simp only [wp_do, wp_ite]
  refine ⟨fun hdir => ⟨trivial, fun h => ?_⟩, fun hdir => ⟨fun hw => ⟨trivial, fun _ => hw⟩, fun hw => ?_⟩⟩
  · simp [h] at hdir
  · exact ⟨trivial, by simpa using hdir, by simpa using hw, _, rfl⟩

theorem wp_removeMemberLocked_counted (session : SessionId) (room : Room) :
    wp (removeMemberLocked setup session room) env st
      (fun update st' => st'.policyFailures = st.policyFailures ∧
        (update.isSome → setup.policyDirectory = true → env.writeSucceeds st.writes = true))
      (fun _ st' => env.writeSucceeds st.writes = false ∧ st'.callRoomId = st.callRoomId) := by
  unfold removeMemberLocked
  simp only [wp_do]
  cases (env.sessions session).authenticatedUser with
  | none => exact ⟨rfl, fun h => by cases h⟩
  | some p =>
    simp only
    cases room.members.get? p with
    | none => exact ⟨rfl, fun h => by cases h⟩
    | some member =>
      simp only [wp_ite, wp_do]
      refine ⟨fun _ => ?_, fun _ => ⟨trivial, fun h => by cases h⟩⟩
      simp only [dropMember, putRoom, popSessionRoom, wp_do]
      refine wp_mono (wp_releaseScreen_writes p _) (fun room' st₁ h₁ => ?_) fun _ _ h => h.elim
      refine wp_mono (wp_writePolicy_counted _) (fun _ st₂ h₂ => ?_) fun _ st₂ h₂ => ?_
      · exact ⟨h₂.1.trans h₁.2.1, fun _ hdir => h₁.1 ▸ h₂.2 hdir⟩
      · obtain ⟨-, -, hw, policies, hst₂⟩ := h₂
        exact ⟨h₁.1 ▸ hw, by rw [hst₂]; exact h₁.2.2⟩

end Ledger

/-! ### The operations -/

section Operations

variable {setup : Setup} {env : CallEnv} {st : CallState}

def FailsWith (env : CallEnv) (st : CallState) {α : Type} (p : CallState → Prop) (m : CallM α) : Prop :=
  wp m env st (fun _ st' => st'.policyFailures ≠ st.policyFailures → p st')
    (fun _ st' => st'.policyFailures ≠ st.policyFailures → p st')

theorem Unfailing.failsWith {α : Type} {m : CallM α} (h : Unfailing env st m) (p : CallState → Prop) :
    FailsWith env st p m :=
  wp_mono h (fun _ _ h hne => absurd h hne) fun _ _ h hne => absurd h hne

theorem failsWith_createLocked (session : SessionId) (request : CreateRequest)
    (hsound : st.toRegistry.Sound env.sessions) :
    FailsWith env st (fun st' => st.toRegistry.Unchanged st'.toRegistry)
      (createLocked setup session request) := by
  unfold FailsWith createLocked
  simp only [wp_do, wp_ensure, newTimer, putRoom]
  refine ⟨fun hfree => ⟨fun habsent => ⟨fun _ => ?_, fun _ hne => absurd rfl hne⟩,
    fun _ hne => absurd rfl hne⟩, fun _ hne => absurd rfl hne⟩
  have hunrecorded : st.callRoomId session = none := by
    rw [Option.eq_none_iff_forall_ne_some]
    intro roomId hrecorded
    rw [(hsound.recorded session roomId).2 hrecorded] at hfree
    cases hfree
  refine wp_mono (wp_bindSession_counted session request.roomId) (fun _ st₂ h₂ => ?_)
    fun _ _ h hne => absurd h hne
  rw [wp_rescue]
  refine wp_mono (wp_writePolicy_counted _) (fun _ st₃ h₃ => ?_) fun error st₃ h₃ => ?_
  · simp only [startTimer, updateTimer, wp_do]
    exact fun hne => absurd (h₃.1.trans h₂.2) hne
  · obtain ⟨rfl, -, -, policies, h₃⟩ := h₃
    simp only [Exn.isOsError, if_true, popSessionRoom, wp_do]
    have hunchanged : ∀ st₄ : CallState, st₄.toRegistry = { st₃.toRegistry with
        rooms := st₃.rooms.erase request.roomId
        sessionRooms := st₃.sessionRooms.erase session
        callRoomId := update st₃.callRoomId session none } →
        st.toRegistry.Unchanged st₄.toRegistry := by
      intro st₄ h₄
      rw [h₄, h₃, h₂.1]
      refine ⟨?_, ?_, ?_⟩
      · change (st.rooms.set request.roomId _).erase request.roomId = st.rooms
        rw [Dict.erase_set, Dict.erase_of_get?_eq_none habsent]
      · change (st.sessionRooms.set session _).erase session = st.sessionRooms
        rw [Dict.erase_set, Dict.erase_of_get?_eq_none hfree]
      · change update (update st.callRoomId session _) session none = st.callRoomId
        rw [update_idem, ← hunrecorded, update_eq_self]
    exact wp_clearSessionMetadata (fun st₄ h₄ _ => hunchanged st₄ h₄) fun st₄ _ h₄ _ => hunchanged st₄ h₄

variable {room : Room} {session : SessionId}

theorem Room.admitting_of_member {request : JoinRequest}
    (h : room.members.get? request.participantId = some (request.member session)) :
    room.admitting request session = room := by
  unfold Room.admitting
  rw [Dict.set_of_get?_eq_some h]

/-- Storing an admitted member and binding its session changes nothing exactly if it is a member. -/
theorem unchanged_join_iff {c c' : Registry} {request : JoinRequest} (hsound : c.Sound env.sessions)
    (hroom : c.rooms.get? request.roomId = some room) {room' : Room}
    (hroom' : room' = if !((room.members.get? request.participantId).any
        (·.same (request.member session))) then (room.admitting request session).nextRevision
      else room.admitting request session) (hrooms : c'.rooms = c.rooms.set request.roomId room')
    (hindex : c'.sessionRooms = c.sessionRooms.set session request.roomId)
    (hmeta : c'.callRoomId = update c.callRoomId session (some request.roomId)) :
    c.Unchanged c' ↔ c.Holds request.roomId request.participantId (request.member session) := by
  constructor
  · intro hunchanged
    have hsame : some room' = some room := by
      rw [← hroom, ← hunchanged.rooms, hrooms, Dict.get?_set_self]
    refine ⟨room, hroom, ?_⟩
    rw [← Option.some.inj hsame, hroom']
    split_ifs <;> exact Dict.get?_set_self ..
  · intro hholds
    obtain ⟨found, hfound, hmember⟩ := id hholds
    rw [hroom, Option.some.injEq] at hfound
    rw [← hfound] at hmember
    have hindexed : c.sessionRooms.get? session = some request.roomId :=
      hsound.linked.indexed _ _ _ hholds
    have hstored : room' = room := by
      rw [hroom', hmember, Room.admitting_of_member hmember]
      simp [Member.same]
    refine ⟨?_, ?_, ?_⟩
    · rw [hrooms, hstored, Dict.set_of_get?_eq_some hroom]
    · rw [hindex, Dict.set_of_get?_eq_some hindexed]
    · rw [hmeta, ← (hsound.recorded _ _).1 hindexed, update_eq_self]

theorem failsWith_joinLocked (session : SessionId) (request : JoinRequest)
    (hsound : st.toRegistry.Sound env.sessions) :
    FailsWith env st (fun st' => st.toRegistry.Unchanged st'.toRegistry ↔
        st.toRegistry.Holds request.roomId request.participantId (request.member session))
      (joinLocked setup session request) := by
  unfold FailsWith joinLocked
  simp only [wp_do, wp_ensure]
  refine ⟨fun hfree => ?_, fun _ hne => absurd rfl hne⟩
  cases hroom : st.rooms.get? request.roomId with
  | none => exact fun hne => absurd rfl hne
  | some room =>
    have hid : room.roomId = request.roomId := hsound.keyed _ _ hroom
    simp only [wp_ite, wp_do, wp_ensure]
    refine ⟨fun _ hne => absurd rfl hne, fun _ => ⟨fun _ => ⟨fun _ hne => absurd rfl hne, fun _ => ?_⟩,
      fun _ hne => absurd rfl hne⟩⟩
    unfold admitMember
    simp only [wp_do, wp_ensure, putRoom]
    refine ⟨fun hown => ⟨fun _ => ?_, fun _ hne => absurd rfl hne⟩, fun _ hne => absurd rfl hne⟩
    refine wp_mono (wp_bindSession_counted session request.roomId) (fun _ st₁ h₁ => ?_)
      fun _ _ h hne => absurd h hne
    refine wp_mono (wp_writePolicy_counted _) (fun _ st₂ h₂ hne => absurd (h₂.1.trans h₁.2) hne)
      fun _ st₂ h₂ _ => ?_
    obtain ⟨-, -, -, policies, h₂⟩ := h₂
    refine unchanged_join_iff hsound hroom rfl ?_ ?_ ?_
    · rw [h₂, h₁.1]
      change (st.rooms.set _ _).set _ _ = _
      rw [← hid]
      split_ifs <;> exact Dict.set_set ..
    · rw [h₂, h₁.1]
      rfl
    · rw [h₂, h₁.1]
      rfl

theorem failsWith_departLocked {user : Option ParticipantId} {reason : EndReason}
    (hrecorded : st.callRoomId session ≠ none) :
    FailsWith env st (fun st' => ¬st'.toRegistry.Traceless session)
      (departLocked setup session user room reason) := by
  unfold departLocked
  split_ifs
  · exact Unfailing.failsWith (.bind (unfailing_endRoomLocked room) fun _ _ _ =>
      .bind (unfailing_clearSessionMetadata session) fun _ _ _ => unfailing_pure _) _
  · unfold FailsWith
    simp only [wp_do]
    refine wp_mono (wp_removeMemberLocked_counted session room) (fun _ st₁ h₁ => ?_) fun _ st₁ h₁ _ => ?_
    · exact wp_mono (unfailing_clearSessionMetadata session)
        (fun _ _ h hne => absurd (h.trans h₁.1) hne) fun _ _ h hne => absurd (h.trans h₁.1) hne
    · intro htraceless
      rw [← h₁.2] at hrecorded
      exact hrecorded htraceless.unrecorded

theorem failsWith_leaveLocked {request : LeaveRequest} (hsound : st.toRegistry.Sound env.sessions) :
    FailsWith env st (fun st' => ¬st'.toRegistry.Traceless session)
      (leaveLocked setup session request) := by
  unfold FailsWith leaveLocked
  simp only [wp_do, wp_ensure, wp_require]
  refine ⟨fun hindexed => ⟨fun room _ => ?_, fun _ hne => absurd rfl hne⟩, fun _ hne => absurd rfl hne⟩
  refine failsWith_departLocked ?_
  rw [(hsound.recorded session request.roomId).1 hindexed]
  simp

theorem failsWith_disconnected (hsound : st.toRegistry.Sound env.sessions) :
    FailsWith env st (fun st' => ¬st'.toRegistry.Traceless session) (disconnected setup session) := by
  unfold FailsWith disconnected
  simp only [wp_do]
  cases hindexed : st.sessionRooms.get? session with
  | none => exact fun hne => absurd rfl hne
  | some roomId =>
    cases hroom : st.rooms.get? roomId with
    | none =>
      simp only [Option.bind_some, hroom]
      exact fun hne => absurd rfl hne
    | some room =>
      simp only [Option.bind_some, hroom, wp_do]
      refine failsWith_departLocked ?_
      rw [(hsound.recorded session roomId).1 hindexed]
      simp

variable {member : Member}

/-- A room stored without its only member in the session, and the session forgotten. -/
theorem traceless_of_removed {c c' : Registry} {p : ParticipantId} (hsound : c.Sound env.sessions)
    (hroom : c.rooms.get? room.roomId = some room) (hmember : room.members.get? p = some member)
    (hsession : member.session = session) (hstored : ∃ room', c'.rooms = c.rooms.set room.roomId room' ∧
      room'.members = room.members.erase p) (hindex : c'.sessionRooms = c.sessionRooms.erase session)
    (hmeta : c'.callRoomId session = none) : c'.Traceless session := by
  obtain ⟨room', hrooms, hmembers⟩ := hstored
  refine ⟨fun roomId q m ⟨current, hcurrent, hm⟩ hsame => ?_, ?_, hmeta⟩
  · have hown : c.Holds room.roomId p member := ⟨room, hroom, hmember⟩
    rw [hrooms, Dict.get?_set] at hcurrent
    split_ifs at hcurrent with hid
    · rw [← Option.some.inj hcurrent, hmembers] at hm
      obtain ⟨hne, hm⟩ := Dict.get?_erase_eq_some hm
      exact hne (hsound.unique hown ⟨room, hroom, hm⟩ (hsession.trans hsame.symm)).2
    · exact hid (hsound.unique hown ⟨current, hcurrent, hm⟩ (hsession.trans hsame.symm)).1
  · rw [hindex]
    exact Dict.get?_erase_self ..

theorem wp_removeMemberLocked_own {p : ParticipantId}
    (huser : (env.sessions session).authenticatedUser = some p)
    (hmember : room.members.get? p = some member) (hsession : member.session = session) :
    wp (removeMemberLocked setup session room) env st
      (fun update st' => ∃ screen, update = some (room.depart p screen) ∧
        st'.rooms = st.rooms.set room.roomId (room.depart p screen) ∧
        st'.sessionRooms = st.sessionRooms.erase session) (fun _ _ => True) := by
  refine wp_removeMemberLocked (fun hun => absurd hsession (hun p member huser hmember))
    (fun q _ screen st' hq _ _ h => ?_) fun _ _ _ _ _ _ _ _ _ => trivial
  rw [huser, Option.some.injEq] at hq
  subst hq
  refine ⟨screen, rfl, ?_, ?_⟩
  · rw [h]
    rfl
  · rw [h]

/-- A removal that has a policy write fail leaves no trace of the member exactly if it was the
second. -/
theorem failsWith_moderateLocked {request : ModerateRequest} (hsound : st.toRegistry.Sound env.sessions)
    (hop : request.operation = .remove)
    (hmember : st.toRegistry.Holds request.roomId request.target member) :
    FailsWith env st (fun st' => st'.toRegistry.Traceless member.session ↔
      env.writeSucceeds st.writes = true) (moderateLocked setup session request) := by
  have huser := (hsound.own _ _ _ hmember).2
  have hrecorded : st.callRoomId member.session = some request.roomId :=
    (hsound.recorded _ _).1 (hsound.linked.indexed _ _ _ hmember)
  refine wp_moderateLocked (fun _ hne => absurd rfl hne) (fun _ _ _ _ hne => absurd rfl hne)
    fun room hroom _ => ?_
  obtain ⟨found, hfound, htarget⟩ := hmember
  rw [hroom, Option.some.injEq] at hfound
  rw [← hfound] at htarget
  have hid : room.roomId = request.roomId := hsound.keyed _ _ hroom
  rw [← hid] at hroom
  simp only [moderateRoom, hop, wp_do, wp_ensure, putRoom]
  refine ⟨fun _ => ⟨fun _ => ?_, fun _ hne => absurd rfl hne⟩, fun _ hne => absurd rfl hne⟩
  unfold evictTarget
  rw [show (room.withBlocked (insert request.target room.blocked)).members.get? request.target =
    some member from htarget]
  simp only [wp_do]
  refine wp_mono (wp_and (wp_removeMemberLocked_counted member.session _)
    (wp_removeMemberLocked_own huser htarget rfl)) (fun update st₁ h₁ => ?_) fun _ st₁ h₁ _ => ?_
  · obtain ⟨⟨hfailures, hfirst⟩, screen, hupdate, hrooms, hindex⟩ := h₁
    refine wp_mono (wp_clearSessionMetadata_counted member.session) (fun _ st₂ h₂ => ?_)
      fun _ _ h hne => absurd (h.trans hfailures) hne
    simp only [publishModeration, putRoom, wp_do]
    refine wp_mono (wp_writePolicy_counted _) (fun _ st₃ h₃ hne => ?_) fun _ st₃ h₃ _ => ?_
    · exact absurd (h₃.1.trans (h₂.2.trans hfailures)) hne
    · obtain ⟨-, hdir, -, policies, h₃⟩ := h₃
      rw [hupdate] at hfirst
      simp only [hfirst rfl hdir, iff_true]
      rw [hupdate] at h₃
      refine traceless_of_removed hsound hroom htarget rfl
        ⟨(((room.withBlocked (insert request.target room.blocked)).depart request.target
          screen).withMuted (room.muted.erase request.target)).nextRevision, ?_, rfl⟩ ?_ ?_
      · rw [h₃]
        change st₂.rooms.set room.roomId _ = _
        rw [h₂.1]
        change st₁.rooms.set room.roomId _ = _
        rw [hrooms]
        change ((st.rooms.set room.roomId _).set room.roomId _).set room.roomId _ = _
        rw [Dict.set_set, Dict.set_set]
        rfl
      · rw [h₃]
        change st₂.sessionRooms = _
        rw [h₂.1]
        exact hindex
      · rw [h₃]
        change st₂.callRoomId member.session = none
        rw [h₂.1]
        exact update_self ..
  · obtain ⟨⟨hfirst, hmeta⟩, -⟩ := h₁
    rw [show env.writeSucceeds st.writes = false from hfirst]
    simp only [Bool.false_eq_true, iff_false]
    intro htraceless
    have hnone := htraceless.unrecorded
    rw [hmeta] at hnone
    exact absurd (hnone.symm.trans hrecorded) (by simp)

end Operations

/-! ### Steps -/

section Steps

variable {setup : Setup} {w : World} {event : Event}

/-- What a failing policy write leaves, read off the computation the event runs. -/
theorem FailsWith.next {p : CallState → Prop} {m : CallM Plan}
    (h : FailsWith (w.env event) w.call p m)
    (hrun : event.action.run setup (w.env event) w.call = m (w.env event) w.call)
    (hfailed : (w.next setup event).call.policyFailures ≠ w.call.policyFailures) :
    p (w.next setup event).call := by
  have hcall : (w.next setup event).call = (m (w.env event) w.call).2 := congrArg Prod.snd hrun
  rw [hcall] at hfailed ⊢
  exact wp_final h hfailed

/-- From a state of the registry invariant, an operation whose policy write fails is atomic exactly if
it is a `create`, a `join` that repeats a membership, or a removal whose first write succeeds. -/
theorem atomic_iff {op : Operation} (hsound : w.call.toRegistry.Sound w.views)
    (hop : event.action.operation setup w.views = some op)
    (hfailed : (w.next setup event).call.policyFailures ≠ w.call.policyFailures) :
    op.Atomic w.call.toRegistry (w.next setup event).call.toRegistry ↔
      op.Spared (w.env event) w.call := by
  have hsound' : w.call.toRegistry.Sound (w.env event).sessions := hsound
  cases op with
  | create session request =>
    exact iff_of_true ((failsWith_createLocked session request hsound').next (run_create hop) hfailed) trivial
  | join session request =>
    exact (failsWith_joinLocked session request hsound').next (run_join hop) hfailed
  | depart session =>
    refine iff_of_false ?_ id
    rcases comesFrom_of_operation hop with haction | ⟨content, request, haction, hhandler, hparse⟩
    · have hrun : event.action.run setup (w.env event) w.call =
          disconnected setup session (w.env event) w.call := by
        rw [haction]
        rfl
      exact (failsWith_disconnected hsound').next hrun hfailed
    · have hrun : event.action.run setup (w.env event) w.call =
          leaveLocked setup session request (w.env event) w.call := by
        simp only [haction, Action.run, dispatch, hhandler]
        exact bind_ok (parsed_eq hparse)
      exact (failsWith_leaveLocked hsound').next hrun hfailed
  | moderate session request =>
    refine forall_congr' fun hremove => forall_congr' fun member => forall_congr' fun hmember => ?_
    exact (failsWith_moderateLocked hsound' hremove hmember).next (run_moderate hop) hfailed
  | screen => exact Iff.rfl
  | expire roomId => exact Iff.rfl

end Steps

namespace Sample

def aliceRequest : CreateRequest :=
  ⟨"alice", "request-1", "room", List.replicate 32 0, point, zeros⟩

def failing (event : Event) (n : Nat) : Event := { event with writeSucceeds := fun k => k ≠ n }

end Sample

open Sample in
theorem atomic_create :
    let w := World.after setup {} [opened "host", authenticated "host" "alice"]
    let w' := w.next setup (failing (Sample.create "host") 1)
    w'.call.policyFailures = 1 ∧ w'.call.rooms = w.call.rooms ∧
      w'.call.callRoomId "host" = w.call.callRoomId "host" := by
  intro w w'
  have hfailed : w'.call.policyFailures = 1 := by decide +kernel
  have hop : (failing (Sample.create "host") 1).action.operation setup w.views =
      some (.create "host" aliceRequest) := by decide +kernel
  have hunchanged := (atomic_iff (sound_empty w.views) hop (by rw [hfailed]; decide)).2 trivial
  exact ⟨hfailed, hunchanged.rooms, congrFun hunchanged.callRoomId "host"⟩

open Sample in
/-- The divergence: with a policy write that fails, Bob joins and is a member all the same; and Bob
leaves, is a member no more, and is still recorded as being in the call. -/
theorem failed_write_leaves_traces :
    let w := World.after setup {} (opening ++ joining)
    let joins := (World.after setup {} (opening ++ [opened "guest",
      authenticated "guest" "bob"])).next setup (failing (Sample.join "guest") 3)
    let leaves := w.next setup (failing (Sample.leave "guest") 4)
    w.call.toRegistry.Sound w.views ∧
    joins.call.policyFailures = 1 ∧ joins.call.sessionRooms.get? "guest" = some "room" ∧
    leaves.call.policyFailures = 1 ∧ leaves.call.sessionRooms.get? "guest" = none ∧
    leaves.call.callRoomId "guest" = some "room" := by
  intro w joins leaves
  refine ⟨reachable_sound (reachable_after_of_meets (.init rfl) joining_steady), ?_⟩
  decide +kernel

end CallBackend.Call
