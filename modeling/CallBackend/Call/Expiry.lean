import CallBackend.Call.Policy

/-!
# Rooms and their deadlines

The timer of a room is started when the room is opened, and carries the id of the room. Its thread
wakes up at one time and gets the lock of the service at a later one; to cancel the timer in between
has no effect. A room's deadline is read off the wall clock, while timers follow the monotonic one.

Handlers are shown to leave the timers that exist as they are, so that the deadline of a room stays
tied to its own timer.
-/

namespace CallBackend.Call

open Exec

/-! ### What the service does to timers -/

/-- What is fixed about a timer that has been made and, perhaps, started. -/
def Timer.schedule (timer : Timer) : Nanos × TimerTarget × Option Nanos :=
  (timer.delay, timer.target, timer.dueAt)

def CallState.Numbered (st : CallState) : Prop := ∀ id, st.nextTimer ≤ id → st.timers.get? id = none

structure Retimed (st st' : CallState) : Prop where
  next : st.nextTimer ≤ st'.nextTimer
  kept : ∀ id < st.nextTimer,
    (st'.timers.get? id).map Timer.schedule = (st.timers.get? id).map Timer.schedule
  numbered : st.Numbered → st'.Numbered

section Timers

variable {setup : Setup} {env : CallEnv} {st st' st'' : CallState} {α β : Type}

theorem Retimed.refl (st : CallState) : Retimed st st := ⟨le_rfl, fun _ _ => rfl, id⟩

theorem Retimed.trans (h : Retimed st st') (h' : Retimed st' st'') : Retimed st st'' :=
  ⟨h.next.trans h'.next, fun id hid => (h'.kept id (hid.trans_le h.next)).trans (h.kept id hid),
    fun hnumbered => h'.numbered (h.numbered hnumbered)⟩

instance : IsPreorder CallState Retimed where
  refl := .refl
  trans _ _ _ := .trans

theorem moves_modify {f : CallState → CallState} (htimers : ∀ st, (f st).timers = st.timers)
    (hnext : ∀ st, (f st).nextTimer = st.nextTimer) : Exec.Moves Retimed (modify f : CallM Unit) := by
  intro env st
  change Retimed st (f st)
  refine ⟨(hnext st).ge, fun id _ => by rw [htimers], fun hnumbered id hid => ?_⟩
  rw [htimers]
  exact hnumbered id ((hnext st).ge.trans hid)

theorem get?_updateTimer (id j : TimerId) (f : Timer → Timer) (env : CallEnv) (st : CallState) :
    (updateTimer id f env st).2.timers.get? j =
      if id = j then (st.timers.get? j).map f else st.timers.get? j := by
  simp only [updateTimer, Exec.modify]
  cases hid : st.timers.get? id with
  | none =>
    split_ifs with hj
    · rw [← hj, hid, Option.map_none]
    · rfl
  | some timer =>
    simp only [Dict.get?_set]
    split_ifs with hj
    · rw [← hj, hid, Option.map_some]
    · rfl

theorem moves_cancelTimer {timer : Option TimerId} : Exec.Moves Retimed (cancelTimer timer) := by
  cases timer with
  | none => exact moves_pure
  | some id =>
    intro env st
    refine ⟨le_rfl, fun j _ => ?_, fun hnumbered j hj => ?_⟩ <;> rw [cancelTimer, get?_updateTimer]
    · split_ifs
      · rw [Option.map_map]
        rfl
      · rfl
    · rw [hnumbered j hj, Option.map_none, ite_self]

theorem wp_newTimer_timers {delay : Nanos} {target : TimerTarget}
    {post : TimerId → CallState → Prop} {fail : Exn → CallState → Prop}
    (hpost : ∀ st', st'.toRegistry = st.toRegistry → Retimed st st' → st.nextTimer < st'.nextTimer →
      st'.timers.get? st.nextTimer = some { delay, target } → post st.nextTimer st') :
    wp (newTimer delay target) env st post fail := by
  simp only [newTimer, wp_do]
  refine hpost _ rfl ⟨Nat.le_succ _, fun id hid => ?_, fun hnumbered id hid => ?_⟩ (Nat.lt_succ_self _)
    (Dict.get?_set_self ..)
  · rw [Dict.get?_set_of_ne _ _ hid.ne']
  · have hlt : st.nextTimer < id := hid
    exact (Dict.get?_set_of_ne _ _ hlt.ne).trans (hnumbered id hlt.le)

variable {id : TimerId}

theorem wp_startTimer_timers {post : Unit → CallState → Prop} {fail : Exn → CallState → Prop}
    (hpost : ∀ st', st'.toRegistry = st.toRegistry → st'.nextTimer = st.nextTimer →
      (∀ j, st'.timers.get? j = if id = j then (st.timers.get? j).map fun timer =>
        { timer with dueAt := some (env.monotonic + timer.delay) } else st.timers.get? j) →
      post () st') :
    wp (startTimer id) env st post fail := by
  simp only [startTimer, wp_do]
  exact hpost (updateTimer id _ env st).2 rfl rfl fun j => get?_updateTimer id j _ env st

theorem Retimed.start {f : Timer → Timer} (h : Retimed st st') (hid : st.nextTimer ≤ id)
    (hnext : st''.nextTimer = st'.nextTimer) (htimers : ∀ j, st''.timers.get? j =
      if id = j then (st'.timers.get? j).map f else st'.timers.get? j) : Retimed st st'' := by
  refine ⟨h.next.trans hnext.ge, fun j hj => ?_, fun hnumbered j hj => ?_⟩
  · rw [htimers, if_neg (hj.trans_le hid).ne']
    exact h.kept j hj
  · rw [htimers, h.numbered hnumbered j (hnext.ge.trans hj), Option.map_none, ite_self]

variable {room : Room}

theorem moves_putRoom : Exec.Moves Retimed (putRoom room) :=
  moves_modify (fun _ => rfl) fun _ => rfl

variable {session : SessionId}

theorem moves_popSessionRoom : Exec.Moves Retimed (popSessionRoom session) :=
  moves_modify (fun _ => rfl) fun _ => rfl

theorem moves_setCallRoomId {room : Option RoomId} :
    Exec.Moves Retimed (setCallRoomId session room) :=
  moves_modify (fun _ => rfl) fun _ => rfl

theorem moves_attemptWrite : Exec.Moves Retimed attemptWrite :=
  moves_bind moves_get fun _ => moves_bind (moves_modify (fun _ => rfl) fun _ => rfl) fun _ =>
    moves_bind moves_ask fun _ => moves_pure

theorem moves_persist : Exec.Moves Retimed (persist session) :=
  moves_bind moves_ask fun _ => moves_ite moves_pure
    (moves_bind moves_attemptWrite fun _ => moves_ensure)

theorem moves_writePolicy : Exec.Moves Retimed (writePolicy setup room) :=
  moves_ite moves_pure (moves_bind moves_attemptWrite fun _ =>
    moves_ite (moves_modify (fun _ => rfl) fun _ => rfl)
      (moves_bind (moves_modify (fun _ => rfl) fun _ => rfl) fun _ => moves_raise))

variable {roomId : RoomId}

theorem moves_bindSession :
    Exec.Moves Retimed (bindSession session roomId) :=
  moves_bind (moves_modify (fun _ => rfl) fun _ => rfl) fun _ =>
    moves_bind moves_setCallRoomId fun _ => moves_persist

theorem moves_clearSessionMetadata :
    Exec.Moves Retimed (clearSessionMetadata session) :=
  moves_bind moves_setCallRoomId fun _ => moves_persist

theorem moves_clearScreenLocked : Exec.Moves Retimed (clearScreenLocked room) :=
  moves_bind moves_cancelTimer fun _ => moves_bind moves_putRoom fun _ => moves_pure

theorem moves_dropMember {participantId : ParticipantId} :
    Exec.Moves Retimed (dropMember setup session participantId room) :=
  moves_bind moves_putRoom fun _ =>
    moves_bind (moves_ite moves_clearScreenLocked moves_pure) fun _ =>
      moves_bind moves_popSessionRoom fun _ => moves_bind moves_putRoom fun _ =>
        moves_bind moves_writePolicy fun _ => moves_pure

theorem moves_removeMemberLocked :
    Exec.Moves Retimed (removeMemberLocked setup session room) := by
  refine moves_bind moves_ask fun env => ?_
  cases (env.sessions session).authenticatedUser with
  | none => exact moves_pure
  | some participantId =>
    dsimp only
    cases room.members.get? participantId with
    | none => exact moves_pure
    | some member =>
      exact moves_ite (moves_bind moves_dropMember fun _ => moves_pure) moves_pure

theorem moves_endRoomLocked : Exec.Moves Retimed (endRoomLocked setup room) :=
  moves_bind moves_clearScreenLocked fun _ =>
    moves_bind (moves_modify (fun _ => rfl) fun _ => rfl) fun _ =>
      moves_bind (moves_ite (moves_modify (fun _ => rfl) fun _ => rfl) moves_pure) fun _ =>
        moves_bind moves_cancelTimer fun _ =>
          moves_bind (moves_forEach (fun _ => moves_bind moves_popSessionRoom fun _ =>
            moves_bind moves_setCallRoomId fun _ => moves_persist)) fun _ => moves_pure

theorem moves_parsed {parse : SessionView → Except Exn α} :
    Exec.Moves Retimed (parsed session parse) :=
  moves_bind moves_ask fun _ => moves_lift

theorem retimed_joinLocked {request : JoinRequest} :
    Exec.Moves Retimed (joinLocked setup session request) := by
  refine moves_bind moves_get fun st => moves_bind moves_ensure fun _ =>
    moves_bind moves_ask fun _ => ?_
  cases st.rooms.get? request.roomId with
  | none => exact moves_pure
  | some room =>
    refine moves_ite moves_pure (moves_bind moves_ensure fun _ =>
      moves_ite moves_pure ?_)
    exact moves_bind moves_ensure fun _ => moves_bind moves_ensure fun _ =>
      moves_bind moves_putRoom fun _ => moves_bind moves_bindSession fun _ =>
        moves_bind moves_putRoom fun _ => moves_bind moves_writePolicy fun _ =>
          moves_pure

theorem retimed_departLocked {participantId : Option ParticipantId} {reason : EndReason} :
    Exec.Moves Retimed (departLocked setup session participantId room reason) :=
  moves_ite
    (moves_bind moves_endRoomLocked fun _ => moves_bind moves_clearSessionMetadata fun _ => moves_pure)
    (moves_bind moves_removeMemberLocked fun _ =>
      moves_bind moves_clearSessionMetadata fun _ => moves_pure)

theorem retimed_leaveLocked {request : LeaveRequest} :
    Exec.Moves Retimed (leaveLocked setup session request) :=
  moves_bind moves_get fun _ => moves_bind moves_ensure fun _ => moves_bind moves_require fun _ =>
    moves_bind retimed_departLocked fun _ => moves_pure

theorem retimed_disconnected :
    Exec.Moves Retimed (disconnected setup session) := by
  refine moves_bind moves_get fun st => ?_
  cases (st.sessionRooms.get? session).bind st.rooms.get? with
  | none => exact moves_pure
  | some room => exact moves_bind moves_ask fun _ => retimed_departLocked

theorem retimed_forwardGroupKey {message : Json} :
    Exec.Moves Retimed (forwardGroupKey session message) :=
  moves_bind moves_parsed fun _ => moves_bind moves_get fun _ => moves_bind moves_require fun _ =>
    moves_bind moves_ensure fun _ => moves_bind moves_require fun _ => moves_bind moves_ensure fun _ =>
      moves_bind moves_require fun _ => moves_pure

theorem retimed_moderateRoom {request : ModerateRequest} :
    Exec.Moves Retimed (moderateRoom setup request room) := by
  unfold moderateRoom
  cases request.operation with
  | reAdmit => exact moves_pure
  | remove =>
    refine moves_bind moves_ensure fun _ => moves_bind moves_ensure fun _ =>
      moves_bind moves_putRoom fun _ => ?_
    unfold evictTarget
    split
    · exact moves_pure
    · exact moves_bind moves_removeMemberLocked fun _ =>
        moves_bind moves_clearSessionMetadata fun _ => moves_pure
  | mute => exact moves_bind moves_ensure fun _ => moves_bind moves_ensure fun _ => moves_pure
  | allowMic => exact moves_bind moves_ensure fun _ => moves_pure

theorem retimed_moderateLocked {request : ModerateRequest} :
    Exec.Moves Retimed (moderateLocked setup session request) :=
  moves_bind moves_get fun _ => moves_bind moves_require fun _ => moves_bind moves_ensure fun _ =>
    moves_bind moves_require fun _ => moves_bind moves_ensure fun _ => moves_bind moves_ask fun _ =>
      moves_bind moves_ensure fun _ => moves_bind moves_ensure fun _ => moves_ite moves_pure
        (moves_bind retimed_moderateRoom fun _ => moves_bind moves_putRoom fun _ =>
          moves_bind moves_writePolicy fun _ => moves_pure)

theorem retimed_renewLease {request : ScreenRequest} :
    Exec.Moves Retimed (renewLease request room) := by
  refine moves_bind moves_cancelTimer fun _ env st => ?_
  refine wp_final (p := Retimed st) ?_
  simp only [putRoom, wp_do]
  refine wp_newTimer_timers fun st₁ _ hmade _ _ => ?_
  exact wp_startTimer_timers fun st₂ _ hnext htimers => hmade.start le_rfl hnext htimers

theorem retimed_screenControlLocked {request : ScreenRequest} :
    Exec.Moves Retimed (screenControlLocked session request) := by
  refine moves_bind moves_get fun _ => moves_bind moves_require fun _ => moves_bind moves_require fun _ =>
    moves_bind moves_ensure fun _ => moves_bind moves_ask fun _ => moves_bind moves_ensure fun _ =>
      moves_bind (moves_bind moves_ask fun _ => moves_ite moves_clearScreenLocked moves_pure) fun room =>
        moves_bind ?_ fun _ => moves_pure
  unfold applyScreen
  cases request.action with
  | start =>
    exact moves_ite (moves_bind retimed_renewLease fun _ => moves_pure)
      (moves_ite (moves_bind (moves_bind moves_putRoom fun _ => moves_pure) fun _ =>
        moves_bind retimed_renewLease fun _ => moves_pure) moves_pure)
  | stop => exact moves_ite (moves_bind moves_clearScreenLocked fun _ => moves_pure) moves_pure
  | renew => exact moves_ite (moves_bind retimed_renewLease fun _ => moves_pure) moves_pure

theorem retimed_expireScreen {shareId : String} :
    Exec.Moves Retimed (expireScreen roomId shareId) := by
  refine moves_bind moves_get fun st => ?_
  cases st.rooms.get? roomId with
  | none => exact moves_pure
  | some room =>
    exact moves_bind moves_ask fun _ =>
      moves_ite moves_pure (moves_bind moves_clearScreenLocked fun _ => moves_pure)

theorem retimed_expireRoom : Exec.Moves Retimed (expireRoom setup roomId) := by
  refine moves_bind moves_get fun st => ?_
  cases st.rooms.get? roomId with
  | none => exact moves_pure
  | some room => exact moves_bind moves_endRoomLocked fun _ => moves_pure

/-! ### The deadline of a room and its timer -/

/-- The room expires as long after this time as its timer, if it has been started, fires after the
other one. -/
def Scheduled (st : CallState) (created started : Nanos) (room : Room) : Prop :=
  room.expiresAtMs = millis created + maxCallSeconds * 1000 ∧
    ∃ id < st.nextTimer, room.expiryTimer = some id ∧ ∀ timer due,
      st.timers.get? id = some timer → timer.dueAt = some due → started + seconds maxCallSeconds ≤ due

theorem Scheduled.retimed {created started : Nanos} (h : Scheduled st created started room)
    (hretimed : Retimed st st') :
    Scheduled st' created started room := by
  obtain ⟨hexpires, id, hid, htimer, hdue⟩ := h
  refine ⟨hexpires, id, hid.trans_le hretimed.next, htimer, fun timer due hget hdueAt => ?_⟩
  have hsame := hretimed.kept id hid
  rw [hget, Option.map_some, eq_comm, Option.map_eq_some_iff] at hsame
  obtain ⟨timer', hget', hschedule⟩ := hsame
  have hdueAt' : timer'.dueAt = timer.dueAt := congrArg (fun schedule => schedule.2.2) hschedule
  exact hdue timer' due hget' (hdueAt'.trans hdueAt)

theorem wp_bindSession_rooms (session : SessionId) (roomId : RoomId) :
    wp (bindSession session roomId) env st (fun _ st' => st'.rooms = st.rooms ∧ Retimed st st')
      fun _ st' => st'.rooms = st.rooms ∧ Retimed st st' := by
  refine wp_and ?_ moves_bindSession.wp
  exact wp_bindSession (fun _ h => (congrArg Registry.rooms h :)) fun _ _ h => (congrArg Registry.rooms h :)

theorem wp_writePolicy_rooms (room : Room) :
    wp (writePolicy setup room) env st (fun _ st' => st'.rooms = st.rooms ∧ Retimed st st')
      fun error st' => error = .osError ∧ st'.rooms = st.rooms ∧ Retimed st st' := by
  have hrooms : wp (writePolicy setup room) env st (fun _ st' => st'.rooms = st.rooms)
      fun error st' => error = .osError ∧ st'.rooms = st.rooms :=
    wp_writePolicy (fun _ h => (congrArg Registry.rooms h :)) fun _ _ h => ⟨rfl, (congrArg Registry.rooms h :)⟩
  exact wp_mono (wp_and hrooms moves_writePolicy.wp) (fun _ _ h => h) fun _ _ h => ⟨h.1.1, h.1.2, h.2⟩

theorem wp_clearSessionMetadata_rooms (session : SessionId) :
    wp (clearSessionMetadata session) env st (fun _ st' => st'.rooms = st.rooms ∧ Retimed st st')
      fun _ st' => st'.rooms = st.rooms ∧ Retimed st st' := by
  refine wp_and ?_ moves_clearSessionMetadata.wp
  exact wp_clearSessionMetadata (fun _ h => (congrArg Registry.rooms h :))
    fun _ _ h => (congrArg Registry.rooms h :)

def Opens (env : CallEnv) (st st' : CallState) : Prop :=
  Retimed st st' ∧ ∀ roomId room, st'.rooms.get? roomId = some room →
    st.rooms.get? roomId = some room ∨ Scheduled st' env.now env.monotonic room

theorem Scheduled.start {created : Nanos} {target : TimerTarget}
    (hexpires : room.expiresAtMs = millis created + maxCallSeconds * 1000)
    (htimer : room.expiryTimer = some id) (hid : id < st.nextTimer)
    (hget : st.timers.get? id = some { delay := seconds maxCallSeconds, target })
    (hretimed : Retimed st st') (hnext : st''.nextTimer = st'.nextTimer)
    (htimers : ∀ j, st''.timers.get? j = if id = j then (st'.timers.get? j).map fun timer =>
      { timer with dueAt := some (env.monotonic + timer.delay) } else st'.timers.get? j) :
    Scheduled st'' created env.monotonic room := by
  refine ⟨hexpires, id, (hid.trans_le hretimed.next).trans_le hnext.ge, htimer, ?_⟩
  intro timer due htimer' hdue
  have hsame := hretimed.kept id hid
  rw [hget, Option.map_some, Option.map_eq_some_iff] at hsame
  obtain ⟨timer', hget', hschedule⟩ := hsame
  have hdelay : timer'.delay = seconds maxCallSeconds := congrArg Prod.fst hschedule
  rw [htimers, if_pos rfl, hget', Option.map_some, Option.some.injEq] at htimer'
  rw [← htimer', Option.some.injEq, hdelay] at hdue
  exact hdue.le

theorem opens_createLocked (session : SessionId) (request : CreateRequest) :
    wp (createLocked setup session request) env st (fun _ => Opens env st) fun _ => Opens env st := by
  have hunchanged : Opens env st st := ⟨.refl st, fun _ _ => .inl⟩
  unfold createLocked
  simp only [putRoom, wp_do, wp_ensure]
  refine ⟨fun _ => ⟨fun habsent => ⟨fun _ => ?_, fun _ => hunchanged⟩, fun _ => hunchanged⟩,
    fun _ => hunchanged⟩
  refine wp_newTimer_timers fun st₁ h₁ hmade hlt hget => ?_
  have hrooms₁ : st₁.rooms = st.rooms := congrArg Registry.rooms h₁
  have hleft : ∀ st', Retimed st st' →
      st'.rooms = st.rooms.set request.roomId (newRoom env.now session request st.nextTimer) →
      (∀ room, room = newRoom env.now session request st.nextTimer →
        Scheduled st' env.now env.monotonic room) → Opens env st st' := by
    intro st' hretimed hrooms hscheduled
    refine ⟨hretimed, fun roomId room hroom => ?_⟩
    rw [hrooms, Dict.get?_set] at hroom
    split_ifs at hroom
    · exact .inr (hscheduled room (Option.some.inj hroom).symm)
    · exact .inl hroom
  -- before its timer is started, the room may be left behind by a failed write
  have hwaiting : ∀ st', Retimed st₁ st' → ∀ room,
      room = newRoom env.now session request st.nextTimer →
      Scheduled st' env.now env.monotonic room := by
    rintro st' hretimed room rfl
    refine Scheduled.retimed ⟨rfl, st.nextTimer, hlt, rfl, fun timer due htimer hdue => ?_⟩ hretimed
    rw [hget, Option.some.injEq] at htimer
    rw [← htimer] at hdue
    cases hdue
  have hput : Retimed st₁ { st₁ with
      rooms := st₁.rooms.set request.roomId (newRoom env.now session request st.nextTimer) } :=
    ⟨le_rfl, fun _ _ => rfl, id⟩
  refine wp_mono (wp_bindSession_rooms session request.roomId) ?_ ?_
  · rintro - st₂ ⟨hrooms₂, hretimed₂⟩
    rw [wp_rescue]
    refine wp_mono (wp_writePolicy_rooms _) ?_ ?_
    · rintro - st₃ ⟨hrooms₃, hretimed₃⟩
      have hretimed := (hput.trans hretimed₂).trans hretimed₃
      refine wp_startTimer_timers fun st₄ h₄ hnext htimers => ?_
      refine hleft st₄ ((hmade.trans hretimed).start le_rfl hnext htimers) ?_ ?_
      · have hrooms₄ : st₄.rooms = st₃.rooms := congrArg Registry.rooms h₄
        rw [hrooms₄, hrooms₃, hrooms₂, hrooms₁]
        rfl
      · rintro room rfl
        exact .start rfl rfl hlt hget hretimed hnext htimers
    · rintro error st₃ ⟨rfl, hrooms₃, hretimed₃⟩
      simp only [Exn.isOsError, if_true, popSessionRoom, wp_do]
      have hrooms : st₃.rooms.erase request.roomId = st.rooms := by
        rw [hrooms₃, hrooms₂, hrooms₁]
        exact (Dict.erase_set ..).trans (Dict.erase_of_get?_eq_none habsent)
      have hpop : Retimed st₃ { st₃ with
          rooms := st₃.rooms.erase request.roomId
          sessionRooms := st₃.sessionRooms.erase session } := ⟨le_rfl, fun _ _ => rfl, id⟩
      have hundone : ∀ st₄ : CallState, st₄.rooms = st₃.rooms.erase request.roomId ∧
          Retimed { st₃ with
            rooms := st₃.rooms.erase request.roomId
            sessionRooms := st₃.sessionRooms.erase session } st₄ → Opens env st st₄ := by
        rintro st₄ ⟨hrooms₄, hretimed₄⟩
        have hretimed := ((hmade.trans hput).trans hretimed₂).trans hretimed₃
        refine ⟨(hretimed.trans hpop).trans hretimed₄, ?_⟩
        intro roomId room hroom
        rw [hrooms₄, hrooms] at hroom
        exact .inl hroom
      exact wp_mono (wp_clearSessionMetadata_rooms session) (fun _ st₄ h => hundone st₄ h)
        fun _ st₄ h => hundone st₄ h
  · rintro - st₂ ⟨hrooms₂, hretimed₂⟩
    refine hleft st₂ (hmade.trans (hput.trans hretimed₂)) ?_ (hwaiting st₂ (hput.trans hretimed₂))
    rw [hrooms₂, hrooms₁]
    rfl

end Timers

/-! ### Deadlines do not move -/

def Registry.Continues (c c' : Registry) : Prop :=
  ∀ roomId room', c'.rooms.get? roomId = some room' → ∃ room, c.rooms.get? roomId = some room ∧
    room'.expiresAtMs = room.expiresAtMs ∧ room'.expiryTimer = room.expiryTimer

section Deadlines

variable {setup : Setup} {env : CallEnv} {op : Operation} {c c' : Registry}

theorem Effect.continues (h : Effect setup env op c c')
    (hop : ∀ session request, op ≠ .create session request) : c.Continues c' :=
  h.evolves hop (fun _ => ⟨rfl, rfl⟩) (fun _ _ _ _ _ => ⟨rfl, rfl⟩) (fun _ _ _ _ => ⟨rfl, rfl⟩)
    (fun _ _ => ⟨rfl, rfl⟩) (fun _ _ _ => ⟨rfl, rfl⟩) fun _ _ => ⟨rfl, rfl⟩

theorem Effects.continues (h : Effects setup env op c c')
    (hop : ∀ session request, op ≠ .create session request) : c.Continues c' := by
  induction h with
  | refl => exact fun _ room hroom => ⟨room, hroom, rfl, rfl⟩
  | tail _ heffect ih =>
    refine Registry.Evolves.trans (fun room room' room'' h h' => ?_) ih (heffect.continues hop)
    exact ⟨h'.1.trans h.1, h'.2.trans h.2⟩

end Deadlines

def Timely (env : CallEnv) (st st' : CallState) : Prop :=
  Retimed st st' ∧ ∀ roomId room', st'.rooms.get? roomId = some room' →
    (∃ room, st.rooms.get? roomId = some room ∧ room'.expiresAtMs = room.expiresAtMs ∧
      room'.expiryTimer = room.expiryTimer) ∨ Scheduled st' env.now env.monotonic room'

section Invocations

variable {setup : Setup} {env : CallEnv} {st : CallState}

theorem retimed_dispatch {session : SessionId} {message : Json}
    (h : handlerFor message ≠ some .create) :
    Exec.Moves Retimed (dispatch setup session message) := by
  unfold dispatch
  cases hhandler : handlerFor message with
  | none => exact moves_pure
  | some handler =>
    cases handler with
    | create => exact absurd hhandler h
    | join => exact moves_bind moves_parsed fun _ => retimed_joinLocked
    | leave => exact moves_bind moves_parsed fun _ => retimed_leaveLocked
    | groupKey => exact retimed_forwardGroupKey
    | moderate => exact moves_bind moves_parsed fun _ => retimed_moderateLocked
    | screen => exact moves_bind moves_parsed fun _ => retimed_screenControlLocked

theorem timely_create {session : SessionId} {message : Json} :
    Timely env st (create setup session message env st).2 := by
  have hopens : Opens env st (create setup session message env st).2 := by
    refine wp_final (p := Opens env st) ?_
    unfold create parsed
    simp only [wp_do, wp_lift]
    exact ⟨fun request _ => opens_createLocked session request, fun _ _ => ⟨.refl st, fun _ _ => .inl⟩⟩
  exact ⟨hopens.1, fun roomId room hroom => (hopens.2 roomId room hroom).imp_left
    fun hbefore => ⟨room, hbefore, rfl, rfl⟩⟩

theorem timely_of_moves (hkeyed : st.toRegistry.Keyed) {action : Action}
    (haction : ∀ views metadata, action ≠ .restart views metadata)
    (hop : ∀ session request, action.operation setup env.sessions ≠ some (.create session request))
    (hmoves : Exec.Moves Retimed (action.run setup)) : Timely env st (action.run setup env st).2 := by
  refine ⟨hmoves env st, fun roomId room' hroom' => .inl ?_⟩
  have hadvances : action.Advances setup env st.toRegistry (action.run setup env st).2.toRegistry :=
    wp_final (p := fun st' : CallState => action.Advances setup env st.toRegistry st'.toRegistry)
      (performs_run hkeyed haction)
  rcases hadvances with heq | ⟨op, hoperation, heffects⟩
  · exact ⟨room', by rw [← heq]; exact hroom', rfl, rfl⟩
  · exact heffects.continues (fun session request hbad => hop session request (hbad ▸ hoperation))
      roomId room' hroom'

theorem timely_run (hkeyed : st.toRegistry.Keyed) {action : Action}
    (haction : ∀ views metadata, action ≠ .restart views metadata) :
    Timely env st (action.run setup env st).2 := by
  by_cases hcreate : ∃ session content, action = .message session content ∧
      handlerFor content = some .create
  · obtain ⟨session, content, rfl, hhandler⟩ := hcreate
    have hrun : Action.run setup (.message session content) = create setup session content := by
      rw [Action.run, dispatch, hhandler]
    rw [hrun]
    exact timely_create
  · refine timely_of_moves hkeyed haction (fun session request hop => ?_) ?_
    · obtain ⟨content, haction', hhandler, -⟩ := comesFrom_of_operation hop
      exact hcreate ⟨session, content, haction', hhandler⟩
    · cases action with
      | message session content =>
        exact retimed_dispatch fun hhandler => hcreate ⟨session, content, rfl, hhandler⟩
      | disconnected session => exact retimed_disconnected
      | expireRoom roomId => exact retimed_expireRoom
      | expireScreen roomId shareId => exact retimed_expireScreen
      | changed session change => exact moves_pure
      | restart views metadata => exact absurd rfl (haction views metadata)

end Invocations

/-! ### Timers that fire, and get the lock later -/

inductive ClockAction where
  | serve (action : Action)
  /-- The thread of a timer wakes up. -/
  | fire (id : TimerId)
  /-- The thread of a timer gets the lock. -/
  | expire (id : TimerId)

structure Tick where
  action : ClockAction
  now : Nanos
  monotonic : Nanos
  writeSucceeds : Nat → Bool := fun _ => true

/-- The service with the threads of its timers. -/
structure Clocked where
  world : World := {}
  now : Nanos
  monotonic : Nanos
  /-- The timers whose threads wait for the lock. -/
  fired : List TimerId := []
  /-- The timers that have fired. -/
  spent : List TimerId := []

def TimerTarget.action : TimerTarget → Action
  | .expireRoom roomId => .expireRoom roomId
  | .expireScreen roomId shareId => .expireScreen roomId shareId

def Action.isTimers : Action → Bool
  | .expireRoom _ | .expireScreen _ _ => true
  | _ => false

def Action.isRestart : Action → Bool
  | .restart _ _ => true
  | _ => false

namespace Clocked

/-- One step; the monotonic clock does not go back while the process runs. -/
def next (setup : Setup) (st : Clocked) (tick : Tick) : Option Clocked :=
  match tick.action with
  | .serve action =>
    if action.isTimers then none
    else if action.isRestart then
      some { world := st.world.next setup ⟨action, tick.now, tick.monotonic, tick.writeSucceeds⟩
             now := tick.now, monotonic := tick.monotonic }
    else if tick.monotonic < st.monotonic then none
    else some { st with
      world := st.world.next setup ⟨action, tick.now, tick.monotonic, tick.writeSucceeds⟩
      now := tick.now, monotonic := tick.monotonic }
  | .fire id =>
    match st.world.call.timers.get? id with
    | none => none
    | some timer =>
      match timer.dueAt with
      | none => none
      | some due =>
        if tick.monotonic < st.monotonic ∨ tick.monotonic < due ∨ timer.cancelled ∨
            id ∈ st.spent then none
        else some { st with
          now := tick.now, monotonic := tick.monotonic
          fired := id :: st.fired, spent := id :: st.spent }
  | .expire id =>
    match st.world.call.timers.get? id with
    | none => none
    | some timer =>
      if tick.monotonic < st.monotonic ∨ id ∉ st.fired then none
      else some { st with
        world := st.world.next setup
          ⟨timer.target.action, tick.now, tick.monotonic, tick.writeSucceeds⟩
        now := tick.now, monotonic := tick.monotonic, fired := st.fired.erase id }

end Clocked

def clockwork (setup : Setup) : System Clocked Tick where
  init st := ∃ now monotonic, st = { now, monotonic }
  step st tick st' := st.next setup tick = some st'

def Clocked.targeted (st : Clocked) (id : TimerId) : Option Room :=
  match (st.world.call.timers.get? id).map Timer.target with
  | some (.expireRoom roomId) => st.world.call.rooms.get? roomId
  | _ => none

def Tick.restarts (tick : Tick) : Bool :=
  match tick.action with
  | .serve action => action.isRestart
  | _ => false

/-- A timer that has got the lock finds the room that it was made for, or none. -/
def OwnTimer (st : Clocked) (tick : Tick) : Prop :=
  match tick.action with
  | .expire id => (st.targeted id).all (fun room => room.expiryTimer = some id) = true
  | _ => True

/-- While a process runs, the wall clock advances at least as much as the monotonic clock. -/
def KeepsUp (st : Clocked) (tick : Tick) : Prop :=
  tick.restarts = true ∨ tick.monotonic + st.now ≤ tick.now + st.monotonic

def OnTime (st : Clocked) (tick : Tick) : Prop := OwnTimer st tick ∧ KeepsUp st tick

instance decidableOnTime (st : Clocked) (tick : Tick) : Decidable (OnTime st tick) :=
  have : Decidable (OwnTimer st tick) :=
    match haction : tick.action with
    | .expire id =>
      decidable_of_iff ((st.targeted id).all (fun room => room.expiryTimer = some id) = true)
        (by rw [OwnTimer, haction])
    | .serve _ | .fire _ => isTrue (by rw [OwnTimer, haction]; trivial)
  have : Decidable (KeepsUp st tick) :=
    inferInstanceAs (Decidable (tick.restarts = true ∨ tick.monotonic + st.now ≤ tick.now + st.monotonic))
  inferInstanceAs (Decidable (OwnTimer st tick ∧ KeepsUp st tick))

/-- What holds of the rooms, their timers and the clocks. -/
structure Clocked.Timed (setup : Setup) (st : Clocked) : Prop where
  reachable : (service setup).Reachable System.anyStep st.world
  numbered : st.world.call.Numbered
  rooms : ∀ roomId room, st.world.call.rooms.get? roomId = some room →
    ∃ created started, Scheduled st.world.call created started room ∧
      created + st.monotonic ≤ st.now + started
  fired : ∀ id ∈ st.fired, ∃ timer due, st.world.call.timers.get? id = some timer ∧
    timer.dueAt = some due ∧ due ≤ st.monotonic

section Clockwork

variable {setup : Setup} {st st' : Clocked} {tick : Tick}

theorem Scheduled.congr {call : CallState} {created started : Nanos} {room room' : Room}
    (h : Scheduled call created started room) (hexpires : room'.expiresAtMs = room.expiresAtMs)
    (htimer : room'.expiryTimer = room.expiryTimer) : Scheduled call created started room' := by
  unfold Scheduled
  rw [hexpires, htimer]
  exact h

theorem Retimed.dueAt {call call' : CallState} (h : Retimed call call') (hnumbered : call.Numbered)
    {id : TimerId} {timer : Timer} (hget : call.timers.get? id = some timer) :
    ∃ timer', call'.timers.get? id = some timer' ∧ timer'.dueAt = timer.dueAt := by
  have hid : id < call.nextTimer := by
    by_contra hge
    rw [hnumbered id (not_lt.mp hge)] at hget
    cases hget
  have hsame := h.kept id hid
  rw [hget, Option.map_some, Option.map_eq_some_iff] at hsame
  obtain ⟨timer', hget', hschedule⟩ := hsame
  exact ⟨timer', hget', congrArg (fun schedule => schedule.2.2) hschedule⟩

theorem Clocked.Timed.invoke (h : st.Timed setup) {event : Event}
    (haction : ∀ views metadata, event.action ≠ .restart views metadata)
    (hworld : st'.world = st.world.next setup event) (hnow : st'.now = event.now)
    (hmonotonic : st'.monotonic = event.monotonic) (hclock : st.monotonic ≤ event.monotonic)
    (hkeeps : event.monotonic + st.now ≤ event.now + st.monotonic) (hfired : st'.fired ⊆ st.fired) :
    st'.Timed setup := by
  have htimely : Timely (st.world.env event) st.world.call st'.world.call := by
    rw [hworld]
    exact timely_run (reachable_covered h.reachable).keyed haction
  obtain ⟨hretimed, hrooms⟩ := htimely
  refine ⟨?_, hretimed.numbered h.numbered, fun roomId room' hroom' => ?_, fun id hid => ?_⟩
  · rw [hworld]
    exact .step h.reachable trivial rfl
  · rw [hnow, hmonotonic]
    rcases hrooms roomId room' hroom' with ⟨room, hroom, hexpires, htimer⟩ | hscheduled
    · obtain ⟨created, started, hscheduled, hkept⟩ := h.rooms roomId room hroom
      have hlater : created + event.monotonic ≤ event.now + started := by grind
      exact ⟨created, started, (hscheduled.congr hexpires htimer).retimed hretimed, hlater⟩
    · exact ⟨event.now, event.monotonic, hscheduled, le_rfl⟩
  · obtain ⟨timer, due, hget, hdue, hpast⟩ := h.fired id (hfired hid)
    obtain ⟨timer', hget', hdue'⟩ := hretimed.dueAt h.numbered hget
    exact ⟨timer', due, hget', hdue'.trans hdue, hpast.trans (hclock.trans hmonotonic.ge)⟩

theorem Clocked.Timed.restart (h : st.Timed setup) {event : Event} {views : SessionId → SessionView}
    {metadata : SessionId → Option RoomId} (haction : event.action = .restart views metadata) :
    Clocked.Timed setup { world := st.world.next setup event, now := event.now, monotonic := event.monotonic } := by
  have hcall : (st.world.next setup event).call = Call.restart setup metadata st.world.call := by
    simp only [World.next, haction]
    rfl
  refine ⟨.step h.reachable trivial rfl, ?_, ?_, fun _ h => by cases h⟩
  · dsimp only
    rw [hcall]
    exact fun _ _ => rfl
  · dsimp only
    rw [hcall]
    intro _ _ h
    cases h

theorem Clocked.Timed.step (h : st.Timed setup) (hok : OnTime st tick)
    (hstep : (clockwork setup).step st tick st') : st'.Timed setup := by
  have hnext : st.next setup tick = some st' := hstep
  unfold Clocked.next at hnext
  have hkeeps := hok.2
  unfold KeepsUp Tick.restarts at hkeeps
  cases haction : tick.action with
  | serve action =>
    rw [haction] at hnext hkeeps
    dsimp only at hnext
    split_ifs at hnext with htimers hrestart hclock
    · cases hnext
      cases action with
      | restart views metadata => exact h.restart rfl
      | _ => cases hrestart
    · cases hnext
      have hrunning := hkeeps.resolve_left hrestart
      refine h.invoke (fun views metadata hbad => hrestart ?_) rfl rfl rfl (not_lt.mp hclock) hrunning
        (List.Subset.refl _)
      rw [show action = _ from hbad]
      rfl
  | fire id =>
    rw [haction] at hnext hkeeps
    have hrunning := hkeeps.resolve_left fun h => by cases h
    dsimp only at hnext
    split at hnext
    · cases hnext
    rename_i timer hget
    split at hnext
    · cases hnext
    rename_i due hdue
    split_ifs at hnext with hguard
    cases hnext
    push Not at hguard
    refine ⟨h.reachable, h.numbered, fun roomId room hroom => ?_, fun other hother => ?_⟩
    · obtain ⟨created, started, hscheduled, hkept⟩ := h.rooms roomId room hroom
      exact ⟨created, started, hscheduled, by dsimp only; grind⟩
    · rcases List.mem_cons.mp hother with rfl | hother
      · exact ⟨timer, due, hget, hdue, hguard.2.1⟩
      · obtain ⟨timer', due', hget', hdue', hpast⟩ := h.fired other hother
        exact ⟨timer', due', hget', hdue', hpast.trans hguard.1⟩
  | expire id =>
    rw [haction] at hnext hkeeps
    have hrunning := hkeeps.resolve_left fun h => by cases h
    dsimp only at hnext
    split at hnext
    · cases hnext
    rename_i timer hget
    split_ifs at hnext with hguard
    cases hnext
    push Not at hguard
    refine h.invoke (fun views metadata hbad => ?_) rfl rfl rfl hguard.1 hrunning List.erase_subset
    cases htarget : timer.target with
    | expireRoom roomId => rw [htarget] at hbad; cases hbad
    | expireScreen roomId shareId => rw [htarget] at hbad; cases hbad

theorem reachable_timed (h : (clockwork setup).Reachable OnTime st) : st.Timed setup := by
  refine h.invariant ?_ fun st tick st' htimed hok hstep => htimed.step hok hstep
  rintro st ⟨now, monotonic, rfl⟩
  exact ⟨.init rfl, fun _ _ => rfl, nofun, nofun⟩

theorem fired_of_expire (hstep : (clockwork setup).step st tick st') {id : TimerId}
    (haction : tick.action = .expire id) : id ∈ st.fired ∧ st.monotonic ≤ tick.monotonic := by
  have hnext : st.next setup tick = some st' := hstep
  rw [Clocked.next, haction] at hnext
  dsimp only at hnext
  split at hnext
  · cases hnext
  · split_ifs at hnext with hguard
    push Not at hguard
    exact ⟨hguard.2, hguard.1⟩

theorem deadline_le {created now : Nanos} (h : created + seconds maxCallSeconds ≤ now) :
    millis created + maxCallSeconds * 1000 ≤ millis now := by
  unfold millis seconds maxCallSeconds Nanos at *
  omega

/-- As long as timers get the lock while the room that they were made for is there or none, and the
wall clock is not set back, the rooms that `_expire_room` finds, and ends, have reached their
deadlines. -/
theorem room_expires_at_deadline (h : (clockwork setup).Reachable OnTime st) (hok : OnTime st tick)
    (hstep : (clockwork setup).step st tick st') {id : TimerId} {room : Room}
    (haction : tick.action = .expire id) (hroom : st.targeted id = some room) :
    room.expiresAtMs ≤ millis tick.now := by
  have htimed := reachable_timed h
  obtain ⟨hfired, hclock⟩ := fired_of_expire hstep haction
  obtain ⟨howner, hkeeps⟩ := hok
  rw [KeepsUp, Tick.restarts, haction] at hkeeps
  rw [OwnTimer, haction] at howner
  have hrunning := hkeeps.resolve_left nofun
  obtain ⟨roomId, hregistered⟩ : ∃ roomId, st.world.call.rooms.get? roomId = some room := by
    unfold Clocked.targeted at hroom
    split at hroom
    · exact ⟨_, hroom⟩
    · cases hroom
  obtain ⟨created, started, ⟨hexpires, own, -, hown, hstarted⟩, hkept⟩ :=
    htimed.rooms roomId room hregistered
  -- the timer is the room's own one
  dsimp only at howner
  rw [hroom, Option.all_some, decide_eq_true_eq] at howner
  obtain rfl := Option.some.inj (hown.symm.trans howner)
  obtain ⟨timer, due, hget, hdue, hpast⟩ := htimed.fired own hfired
  have hlate := hstarted timer due hget hdue
  rw [hexpires]
  exact deadline_le (by grind)

end Clockwork

namespace Sample

def tick (time : Nanos) (action : ClockAction) : Tick := ⟨action, time, time, fun _ => true⟩

def follow (st : Clocked) (tick : Tick) : Clocked := (st.next setup tick).getD st

def threeHours : Nanos := seconds maxCallSeconds

def expiring : List Tick :=
  (opening.map fun event => tick 0 (.serve event.action)) ++ [tick threeHours (.fire 0)]

/-- The timer fires, but before it gets the lock Alice leaves and opens the room again. -/
def reopening : List Tick :=
  expiring ++ [tick threeHours (.serve (leave "host").action),
    tick threeHours (.serve (create "host").action)]

theorem reachable_follow {ok : Clocked → Tick → Prop} {ticks : List Tick}
    (h : System.Meets follow (fun st tick => (st.next setup tick).isSome = true ∧ ok st tick)
      { now := 0, monotonic := 0 } ticks) :
    (clockwork setup).Reachable ok (ticks.foldl follow { now := 0, monotonic := 0 }) :=
  (System.Path.of_meets (System.step_getD fun _ _ _ hnext => hnext) .refl h).reachable (.init ⟨0, 0, rfl⟩)

end Sample

open Sample in
theorem room_expires_at_deadline_opening :
    ∃ room, (expiring.foldl follow { now := 0, monotonic := 0 }).targeted 0 = some room ∧
      room.expiresAtMs ≤ millis threeHours := by
  have hfound : ((expiring.foldl follow { now := 0, monotonic := 0 }).targeted 0).isSome = true := by
    decide +kernel
  obtain ⟨room, hroom⟩ := Option.isSome_iff_exists.mp hfound
  refine ⟨room, hroom, ?_⟩
  have hreach : (clockwork setup).Reachable OnTime (expiring.foldl follow { now := 0, monotonic := 0 }) :=
    reachable_follow (by decide +kernel)
  have henabled : ((expiring.foldl follow { now := 0, monotonic := 0 }).next setup
      (tick threeHours (.expire 0))).isSome = true := by decide +kernel
  obtain ⟨st', hstep⟩ := Option.isSome_iff_exists.mp henabled
  have hok : OnTime (expiring.foldl follow { now := 0, monotonic := 0 })
      (tick threeHours (.expire 0)) := by decide +kernel
  exact room_expires_at_deadline hreach hok hstep rfl hroom

open Sample in
/-- The late timer of the first room ends the second one three hours too early. -/
theorem late_timer_ends_reopened_room :
    (clockwork setup).Reachable System.anyStep (reopening.foldl follow { now := 0, monotonic := 0 }) ∧
      ∃ room st', (reopening.foldl follow { now := 0, monotonic := 0 }).targeted 0 = some room ∧
        (clockwork setup).step (reopening.foldl follow { now := 0, monotonic := 0 })
          (tick threeHours (.expire 0)) st' ∧
        st'.world.call.rooms.get? "room" = none ∧ millis threeHours < room.expiresAtMs := by
  have hfound : ((reopening.foldl follow { now := 0, monotonic := 0 }).targeted 0).any
      (fun room => millis threeHours < room.expiresAtMs) = true := by decide +kernel
  have hended : ((reopening.foldl follow { now := 0, monotonic := 0 }).next setup
      (tick threeHours (.expire 0))).any (fun st' => (st'.world.call.rooms.get? "room").isNone) = true := by
    decide +kernel
  obtain ⟨room, hroom, hearly⟩ := (Option.any_eq_true _ _).mp hfound
  obtain ⟨st', hstep, hgone⟩ := (Option.any_eq_true _ _).mp hended
  exact ⟨reachable_follow (by decide +kernel), room, st', hroom, hstep, Option.isNone_iff_eq_none.mp hgone,
    of_decide_eq_true hearly⟩

end CallBackend.Call
