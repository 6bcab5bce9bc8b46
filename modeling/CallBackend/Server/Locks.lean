import CallBackend.Server.Run

/-!
# The two locks

`CallService._lock` guards the rooms, `QAppServer._session_lock` the sessions. The handlers of the
call service take the room lock. The clean-up of a link, the closing of a logical id and a
revocation take the session lock and, while they hold it, run the disconnect handler, which takes
the room lock: the session lock comes first. A handler that answers before it has released the room
lock can turn the order round, because a failing write closes the link, and closing a link runs its
clean-up in the same thread.

A thread is the stack of what it still has to do. Taking a lock pushes the obligation to release it,
so a thread holds a lock if a release of it is on its stack. An exception takes entries off the stack
until one catches it, and releases the locks it passes. Both locks are reentrant: a thread waits only
for what another thread holds.
-/

namespace CallBackend.Server

open Exec

/-! ### Leaving a link, up to the handlers -/

/-- `_disconnect_logical_session` for an authenticated session, up to the handlers. -/
def releaseSession (setup : Setup) (id : SessionId) : ServerM Unit := do
  invalidateSession id
  unbind id
  setSession id { (← getSession id) with qappConnectionId := none }
  touch setup id (← ask).now
  persist id

/-- `_disconnect_logical_session` up to the handlers: the sessions the handlers are to be run for. -/
def releaseLogicalSession (setup : Setup) (c : ConnId) (logicalId : LogicalId) :
    ServerM (List SessionId) := do
  let st ← get
  match st.logicalSessions logicalId with
  | none => return []
  | some id =>
    if (st.objects id).connection ≠ some c then return []
    else if (st.objects id).provisional then do
      discardSession id
      return []
    else do
      releaseSession setup id
      return [id]

/-! ### Threads -/

inductive Lock where
  | room
  | session
  deriving DecidableEq

/-- What is done under the session lock. -/
inductive SessionWork where
  /-- `_connection_closed`. -/
  | cleanup (c : ConnId)
  /-- `_disconnect_logical_session`. -/
  | depart (c : ConnId) (logicalId : LogicalId)
  /-- `revoke_session`. -/
  | revoke (id : SessionId)

inductive Instr where
  /-- Waits for the room lock, for a function of the call service. -/
  | call (action : Call.Action)
  /-- The locked part of a function of the call service. -/
  | critical (action : Call.Action)
  /-- Waits for the session lock. -/
  | take (work : SessionWork)
  | locked (work : SessionWork)
  /-- The end of `_connection_closed`. -/
  | emptied (c : ConnId)
  /-- `_discard_session`. -/
  | discard (id : SessionId)
  | release (lock : Lock)
  /-- `session.send` inside `_safe_send`; the next entry is `safe`. -/
  | send (id : SessionId)
  /-- The end of `_safe_send`: catches a `RuntimeError`. -/
  | safe
  /-- Catches and logs every exception. -/
  | logged
  /-- An exception on its way. -/
  | raise (error : Exn)

abbrev Thread : Type := List Instr

def Instr.holds (lock : Lock) : Instr → Bool
  | .critical _ => lock = .room
  | .release taken => lock = taken
  | _ => false

def Thread.holds (thread : Thread) (lock : Lock) : Bool := thread.any (·.holds lock)

/-- The lock the thread has to take next. -/
def Thread.wants : Thread → Option Lock
  | .call _ :: _ => some .room
  | .take _ :: _ => some .session
  | _ => none

/-- The link that a send breaks. -/
def ServerState.brokenLink (st : ServerState) (id : SessionId) (fault : Option SendFault) :
    Option ConnId :=
  if st.linked id ∧ (st.objects id).qappConnectionId.any (· ≠ "") ∧ fault.any (·.closesLink) then
    (st.objects id).connection
  else none

/-- The sends of a handler, one `_safe_send` each. -/
def sending (plan : Call.Plan) : Thread := plan.sends.flatMap fun send => [.send send.1, .safe]

/-- A handler that the server runs for a session that has left; what it raises is logged. -/
def disconnecting (id : SessionId) : Thread := [.call (.disconnected id), .logged]

/-- What a thread does when it has taken the session lock. -/
def SessionWork.run (setup : Setup) (env : ServerEnv) (st : ServerState) :
    SessionWork → ServerState × Thread
  | .cleanup c =>
    (st, (st.connections c).logicalIds.map (fun logicalId => .locked (.depart c logicalId)) ++ [.emptied c])
  | .depart c logicalId =>
    match releaseLogicalSession setup c logicalId env st with
    | (.ok ids, st') => (st', ids.flatMap disconnecting)
    | (.error error, st') => (st', [.raise error])
  | .revoke id => (st, if id ∈ st.registry then disconnecting id ++ [.discard id] else [])

/-- An exception at an entry of the stack. -/
def Instr.pass (error : Exn) : Instr → Thread
  | .safe => if error.isRuntimeError then [] else [.raise error]
  | .logged => []
  | _ => [.raise error]

/-- What an entry does, and what takes its place on the stack. -/
def Instr.run (setup : Setup) (env : ServerEnv) (fault : Option SendFault) (st : ServerState) :
    Instr → ServerState × Thread
  | .call action => (st, [.critical action])
  | .critical action =>
    match inCalls setup action env st with
    | (.ok plan, st') =>
      (st', if plan.underLock then sending plan ++ [.release .room]
        else .release .room :: sending plan)
    | (.error error, st') => (st', [.release .room, .raise error])
  | .take work => (st, [.locked work, .release .session])
  | .locked work => work.run setup env st
  | .emptied c => ((cleanupEnd c env st).2, [])
  | .discard id =>
    match discardSession id env st with
    | (.ok _, st') => (st', [])
    | (.error error, st') => (st', [.raise error])
  | .send id =>
    match sendSession markClosed id fault env st with
    | (.ok _, st') => (st', [])
    -- A failing write closes the link before it raises, and its thread runs the clean-up.
    | (.error error, st') =>
      (st', ((st.brokenLink id fault).toList.map fun c => .take (.cleanup c)) ++ [.raise error])
  | .release _ | .safe | .logged | .raise _ => (st, [])

/-- One step of a thread. -/
def Thread.run (setup : Setup) (env : ServerEnv) (fault : Option SendFault) (st : ServerState) :
    Thread → ServerState × Thread
  | [] => (st, [])
  | [.raise _] => (st, [])
  | .raise error :: entry :: rest => (st, entry.pass error ++ rest)
  | entry :: rest =>
    ((entry.run setup env fault st).1, (entry.run setup env fault st).2 ++ rest)

/-! ### The threads of the server -/

structure Machine where
  server : ServerState
  threads : List Thread := []

def Machine.thread (m : Machine) (n : Nat) : Thread := m.threads.getD n []

def Machine.taken (m : Machine) (n : Nat) (lock : Lock) : Bool :=
  (lock = .session && m.server.releasing.isSome) ||
    (List.range m.threads.length).any fun k => decide (k ≠ n) && (m.thread k).holds lock

/-- What a new thread is for. -/
inductive Task where
  /-- A function of the call service: the handler of a message, or a timer. -/
  | call (action : Call.Action)
  | close (c : ConnId)
  /-- A `CLOSE` control frame for a logical id. -/
  | closeLogical (c : ConnId) (logicalId : LogicalId)
  | revoke (id : SessionId)

def Task.start (st : ServerState) : Task → ServerState × Thread
  | .call action => (st, [.call action, .logged])
  | .close c =>
    if (st.connections c).closed then (st, [])
    else
      ({ st with
          connections := Function.update st.connections c { st.connections c with closed := true } },
        [.take (.cleanup c)])
  | .closeLogical c logicalId =>
    if logicalId ∈ (st.connections c).logicalIds then
      ({ st with
          connections := Function.update st.connections c
            { st.connections c with
              logicalIds := (st.connections c).logicalIds.erase logicalId
              closedLogicalIds := (st.connections c).closedLogicalIds.insert logicalId } },
        [.take (.depart c logicalId)])
    else (st, [])
  | .revoke id => (st, [.take (.revoke id)])

inductive MachineAction where
  | spawn (task : Task)
  /-- A step of a thread; `fault` is what a send meets. -/
  | step (n : Nat) (fault : Option SendFault)
  /-- Anything else the server does, in one go. -/
  | other (action : Action)

structure MachineEvent where
  action : MachineAction
  env : ServerEnv

/-- The action takes the room lock. -/
def Action.calls : Action → Bool
  | .serve _ _ | .nextCleanup _ | .closeLogical _ _ | .revokeSession _ => true
  | .expireRoom _ | .expireScreen _ _ => true
  | _ => false

/-- A thread that has to take a lock waits while another one holds it. -/
def MachineAction.Enabled (m : Machine) : MachineAction → Prop
  | .spawn _ => True
  | .step n _ => (m.thread n).wants.all (fun lock => !m.taken n lock) = true
  | .other action => action.Enabled m.server ∧
      (action.locks = true → m.taken m.threads.length .session = false) ∧
      (action.calls = true → m.taken m.threads.length .room = false)

instance decidableStep (m : Machine) : (action : MachineAction) → Decidable (action.Enabled m)
  | .spawn _ => isTrue trivial
  | .step _ _ => inferInstanceAs (Decidable (_ = true))
  | .other _ => inferInstanceAs (Decidable (_ ∧ _))

def Machine.next (setup : Setup) (m : Machine) (event : MachineEvent) : Machine :=
  match event.action with
  | .spawn task => ⟨(task.start m.server).1, m.threads ++ [(task.start m.server).2]⟩
  | .step n fault =>
    ⟨((m.thread n).run setup event.env fault m.server).1,
      m.threads.set n ((m.thread n).run setup event.env fault m.server).2⟩
  | .other action => { m with server := m.server.next setup ⟨action, event.env⟩ }

def machine (setup : Setup) : System Machine MachineEvent where
  init m := (server setup).Reachable System.anyStep m.server ∧ m.threads = []
  step m event m' := event.action.Enabled m ∧ m' = m.next setup event

/-- One thread holds the room lock and has to take the session lock; another one holds the session
lock and has to take the room lock. -/
def Machine.CircularWait (m : Machine) : Prop :=
  ∃ n k, n ≠ k ∧ (m.thread n).holds .room = true ∧ (m.thread n).wants = some .session ∧
    (m.thread k).holds .session = true ∧ (m.thread k).wants = some .room

def Thread.breaks (st : ServerState) (fault : Option SendFault) : Thread → Bool
  | .send id :: rest => Thread.holds rest .room && (st.brokenLink id fault).isSome
  | _ => false

def Contained (m : Machine) (event : MachineEvent) : Prop :=
  match event.action with
  | .step n fault => (m.thread n).breaks m.server fault = false
  | _ => True

instance decidableContained (m : Machine) : (event : MachineEvent) → Decidable (Contained m event)
  | ⟨.spawn _, _⟩ => isTrue trivial
  | ⟨.step _ _, _⟩ => inferInstanceAs (Decidable (_ = false))
  | ⟨.other _, _⟩ => isTrue trivial

/-! ### The session lock comes first -/

def Instr.calm : Instr → Bool
  | .send _ | .safe | .logged | .raise _ | .release _ => true
  | _ => false

def Thread.Calm (thread : Thread) : Prop :=
  thread.Pairwise fun entry below => below.holds .room = true → entry.calm = true

section Steps

variable {setup : Setup} {env : ServerEnv} {fault : Option SendFault} {st : ServerState}
  {entry : Instr} {rest new : Thread}

theorem calm_top (h : Thread.Calm (entry :: rest)) (hroom : Thread.holds rest .room = true) :
    entry.calm = true := by
  obtain ⟨below, hbelow, hholds⟩ := List.any_eq_true.mp hroom
  exact (List.pairwise_cons.mp h).1 below hbelow hholds

/-- The entry on top is replaced by calm ones, or there is no hold of the room lock below. -/
theorem calm_replace (h : Thread.Calm (entry :: rest)) (hnew : Thread.Calm new)
    (hcalm : Thread.holds rest .room = true → new.all Instr.calm = true) :
    Thread.Calm (new ++ rest) := by
  refine List.pairwise_append.mpr ⟨hnew, (List.pairwise_cons.mp h).2, ?_⟩
  intro above habove below hbelow hholds
  exact List.all_eq_true.mp (hcalm (List.any_eq_true.mpr ⟨below, hbelow, hholds⟩)) above habove

theorem calm_of_free (h : Thread.holds new .room = false) : Thread.Calm new := by
  refine List.pairwise_of_forall_mem_list ?_
  intro above _ below hbelow hholds
  exact absurd hholds (List.any_eq_false.mp h below hbelow)

theorem calm_of_all (h : new.all Instr.calm = true) : Thread.Calm new := by
  refine List.pairwise_of_forall_mem_list ?_
  intro above habove below _ _
  exact List.all_eq_true.mp h above habove

theorem sending_calm (plan : Call.Plan) : (sending plan).all Instr.calm = true := by
  simp [sending, List.all_flatMap, Instr.calm]

theorem free_work (work : SessionWork) (lock : Lock) :
    Thread.holds (work.run setup env st).2 lock = false := by
  cases work with
  | cleanup c => simp [SessionWork.run, Thread.holds, Instr.holds]
  | depart c logicalId =>
    simp only [SessionWork.run]
    split <;> simp [Thread.holds, disconnecting, Instr.holds, List.any_flatMap]
  | revoke id =>
    simp only [SessionWork.run]
    split_ifs <;> simp [Thread.holds, disconnecting, Instr.holds]

theorem calm_run (entry : Instr) : Thread.Calm (entry.run setup env fault st).2 := by
  cases entry with
  | call action => exact List.pairwise_singleton _ _
  | critical action =>
    apply calm_of_all
    simp only [Instr.run]
    split
    · split_ifs <;> simp [sending_calm, Instr.calm]
    · simp [Instr.calm]
  | take work => exact calm_of_free (by simp [Instr.run, Thread.holds, Instr.holds])
  | locked work => exact calm_of_free (free_work work .room)
  | discard id =>
    simp only [Instr.run]
    split
    · exact List.Pairwise.nil
    · exact List.pairwise_singleton _ _
  | send id =>
    apply calm_of_free
    simp only [Instr.run]
    split <;> simp [Thread.holds, Instr.holds]
  | emptied c | release lock | safe | logged | raise error => exact List.Pairwise.nil

theorem run_calm (hcalm : entry.calm = true)
    (hbreaks : ∀ id, entry = .send id → st.brokenLink id fault = none) :
    (entry.run setup env fault st).2.all Instr.calm = true := by
  cases entry with
  | send id =>
    simp only [Instr.run, hbreaks id rfl]
    split <;> simp [Instr.calm]
  | safe | logged | raise error | release lock => rfl
  | call _ | critical _ | take _ | locked _ | emptied _ | discard _ => cases hcalm

theorem pass_calm (error : Exn) (entry : Instr) : (entry.pass error).all Instr.calm = true := by
  unfold Instr.pass
  split
  · split_ifs <;> rfl
  · rfl
  · rfl

theorem calm_step {thread : Thread} (h : thread.Calm) (hbreaks : thread.breaks st fault = false) :
    Thread.Calm (thread.run setup env fault st).2 := by
  unfold Thread.run
  split
  · exact h
  · exact List.Pairwise.nil
  · rename_i error entry rest
    have hpass := pass_calm error entry
    exact calm_replace (List.pairwise_cons.mp h).2 (calm_of_all hpass) fun _ => hpass
  · rename_i entry rest _ _
    refine calm_replace h (calm_run entry) fun hroom => ?_
    refine run_calm (calm_top h hroom) fun id hsend => ?_
    subst hsend
    simpa [Thread.breaks, hroom] using hbreaks

theorem free_start (task : Task) (lock : Lock) : Thread.holds (task.start st).2 lock = false := by
  cases task with
  | call action => rfl
  | close c =>
    simp only [Task.start]
    split_ifs <;> rfl
  | closeLogical c logicalId =>
    simp only [Task.start]
    split_ifs <;> rfl
  | revoke id => rfl

theorem wants_of_calm {thread : Thread} (h : thread.Calm) (hroom : thread.holds .room = true) :
    thread.wants = none := by
  unfold Thread.wants
  split
  · exact absurd (calm_top h hroom) (by simp [Instr.calm])
  · exact absurd (calm_top h hroom) (by simp [Instr.calm])
  · rfl

end Steps

section Runs

variable {setup : Setup} {m : Machine}

def Machine.Calm (m : Machine) : Prop := ∀ thread ∈ m.threads, Thread.Calm thread

theorem Machine.Calm.thread (h : m.Calm) (n : Nat) : (m.thread n).Calm := by
  unfold Machine.thread
  rw [List.getD_eq_getElem?_getD]
  cases hn : m.threads[n]? with
  | none => exact List.Pairwise.nil
  | some thread => exact h thread (List.mem_of_getElem? hn)

theorem calm_next {event : MachineEvent} (h : m.Calm) (hok : Contained m event) :
    (m.next setup event).Calm := by
  obtain ⟨action, env⟩ := event
  cases action with
  | spawn task =>
    intro thread hthread
    rcases List.mem_append.mp hthread with hold | hnew
    · exact h thread hold
    · rw [List.mem_singleton.mp hnew]
      exact calm_of_free (free_start task .room)
  | step n fault =>
    intro thread hthread
    rcases List.mem_or_eq_of_mem_set hthread with hold | rfl
    · exact h thread hold
    · exact calm_step (h.thread n) hok
  | other action => exact h

theorem reachable_calm (h : (machine setup).Reachable Contained m) : m.Calm := by
  refine h.invariant (I := Machine.Calm) (fun m hm => ?_) fun m event m' hm hok hstep => ?_
  · intro thread hthread
    rw [hm.2] at hthread
    cases hthread
  · rw [hstep.2]
    exact calm_next hm hok

/-- If no send under the room lock breaks its link, a thread that holds the room lock waits for
nothing, whatever other writes fail. -/
theorem no_circular_wait (h : (machine setup).Reachable Contained m) : ¬m.CircularWait := by
  rintro ⟨n, k, -, hroom, hwants, -⟩
  rw [wants_of_calm ((reachable_calm h).thread n) hroom] at hwants
  cases hwants

end Runs

namespace Sample

/-- Alice and Bob have logged in, each on a link. -/
def seated : ServerState :=
  start.after setup (login 0 1 "tab-a" "alice" "alice-1" ++ login 1 2 "tab-b" "bob" "bob-1")

/-- Alice asks to join a room there is not while Bob's session is revoked. Her handler is about to
send its answer under the room lock; the revocation has the session lock. -/
def crossing : List MachineAction :=
  [.spawn (.call (Call.Sample.join "alice-1").action), .spawn (.revoke "bob-1"), .step 1 none,
    .step 1 none, .step 0 none, .step 0 none]

def crossed (fault : Option SendFault) : Machine :=
  ((crossing ++ [MachineAction.step 0 fault]).map fun action => ⟨action, clock 2⟩).foldl
    (Machine.next setup) { server := seated }

theorem reachable_crossed {ok : Machine → MachineEvent → Prop} {fault : Option SendFault}
    (h : System.Meets (Machine.next setup) (fun m event => event.action.Enabled m ∧ ok m event)
      { server := seated }
      ((crossing ++ [MachineAction.step 0 fault]).map fun action => ⟨action, clock 2⟩)) :
    (machine setup).Reachable ok (crossed fault) := by
  have hseated : (server setup).Reachable System.anyStep seated :=
    reachable_after started_start (by decide +kernel)
  have hstep : ∀ m event, MachineAction.Enabled m event.action →
      (machine setup).step m event (m.next setup event) := fun m event henabled => ⟨henabled, rfl⟩
  exact (System.Path.of_meets hstep .refl h).reachable (.init ⟨hseated, rfl⟩)

end Sample

open Sample in
theorem no_circular_wait_after_answer : ¬(crossed none).CircularWait ∧
    ((crossed none).thread 0).holds .room = true ∧
    ((crossed none).thread 1).wants = some .room :=
  ⟨no_circular_wait (reachable_crossed (by decide +kernel)), by decide +kernel, by decide +kernel⟩

open Sample in
/-- The write of the answer times out. -/
theorem circular_wait_after_timeout :
    (machine setup).Reachable System.anyStep (crossed (some .timeout)) ∧
      (crossed (some .timeout)).CircularWait :=
  ⟨reachable_crossed (by decide +kernel), 0, 1, by decide +kernel⟩

end CallBackend.Server
