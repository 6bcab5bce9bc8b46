import CallBackend.Server.Growth

/-!
# Frames on a link

`PhysicalConnection.receive` runs in a thread of its own for every chunk of bytes. It tests once
whether the link is closed, parses the chunk into frames and dispatches them one by one; a `DATA`
frame is bound to a session, handled and acknowledged before the next frame's turn. Threads on one
link or several, and everything else the server does, are interleaved in any way. Whatever a frame
raises ends its thread and closes the link, and so does a write that fails.

Closing a link from elsewhere does not stop a thread that still has frames: the next frame is
dispatched on the closed link. If no link is closed while a thread on it has frames left or a
message under way, then nothing happens on a link once its clean-up is through.
-/

namespace CallBackend.Server

open Exec

inductive Frame where
  | ack
  | ping
  /-- A `CLOSE` control. -/
  | close (logicalId : LogicalId)
  | data (logicalId : LogicalId) (messageId : Nat) (message : Json)
  /-- A frame whose payload does not decode. -/
  | malformed

/-- Where a thread in `receive` is. -/
inductive Phase where
  /-- Between two frames. -/
  | ready
  /-- In `_application_message`, with a message bound to a session and not yet handled. -/
  | handling (messageId : Nat)
  /-- About to write an acknowledgement, or a `PONG`. -/
  | writing

/-- A thread in `receive`, with the frames of its chunk that are left. -/
structure Reader where
  link : ConnId
  frames : List Frame
  phase : Phase

structure Intake where
  server : ServerState
  readers : List Reader := []
  /-- History: the messages that have been taken up, in order. -/
  handled : List Invocation := []

inductive IntakeAction where
  /-- A call of `receive`. -/
  | chunk (c : ConnId) (frames : List Frame)
  /-- The n-th thread dispatches its next frame; `fresh` is the id a new session gets. -/
  | dispatch (n : Nat) (fresh : SessionId)
  /-- The n-th thread takes up its message, which is the k-th of those under way. -/
  | serve (n k : Nat) (verified : Option (String × QAppIdentity))
  /-- The n-th thread writes; the write may fail. -/
  | write (n : Nat) (delivered : Bool)
  /-- Anything that is not done by a thread in `receive`. -/
  | other (action : Action)

structure IntakeEvent where
  action : IntakeAction
  env : ServerEnv

def Action.byReader : Action → Bool
  | .receive _ _ _ _ _ | .serve _ _ | .closeLogical _ _ => true
  | _ => false

/-- What dispatching a frame amounts to for the server. -/
def Frame.action (c : ConnId) (fresh : SessionId) : Frame → Option Action
  | .ack | .ping => none
  | .close logicalId => some (.closeLogical c logicalId)
  | .data logicalId messageId message => some (.receive c logicalId messageId message fresh)
  | .malformed => some (.close c)

/-- `_dispatch`: what the server does, and where the thread is afterwards, unless it has ended. -/
def Frame.dispatch (setup : Setup) (st : ServerState) (env : ServerEnv) (c : ConnId)
    (rest : List Frame) (fresh : SessionId) : Frame → List Event × Option Reader
  | .ack => ([], some ⟨c, rest, .ready⟩)
  | .ping => ([], some ⟨c, rest, .writing⟩)
  | .close logicalId =>
    let event : Event := ⟨.closeLogical c logicalId, env⟩
    if (st.reply setup event).isSome then ([event], some ⟨c, rest, .ready⟩)
    else ([event, ⟨.close c, env⟩], none)
  | .data logicalId messageId message =>
    let event : Event := ⟨.receive c logicalId messageId message fresh, env⟩
    ([event],
      if (st.reply setup event).isNone then none
      else if logicalId ∈ (st.connections c).closedLogicalIds ∨ !isHandled message then
        some ⟨c, rest, .writing⟩
      else some ⟨c, rest, .handling messageId⟩)
  | .malformed => ([⟨.close c, env⟩], none)

def Intake.advance (setup : Setup) (s : Intake) (n : Nat) (turn : List Event × Option Reader) : Intake :=
  { s with
    server := s.server.after setup turn.1
    readers :=
      match turn.2 with
      | some reader => s.readers.set n reader
      | none => s.readers.eraseIdx n }

def Intake.next (setup : Setup) (s : Intake) (event : IntakeEvent) : Intake :=
  match event.action with
  | .chunk c frames =>
    if (s.server.connections c).closed then s
    else { s with readers := s.readers ++ [⟨c, frames, .ready⟩] }
  | .dispatch n fresh =>
    match s.readers[n]? with
    | some ⟨c, frame :: rest, .ready⟩ =>
      s.advance setup n (frame.dispatch setup s.server event.env c rest fresh)
    | _ => s
  | .serve n k verified =>
    match s.readers[n]?, s.server.inflight[k]? with
    | some ⟨c, rest, .handling messageId⟩, some invocation =>
      if invocation.connection = c ∧ invocation.messageId = messageId then
        let served : Event := ⟨.serve k verified, event.env⟩
        { s.advance setup n ([served],
            if (s.server.reply setup served).isSome then some ⟨c, rest, .writing⟩ else none) with
          handled := s.handled ++ [invocation] }
      else s
    | _, _ => s
  | .write n delivered =>
    match s.readers[n]? with
    | some ⟨c, rest, .writing⟩ =>
      if (s.server.connections c).closed then s.advance setup n ([], none)
      else if delivered then s.advance setup n ([], some ⟨c, rest, .ready⟩)
      else s.advance setup n ([⟨.close c, event.env⟩], none)
    | _ => s
  | .other action => { s with server := s.server.next setup ⟨action, event.env⟩ }

def Intake.action (s : Intake) : IntakeAction → Option Action
  | .dispatch n fresh =>
    match s.readers[n]? with
    | some ⟨c, frame :: _, .ready⟩ => frame.action c fresh
    | _ => none
  | .other action => some action
  | _ => none

/-- What threads in `receive` do is left to them. -/
def IntakeAction.proper : IntakeAction → Bool
  | .other action => !action.byReader
  | _ => true

def IntakeEvent.Enabled (s : Intake) (event : IntakeEvent) : Prop :=
  event.action.proper = true ∧ ∀ action ∈ s.action event.action, action.Enabled s.server

instance (s : Intake) (event : IntakeEvent) : Decidable (event.Enabled s) :=
  inferInstanceAs (Decidable (_ ∧ _))

/-- The server with the threads that read from its links. -/
def intake (setup : Setup) : System Intake IntakeEvent where
  init s := s.server.Started ∧ s.readers = [] ∧ s.handled = []
  step s event s' := event.Enabled s ∧ s' = s.next setup event

def Intake.after (setup : Setup) (s : Intake) (events : List IntakeEvent) : Intake :=
  events.foldl (Intake.next setup) s

/-- Every event of the sequence can happen, and meets the condition, where it happens. -/
abbrev Intake.Meets (setup : Setup) (ok : Intake → IntakeEvent → Prop) :
    Intake → List IntakeEvent → Prop :=
  System.Meets (Intake.next setup) fun s event => event.Enabled s ∧ ok s event

theorem intake_path_after {setup : Setup} {ok : Intake → IntakeEvent → Prop} {s : Intake}
    {events : List IntakeEvent} (h : s.Meets setup ok events) :
    (intake setup).Path ok s (s.after setup events) := by
  have hstep : ∀ s event, event.Enabled s → (intake setup).step s event (s.next setup event) :=
    fun s event henabled => ⟨henabled, rfl⟩
  exact System.Path.of_meets hstep .refl h

/-! ### What a step does -/

def Reader.active (reader : Reader) : Bool :=
  match reader.phase with
  | .ready => !reader.frames.isEmpty
  | .handling _ => true
  | .writing => false

def Intake.Busy (s : Intake) (c : ConnId) : Prop :=
  ∃ reader ∈ s.readers, reader.link = c ∧ reader.active = true

structure Intake.Progress (setup : Setup) (s s' : Intake) : Prop where
  server : ∃ events, s'.server = s.server.after setup events ∧
    s.server.Meets setup System.anyStep events ∧ ∀ event ∈ events, ∀ c ∈ event.action.grows, s.Busy c
  readers : ∀ reader ∈ s'.readers, reader ∈ s.readers ∨
    (s.server.connections reader.link).closed = false ∨ s.Busy reader.link
  handled : s'.handled = s.handled ∨
    ∃ invocation, s'.handled = s.handled ++ [invocation] ∧ s.Busy invocation.connection

section Steps

variable {setup : Setup} {s s' : Intake} {c : ConnId}

theorem enabled_close (st : ServerState) (c : ConnId) : (Action.close c).Enabled st :=
  ⟨fun h => absurd h Bool.false_ne_true, rfl⟩

theorem enabled_serve (st : ServerState) (n : Nat) (verified : Option (String × QAppIdentity)) :
    (Action.serve n verified).Enabled st :=
  ⟨fun h => absurd h Bool.false_ne_true, rfl⟩

theorem busy_of_get {n : Nat} {reader : Reader} (h : s.readers[n]? = some reader)
    (hactive : reader.active = true) : s.Busy reader.link :=
  ⟨reader, List.mem_of_getElem? h, rfl, hactive⟩

theorem progress_advance {n : Nat} {turn : List Event × Option Reader}
    (hmeets : s.server.Meets setup System.anyStep turn.1)
    (hgrows : ∀ event ∈ turn.1, ∀ c ∈ event.action.grows, s.Busy c)
    (hreader : ∀ reader, turn.2 = some reader →
      (s.server.connections reader.link).closed = false ∨ s.Busy reader.link) :
    s.Progress setup (s.advance setup n turn) := by
  refine ⟨⟨turn.1, rfl, hmeets, hgrows⟩, fun reader hmem => ?_, .inl rfl⟩
  unfold Intake.advance at hmem
  cases hturn : turn.2 with
  | none =>
    simp only [hturn] at hmem
    exact .inl (List.mem_of_mem_eraseIdx hmem)
  | some new =>
    simp only [hturn] at hmem
    rcases List.mem_or_eq_of_mem_set hmem with hmem | rfl
    · exact .inl hmem
    · exact .inr (hreader _ hturn)

theorem progress_refl (s : Intake) : s.Progress setup s :=
  ⟨⟨[], rfl, trivial, fun _ h => nomatch h⟩, fun _ h => .inl h, .inl rfl⟩

variable (setup) in
theorem dispatch_spec (env : ServerEnv) {st : ServerState} (frame : Frame) (rest : List Frame)
    (fresh : SessionId) (henabled : ∀ action ∈ frame.action c fresh, action.Enabled st) :
    st.Meets setup System.anyStep (frame.dispatch setup st env c rest fresh).1 ∧
      (∀ event ∈ (frame.dispatch setup st env c rest fresh).1, ∀ d ∈ event.action.grows, d = c) ∧
      ∀ reader, (frame.dispatch setup st env c rest fresh).2 = some reader → reader.link = c := by
  cases frame with
  | ack => exact ⟨trivial, fun _ h => (nomatch h), fun _ h => by cases h; rfl⟩
  | ping => exact ⟨trivial, fun _ h => (nomatch h), fun _ h => by cases h; rfl⟩
  | close logicalId =>
    have hclose := henabled _ rfl
    simp only [Frame.dispatch]
    split_ifs
    · refine ⟨⟨⟨hclose, trivial⟩, trivial⟩, fun event hmem d hd => ?_, fun _ h => by cases h; rfl⟩
      rw [List.mem_singleton.1 hmem] at hd
      exact absurd hd (Set.notMem_empty d)
    · refine ⟨⟨⟨hclose, trivial⟩, ⟨enabled_close _ c, trivial⟩, trivial⟩, fun event hmem d hd => ?_,
        fun _ h => nomatch h⟩
      simp only [List.mem_cons, List.not_mem_nil, or_false] at hmem
      rcases hmem with rfl | rfl
      · exact absurd hd (Set.notMem_empty d)
      · exact absurd hd (Set.notMem_empty d)
  | data logicalId messageId message =>
    refine ⟨⟨⟨henabled _ rfl, trivial⟩, trivial⟩, fun event hmem d hd => ?_, fun reader hreader => ?_⟩
    · rw [List.mem_singleton.1 hmem] at hd
      exact hd
    · simp only [Frame.dispatch] at hreader
      split_ifs at hreader <;> cases hreader <;> rfl
  | malformed =>
    refine ⟨⟨⟨enabled_close _ c, trivial⟩, trivial⟩, fun event hmem d hd => ?_, fun _ h => nomatch h⟩
    rw [List.mem_singleton.1 hmem] at hd
    exact absurd hd (Set.notMem_empty d)

variable (setup) in
theorem progress_next {event : IntakeEvent} (henabled : event.Enabled s) :
    s.Progress setup (s.next setup event) := by
  obtain ⟨action, env⟩ := event
  obtain ⟨hproper, henabled⟩ := henabled
  cases action with
  | chunk c frames =>
    simp only [Intake.next]
    split_ifs with hclosed
    · exact progress_refl s
    · refine ⟨⟨[], rfl, trivial, fun _ h => nomatch h⟩, fun reader hmem => ?_, .inl rfl⟩
      rcases List.mem_append.1 hmem with hmem | hmem
      · exact .inl hmem
      · rw [List.mem_singleton.1 hmem]
        exact .inr (.inl (by simpa using hclosed))
  | dispatch n fresh =>
    simp only [Intake.next]
    split
    · rename_i c frame rest hreader
      have hbusy : s.Busy c := busy_of_get hreader rfl
      have hframe : ∀ action ∈ frame.action c fresh, action.Enabled s.server := by
        simpa only [Intake.action, hreader] using henabled
      obtain ⟨hmeets, hgrows, hlink⟩ := dispatch_spec setup env frame rest fresh hframe
      exact progress_advance hmeets (fun event hmem d hd => hgrows event hmem d hd ▸ hbusy)
        fun reader hsome => .inr (hlink reader hsome ▸ hbusy)
    · exact progress_refl s
  | serve n k verified =>
    simp only [Intake.next]
    split
    · rename_i c rest messageId invocation hreader hinflight
      have hbusy : s.Busy c := busy_of_get hreader rfl
      by_cases hown : invocation.connection = c ∧ invocation.messageId = messageId
      · rw [if_pos hown]
        have hadvance : s.Progress setup (s.advance setup n ([⟨.serve k verified, env⟩],
            if (s.server.reply setup ⟨.serve k verified, env⟩).isSome then some ⟨c, rest, .writing⟩
            else none)) := by
          refine progress_advance ⟨⟨enabled_serve _ k verified, trivial⟩, trivial⟩
            (fun event hmem d hd => ?_) fun reader hsome => ?_
          · rw [List.mem_singleton.1 hmem] at hd
            exact absurd hd (Set.notMem_empty d)
          · simp only at hsome
            split_ifs at hsome
            cases hsome
            exact .inr hbusy
        exact ⟨hadvance.server, hadvance.readers, .inr ⟨invocation, rfl, hown.1 ▸ hbusy⟩⟩
      · rw [if_neg hown]
        exact progress_refl s
    · exact progress_refl s
  | write n delivered =>
    simp only [Intake.next]
    split
    · rename_i c rest hreader
      split_ifs with hclosed hdelivered
      · exact progress_advance trivial (fun _ h => nomatch h) fun _ h => nomatch h
      · refine progress_advance trivial (fun _ h => nomatch h) fun reader hsome => ?_
        cases hsome
        exact .inl (by simpa using hclosed)
      · refine progress_advance ⟨⟨enabled_close _ c, trivial⟩, trivial⟩ (fun event hmem d hd => ?_)
          fun _ h => nomatch h
        rw [List.mem_singleton.1 hmem] at hd
        exact absurd hd (Set.notMem_empty d)
    · exact progress_refl s
  | other action =>
    refine ⟨⟨[⟨action, env⟩], rfl, ⟨⟨henabled action rfl, trivial⟩, trivial⟩, fun event hmem d hd => ?_⟩,
      fun _ h => .inl h, .inl rfl⟩
    rw [List.mem_singleton.1 hmem] at hd
    cases action with
    | receive => exact absurd hproper (by simp [IntakeAction.proper, Action.byReader])
    | _ => exact absurd hd (Set.notMem_empty d)

end Steps

/-! ### Runs -/

def Undisturbed (setup : Setup) (s : Intake) (event : IntakeEvent) : Prop :=
  ∀ reader ∈ (s.next setup event).readers, (s.server.connections reader.link).closed = false →
    ((s.next setup event).server.connections reader.link).closed = true → reader.active = false

instance (setup : Setup) (s : Intake) (event : IntakeEvent) : Decidable (Undisturbed setup s event) :=
  inferInstanceAs (Decidable (∀ _ ∈ _, _))

section Runs

variable {setup : Setup} {s s' s'' : Intake} {c : ConnId} {ok : Intake → IntakeEvent → Prop}

theorem reachable_server (h : (intake setup).Reachable ok s) :
    (server setup).Reachable System.anyStep s.server := by
  refine h.invariant (I := fun s => (server setup).Reachable System.anyStep s.server)
    (fun s hs => ?_) fun s event s' hs _ hstep => ?_
  · obtain ⟨hstarted, -⟩ := hs
    exact .init hstarted
  · obtain ⟨events, hserver, hmeets, -⟩ := (progress_next setup hstep.1).server
    rw [hstep.2, hserver]
    exact (path_after hmeets).reachable hs

def Intake.Settled (s : Intake) : Prop :=
  ∀ c, s.Busy c → (s.server.connections c).closed = false

theorem settled_next {event : IntakeEvent} (henabled : event.Enabled s)
    (hok : Undisturbed setup s event) (hs : s.Settled) : (s.next setup event).Settled := by
  rintro c ⟨reader, hmem, rfl, hactive⟩
  -- Its link was open before the step, since otherwise it would not have been active, or begun.
  have hopen : (s.server.connections reader.link).closed = false := by
    rcases (progress_next setup henabled).readers reader hmem with hold | hopen | hbusy
    · exact hs _ ⟨reader, hold, rfl, hactive⟩
    · exact hopen
    · exact hs _ hbusy
  cases hclosed : ((s.next setup event).server.connections reader.link).closed with
  | false => rfl
  | true =>
    rw [hok reader hmem hopen hclosed] at hactive
    cases hactive

theorem reachable_settled (h : (intake setup).Reachable (Undisturbed setup) s) : s.Settled := by
  refine h.invariant (I := Intake.Settled) (fun s hs => ?_) fun s event s' hs hok hstep => ?_
  · rintro c ⟨reader, hmem, -⟩
    rw [hs.2.1] at hmem
    cases hmem
  · rw [hstep.2]
    exact settled_next hstep.1 hok hs

structure Intake.Silent (before : Intake) (c : ConnId) (s : Intake) : Prop where
  closed : (s.server.connections c).closed = true
  ids : (s.server.connections c).logicalIds = []
  links : ∀ id, (s.server.objects id).connection = some c → (before.server.objects id).connection = some c
  handled : (s.handled.filter fun invocation => invocation.connection = c) =
    before.handled.filter fun invocation => invocation.connection = c

theorem silent_next {before : Intake} {event : IntakeEvent} (henabled : event.Enabled s)
    (hs : s.Settled) (h : before.Silent c s) : before.Silent c (s.next setup event) := by
  have hidle : ¬s.Busy c := by
    intro hbusy
    have hclosed := h.closed
    rw [hs c hbusy] at hclosed
    cases hclosed
  obtain ⟨events, hserver, -, hgrows⟩ := (progress_next setup henabled).server
  have hevolution : Evolution {d | s.Busy d} s.server (s.next setup event).server := by
    rw [hserver]
    exact evolution_after s.server events hgrows
  refine ⟨hevolution.closed c h.closed, ?_, fun id hlink => h.links id (hevolution.link c hidle id hlink), ?_⟩
  · refine List.eq_nil_iff_forall_not_mem.2 fun logicalId hmem => ?_
    have hbefore : logicalId ∈ (s.server.connections c).logicalIds := hevolution.ids c hidle logicalId hmem
    rw [h.ids] at hbefore
    cases hbefore
  · rcases (progress_next setup henabled).handled with hsame | ⟨invocation, hnew, hbusy⟩
    · rw [hsame]
      exact h.handled
    · have hother : invocation.connection ≠ c := fun heq => hidle (heq ▸ hbusy)
      rw [hnew, List.filter_append, h.handled]
      simp [hother]

theorem reachable_stopped (h : (intake setup).Reachable ok s) {rest : List LogicalId}
    (hrunning : (s.server.connections c).cleanup = .running rest) :
    (s.server.connections c).closed = true := by
  have hserver := reachable_server h
  suffices hstopped : ∀ c rest, s.server.roster.cleanup c = .running rest →
      s.server.roster.closed c = true from hstopped c rest hrunning
  refine hserver.invariant (I := fun st => ∀ c rest, st.roster.cleanup c = .running rest →
    st.roster.closed c = true) (fun st hst => (started_ordered hst).stopped)
    fun st event st' hst _ hstep => ?_
  rw [hstep.2]
  exact (evolution_next setup st event).stopped hst

theorem next_endCleanup {st : ServerState} {env : ServerEnv}
    (hcleanup : (st.connections c).cleanup = .running []) :
    st.next setup ⟨.endCleanup c, env⟩ = { st with
      connections := Function.update st.connections c { st.connections c with
        logicalIds := [], newTimes := [], cleanup := .ended } } := by
  obtain ⟨emptied, hemptied⟩ : ∃ emptied, emptied = { st with
      connections := Function.update st.connections c { st.connections c with
        logicalIds := [], newTimes := [], cleanup := .ended } } := ⟨_, rfl⟩
  have hrun : wp (Action.run setup (.endCleanup c)) env st (fun _ st' => st' = emptied)
      fun _ st' => st' = emptied := by
    simp only [Action.run, Action.main, endCleanup, wp_do, hcleanup, cleanupEnd, hemptied]
  exact hemptied ▸ wp_final (p := fun st' => st' = emptied) hrun

/-- In every run in which no link is closed while a thread on it has a frame to dispatch or a message
under way: once the clean-up of a closed link is through, the link lists no logical id, no session is
bound to it that was not before, and no message that came over it is taken up. -/
theorem closed_link_silent {env : ServerEnv} (hreach : (intake setup).Reachable (Undisturbed setup) s)
    (hcleanup : (s.server.connections c).cleanup = .running [])
    (hdone : (intake setup).step s ⟨.other (.endCleanup c), env⟩ s')
    (hlater : (intake setup).Path (Undisturbed setup) s' s'') :
    (s''.server.connections c).logicalIds = [] ∧
      (∀ id, (s''.server.objects id).connection = some c → (s'.server.objects id).connection = some c) ∧
      (s''.handled.filter fun invocation => invocation.connection = c) =
        s'.handled.filter fun invocation => invocation.connection = c := by
  have hserver : s'.server = { s.server with
      connections := Function.update s.server.connections c { s.server.connections c with
        logicalIds := [], newTimes := [], cleanup := .ended } } := by
    rw [hdone.2]
    exact next_endCleanup hcleanup
  have hclosed : ∀ d, (s'.server.connections d).closed = (s.server.connections d).closed := by
    intro d
    rw [hserver]
    by_cases heq : d = c
    · simp [heq]
    · simp [heq]
  have hreach' : (intake setup).Reachable (Undisturbed setup) s' := by
    refine .step hreach (fun reader _ hopen hshut => ?_) hdone
    rw [← hdone.2, hclosed, hopen] at hshut
    cases hshut
  have hsilent : s'.Silent c s' := by
    refine ⟨?_, ?_, fun _ h => h, rfl⟩
    · rw [hclosed]
      exact reachable_stopped hreach hcleanup
    · rw [hserver]
      simp
  have hend : s'.Silent c s'' := by
    refine hlater.stable (I := fun s => s'.Silent c s) hreach' hsilent fun t event t' ht hsilent _ hstep => ?_
    rw [hstep.2]
    exact silent_next hstep.1 (reachable_settled ht) hsilent
  exact ⟨hend.ids, hend.links, hend.handled⟩

end Runs

namespace Sample

def event (n : Nat) (action : IntakeAction) : IntakeEvent := ⟨action, clock n⟩

/-- A link opens, carries a chunk, is closed by another thread, and is cleaned up but for the end. The
first message of the chunk has been acknowledged. -/
def closing (frames : List Frame) : List IntakeEvent :=
  [event 0 (.chunk 1 (.data "tab" 1 authenticate :: frames)), event 0 (.dispatch 0 "alice-1"),
    event 0 (.serve 0 0 none), event 0 (.write 0 true), event 1 (.other (.close 1)),
    event 1 (.other (.startCleanup 1)), event 1 (.other (.nextCleanup 1))]

/-- What a chunk on the closed link and the thread of the first chunk can still do. -/
def aftermath : List IntakeEvent :=
  [event 2 (.chunk 1 [.data "tab" 3 authenticate]), event 2 (.dispatch 0 "bob-1"),
    event 2 (.serve 0 0 none)]

def idle : Intake := { server := start }

theorem idle_init : (intake setup).init idle := ⟨started_start, rfl, rfl⟩

theorem reachable_closing {ok : Intake → IntakeEvent → Prop} {frames : List Frame}
    (h : idle.Meets setup ok (closing frames)) :
    (intake setup).Reachable ok (idle.after setup (closing frames)) :=
  (intake_path_after h).reachable (.init idle_init)

end Sample

open Sample in
theorem closed_link_silent_after_last_frame : ∃ s' s'' : Intake,
    (s'.server.connections 1).closed = true ∧ (s''.server.connections 1).logicalIds = [] ∧
    (∀ id, (s''.server.objects id).connection = some 1 → (s'.server.objects id).connection = some 1) ∧
    (s''.handled.filter fun invocation => invocation.connection = 1) =
      s'.handled.filter fun invocation => invocation.connection = 1 := by
  let s := idle.after setup (closing [])
  let s' := s.next setup (event 1 (.other (.endCleanup 1)))
  have hreach : (intake setup).Reachable (Undisturbed setup) s :=
    reachable_closing (by decide +kernel)
  have hdone : (intake setup).step s (event 1 (.other (.endCleanup 1))) s' :=
    ⟨by decide +kernel, rfl⟩
  have hlater : (intake setup).Path (Undisturbed setup) s'
      (s'.after setup aftermath) := intake_path_after (by decide +kernel)
  have hcleanup : (s.server.connections 1).cleanup = .running [] := by decide +kernel
  exact ⟨s', _, by decide +kernel, closed_link_silent hreach hcleanup hdone hlater⟩

open Sample in
/-- A frame of a chunk that came before the link was closed is dispatched after the clean-up: it opens a
session on the closed link, and its message is taken up. -/
theorem closed_link_takes_frame : ∃ s s' s'' : Intake,
    (intake setup).Reachable System.anyStep s ∧
    (s.server.connections 1).cleanup = .running [] ∧
    (intake setup).step s (event 1 (.other (.endCleanup 1))) s' ∧
    (intake setup).Path System.anyStep s' s'' ∧
    (s''.server.connections 1).logicalIds = ["other"] ∧
    (s'.server.objects "bob-1").connection = none ∧ (s''.server.objects "bob-1").connection = some 1 ∧
    (s''.handled.filter fun invocation => invocation.connection = 1).length =
      (s'.handled.filter fun invocation => invocation.connection = 1).length + 1 := by
  let s := idle.after setup (closing [.data "other" 2 Sample.authenticate])
  let s' := s.next setup (event 1 (.other (.endCleanup 1)))
  refine ⟨s, s', s'.after setup aftermath, ?_, ?_, ⟨?_, rfl⟩, ?_, ?_⟩
  · exact reachable_closing (by decide +kernel)
  · decide +kernel
  · decide +kernel
  · exact intake_path_after (by decide +kernel)
  · decide +kernel

end CallBackend.Server
