import CallBackend.Lib.Recency
import CallBackend.Server.Walk

/-!
# Duplicate suppression

A session remembers the message ids it has seen last, and a message whose id is among them is not
handed to a handler. The window is refreshed by every presentation of an id, so it is exactly the
window of the ids presented last. Along a run of the server it is followed for all sessions at once:
besides handling a message, no step changes the window of a session, and a new session starts with an
empty one.
-/

namespace CallBackend.Server

open Exec Function

/-! ### One session -/

def ServerState.withWindow (st : ServerState) (id : SessionId) (window : List Nat) : ServerState :=
  { st with objects := update st.objects id { st.objects id with dedup := window } }

section Calls

variable {setup : Setup} {env : ServerEnv} {st st' : ServerState} {id : SessionId}

theorem seenMessage_eq (messageId : Nat) : seenMessage setup id messageId env st =
    (.ok (decide (messageId ∈ (st.objects id).dedup)),
      st.withWindow id (Recency.present setup.config.dedupCacheSize (st.objects id).dedup messageId)) :=
  rfl

end Calls

/-! ### Runs -/

/-- The server, with the message ids that have been presented to each session. -/
structure Deliveries where
  server : ServerState
  presented : SessionId → List Nat := fun _ => []

/-- The message an event presents to its session. -/
def Event.presents (event : Event) (st : ServerState) : Option Invocation :=
  match event.action with
  | .serve n _ => st.inflight[n]?
  | _ => none

def Deliveries.next (setup : Setup) (d : Deliveries) (event : Event) : Deliveries where
  server := d.server.next setup event
  presented :=
    match event.presents d.server with
    | some invocation => update d.presented invocation.session
        (d.presented invocation.session ++ [invocation.messageId])
    | none => d.presented

/-- Sessions that a process loads start with empty windows. -/
def deliveries (setup : Setup) : System Deliveries Event where
  init d := d.server.Started ∧ (∀ id, (d.server.objects id).dedup = []) ∧ d.presented = fun _ => []
  step d event d' := event.action.Enabled d.server ∧ d' = d.next setup event

structure Unread (st st' : ServerState) : Prop where
  windows : ∀ id, (st'.objects id).dedup = (st.objects id).dedup
  known : st'.known = st.known
  inflight : st'.inflight = st.inflight

structure Arrival (fresh : SessionId) (st st' : ServerState) : Prop where
  windows : (st.objects fresh).dedup = [] → ∀ id, (st'.objects id).dedup = (st.objects id).dedup
  known : ∀ id ∈ st.known, id ∈ st'.known
  inflight : st'.inflight = st.inflight

section Runs

variable {setup : Setup} {env : ServerEnv} {st st' st'' : ServerState} {fresh : SessionId}

theorem dedup_update {id : SessionId} {session : Session} (h : session.dedup = (st.objects id).dedup)
    (other : SessionId) :
    (update st.objects id session other).dedup = (st.objects other).dedup := by
  by_cases heq : other = id
  · rw [heq, update_self, h]
  · rw [update_of_ne heq]

theorem unread_encloses : Encloses Unread where
  refl _ := ⟨fun _ => rfl, rfl, rfl⟩
  trans _ _ _ h h' := ⟨fun id => (h'.windows id).trans (h.windows id), h'.known.trans h.known,
    h'.inflight.trans h.inflight⟩
  session _ hdedup := ⟨dedup_update hdedup, rfl, rfl⟩
  rest hobjects hknown _ _ _ hinflight := ⟨fun _ => by rw [hobjects], hknown, hinflight⟩
  unbound st id := by
    refine ⟨dedup_update rfl, ?_, ?_⟩
    · rw [unbound_rest]
    · rw [unbound_rest]
  unregistered _ _ := ⟨fun _ => rfl, rfl, rfl⟩
  unnamed _ := ⟨dedup_update rfl, rfl, rfl⟩
  promoted _ _ _ _ := ⟨dedup_update rfl, rfl, rfl⟩
  shut _ _ := ⟨fun _ => rfl, rfl, rfl⟩
  cleaning _ := ⟨fun _ => rfl, rfl, rfl⟩
  emptied _ := ⟨fun _ => rfl, rfl, rfl⟩
  left _ _ _ := ⟨fun _ => rfl, rfl, rfl⟩

theorem Unread.arrival (h : Unread st st') : Arrival fresh st st' :=
  ⟨fun _ => h.windows, fun _ hid => h.known ▸ hid, h.inflight⟩

theorem Arrival.trans (h : Arrival fresh st st') (h' : Arrival fresh st' st'') : Arrival fresh st st'' := by
  refine ⟨fun hempty id => ?_, fun id hid => h'.known id (h.known id hid), h'.inflight.trans h.inflight⟩
  have hwindows := h.windows hempty
  exact (h'.windows ((hwindows fresh).trans hempty) id).trans (hwindows id)

theorem arrival_connections (connections : ConnId → Connection) :
    Arrival fresh st { st with connections } :=
  ⟨fun _ _ => rfl, fun _ hid => hid, rfl⟩

theorem arrival_acceptNew (c : ConnId) (logicalId : LogicalId) :
    Moves (Arrival fresh) (acceptNew setup c logicalId fresh) := by
  apply moves_of_wp
  intro env st
  simp only [acceptNew, create, setSession, wp_do, wp_ensure]
  refine wp_mono (unread_encloses.expireSessions env.now).wp
    (fun _ st₁ h₁ => ⟨fun _ => ?_, fun _ => h₁.arrival⟩) fun _ _ h₁ => h₁.arrival
  apply wp_admitLogicalId
  · intro times
    refine h₁.arrival.trans ⟨fun hempty id => ?_, fun id hid => List.mem_append_left _ hid, rfl⟩
    exact dedup_update hempty.symm id
  · intro e times
    exact h₁.arrival.trans (arrival_connections _)

theorem arrival_acceptExisting (c : ConnId) (logicalId : LogicalId) (id : SessionId) :
    Moves (Arrival fresh) (acceptExisting setup c logicalId id) := by
  apply moves_of_wp
  intro env st
  simp only [acceptExisting, setConnection, setSession, wp_do, wp_ite]
  apply wp_admitLogicalId
  · intro times
    refine ⟨fun _ => ?_, fun _ => ?_⟩
    · exact (arrival_connections _).trans (arrival_connections _)
    · exact ⟨fun _ => dedup_update rfl, fun _ hid => hid, rfl⟩
  · intro e times
    exact arrival_connections _

theorem arrival_acceptMessage (c : ConnId) (logicalId : LogicalId) :
    Moves (Arrival fresh) (acceptMessage setup c logicalId fresh) := by
  apply moves_of_wp
  intro env st
  simp only [acceptMessage, wp_do]
  cases st.logicalSessions logicalId with
  | none => exact (arrival_acceptNew c logicalId).wp
  | some id =>
    rw [wp_ite, wp_bind]
    refine ⟨fun _ => ?_, fun _ => (arrival_acceptExisting c logicalId id).wp⟩
    refine wp_mono (unread_encloses.discardSession id).wp (fun _ st₁ h₁ => ?_) fun _ _ h₁ => h₁.arrival
    exact wp_mono (arrival_acceptNew c logicalId).wp (fun _ _ => h₁.arrival.trans)
      fun _ _ => h₁.arrival.trans

theorem ServerState.Wellformed.known_of_bound {id : SessionId} {c : ConnId} (h : st.Wellformed)
    (hlink : (st.objects id).connection = some c) : id ∈ st.known := by
  by_contra hunused
  have hnone := congrArg SessionCore.connection (h.unused id hunused).1
  exact Option.some_ne_none c (hlink.symm.trans hnone)

/-! ### The windows of all sessions -/

structure Deliveries.Exact (setup : Setup) (d : Deliveries) : Prop where
  wellformed : d.server.Wellformed
  windows : ∀ id, (d.server.objects id).dedup =
    Recency.recent setup.config.dedupCacheSize (d.presented id)
  unused : ∀ id, id ∉ d.server.known → d.presented id = []
  messages : ∀ invocation ∈ d.server.inflight, invocation.session ∈ d.server.known

variable {d d' : Deliveries} {event : Event}

theorem recent_nil (limit : Nat) : Recency.recent limit ([] : List Nat) = [] := by
  rw [Recency.recent, List.dedup_nil, Recency.lastOf, List.drop_nil]

/-- A state in which windows are as before, no used id is given up, and every message is for a
session whose id is used. -/
structure Deliveries.Keeps (d : Deliveries) (st' : ServerState) : Prop where
  windows : ∀ id, (st'.objects id).dedup = (d.server.objects id).dedup
  known : ∀ id ∈ d.server.known, id ∈ st'.known
  messages : ∀ invocation ∈ st'.inflight, invocation.session ∈ st'.known

theorem Deliveries.Exact.keep (h : d.Exact setup) (hwell : st'.Wellformed) (hkeeps : d.Keeps st') :
    Deliveries.Exact setup ⟨st', d.presented⟩ :=
  ⟨hwell, fun id => (hkeeps.windows id).trans (h.windows id),
    fun id hunused => h.unused id fun hid => hunused (hkeeps.known id hid), hkeeps.messages⟩

theorem Deliveries.Exact.of_unread (h : d.Exact setup) (hunread : Unread d.server st') :
    d.Keeps st' := by
  refine ⟨hunread.windows, fun _ hid => hunread.known ▸ hid, fun invocation hmem => ?_⟩
  rw [hunread.inflight] at hmem
  exact hunread.known ▸ h.messages invocation hmem

theorem Deliveries.Exact.keeps_receive (h : d.Exact setup) (c : ConnId) (logicalId : LogicalId)
    (messageId : Nat) (message : Json) (hfresh : fresh ∉ d.server.known) :
    wp (receive setup c logicalId messageId message fresh) env d.server (fun _ => d.Keeps)
      fun _ => d.Keeps := by
  have hempty : (d.server.objects fresh).dedup = [] := by
    rw [h.windows, h.unused fresh hfresh, recent_nil]
  simp only [receive, wp_do, wp_ite, wp_rescue, markClosed]
  refine ⟨fun _ => ⟨fun _ => rfl, fun _ hid => hid, h.messages⟩, fun _ => ?_⟩
  have hbound : wp (acceptMessage setup c logicalId fresh) env d.server
      (fun id st' => id ∈ st'.known) fun _ _ => True := by
    refine wp_acceptMessage h.wellformed hfresh (fun _ _ _ _ _ _ _ => trivial)
      (fun id trace st' _ (hrun : Run setup env True trace d.server st') hlink => ?_)
      fun _ _ _ _ _ => trivial
    exact (hrun.wellformed h.wellformed).known_of_bound hlink
  refine wp_mono (wp_and hbound (arrival_acceptMessage c logicalId).wp) (fun id st₁ h₁ => ?_)
    fun _ st₁ h₁ => ?_
  · refine ⟨h₁.2.windows hempty, h₁.2.known, fun invocation hmem => ?_⟩
    rcases List.mem_append.mp hmem with hmem | hmem
    · rw [h₁.2.inflight] at hmem
      exact h₁.2.known _ (h.messages _ hmem)
    · rw [List.mem_singleton.mp hmem]
      exact h₁.1
  · refine ⟨h₁.2.windows hempty, h₁.2.known, fun invocation hmem => ?_⟩
    have hold : invocation ∈ d.server.inflight := h₁.2.inflight ▸ hmem
    exact h₁.2.known _ (h.messages _ hold)

theorem Deliveries.Exact.presenting (hlimit : 1 ≤ setup.config.dedupCacheSize) (h : d.Exact setup)
    {n : Nat} {invocation : Invocation} (hinvocation : d.server.inflight[n]? = some invocation)
    (hwell : st'.Wellformed)
    (hunread : Unread (ServerState.withWindow
      { d.server with inflight := d.server.inflight.eraseIdx n } invocation.session
      (Recency.present setup.config.dedupCacheSize (d.server.objects invocation.session).dedup
        invocation.messageId)) st') :
    Deliveries.Exact setup ⟨st', update d.presented invocation.session
      (d.presented invocation.session ++ [invocation.messageId])⟩ := by
  have hsession : invocation.session ∈ d.server.known :=
    h.messages invocation (List.mem_of_getElem? hinvocation)
  refine ⟨hwell, fun id => ?_, fun id hid => ?_, fun other hmem => ?_⟩
  · rw [hunread.windows]
    by_cases heq : id = invocation.session
    · simp only [ServerState.withWindow, heq, update_self]
      rw [h.windows, Recency.present_recent hlimit]
    · simp only [ServerState.withWindow, update_of_ne heq]
      exact h.windows id
  · have hunused : id ∉ d.server.known := fun hknown => hid (hunread.known ▸ hknown)
    have hne : id ≠ invocation.session := fun heq => hunused (heq ▸ hsession)
    simp only [update_of_ne hne]
    exact h.unused id hunused
  · have hold : other ∈ d.server.inflight := List.mem_of_mem_eraseIdx (hunread.inflight ▸ hmem)
    exact hunread.known ▸ h.messages other hold

/-- After the look into the window the message is handled, which changes no window. -/
theorem unread_serve {n : Nat} {invocation : Invocation} (verified : Option (String × QAppIdentity))
    (hinvocation : st.inflight[n]? = some invocation) :
    Unread (ServerState.withWindow { st with inflight := st.inflight.eraseIdx n } invocation.session
      (Recency.present setup.config.dedupCacheSize (st.objects invocation.session).dedup
        invocation.messageId)) (st.next setup ⟨.serve n verified, env⟩) := by
  obtain ⟨window, hwindow⟩ : ∃ window, window = ServerState.withWindow
      { st with inflight := st.inflight.eraseIdx n } invocation.session
      (Recency.present setup.config.dedupCacheSize (st.objects invocation.session).dedup
        invocation.messageId) := ⟨_, rfl⟩
  rw [← hwindow]
  refine wp_final (p := Unread window) (m := do serveNext setup n verified; return Reply.done) ?_
  simp only [serveNext, wp_do, hinvocation]
  rw [serve, wp_bind]
  refine wp_of_ok (seenMessage_eq invocation.messageId) ?_
  rw [← hwindow, wp_ite]
  exact ⟨fun _ => unread_encloses.refl window,
    fun _ => unread_encloses.handled setup env invocation verified (unread_encloses.refl window)⟩

theorem next_serve_of_none {n : Nat} (verified : Option (String × QAppIdentity))
    (hnone : st.inflight[n]? = none) : st.next setup ⟨.serve n verified, env⟩ = st := by
  refine wp_final (p := fun st' => st' = st) (m := do serveNext setup n verified; return Reply.done) ?_
  simp only [serveNext, wp_do, hnone]

theorem Deliveries.Exact.next (hlimit : 1 ≤ setup.config.dedupCacheSize) (h : d.Exact setup)
    (henabled : event.action.Enabled d.server) : (d.next setup event).Exact setup := by
  have hwell : (d.server.next setup event).Wellformed := wellformed_next h.wellformed henabled
  obtain ⟨action, env⟩ := event
  have hinternal : action.isInternal = true → (d.next setup ⟨action, env⟩).Exact setup := by
    intro hinternal
    have hkeeps : d.Keeps (d.server.next setup ⟨action, env⟩) :=
      h.of_unread (unread_encloses.run hinternal env d.server)
    cases action with
    | receive => exact absurd hinternal Bool.false_ne_true
    | serve => exact absurd hinternal Bool.false_ne_true
    | _ => exact h.keep hwell hkeeps
  cases action with
  | receive c logicalId messageId message fresh =>
    have hfresh : fresh ∉ d.server.known := by simpa [Action.newSession] using henabled.2
    have hkeeps : d.Keeps (d.server.next setup ⟨.receive c logicalId messageId message fresh, env⟩) := by
      refine wp_final (p := d.Keeps)
        (m := do receive setup c logicalId messageId message fresh; return Reply.done) ?_
      rw [wp_bind]
      exact h.keeps_receive c logicalId messageId message hfresh
    exact h.keep hwell hkeeps
  | serve n verified =>
    unfold Deliveries.next Event.presents
    dsimp only
    cases hinvocation : d.server.inflight[n]? with
    | none =>
      rw [next_serve_of_none verified hinvocation]
      exact h
    | some invocation => exact h.presenting hlimit hinvocation hwell (unread_serve verified hinvocation)
  | _ => exact hinternal rfl

end Runs

end CallBackend.Server
