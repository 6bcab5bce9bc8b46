import CallBackend.Server.Service

/-!
# What a step of the server does to its sessions

Every function of the server moves the state along a run of updates: a session object is created,
bound to a link, promoted, unbound, or leaves the session manager; a message is bound to a session,
or taken up; the call service runs one of its handlers; credentials are invalidated; or nothing
changes that a session's identity or reach depends on. A run is labelled with the actions of the
call service's own transition system that it amounts to, so that facts about runs of the call
service carry over.

The invariants that make the updates meaningful hold in every state: an unused id has no object, and
the logical index leads to sessions that are bound and know their logical id.
-/

namespace CallBackend.Server

open Exec Function

/-! ### Updates -/

/-- What the invariants read of a session object: not its clocks, its Q-App, its transport or its
message window. -/
structure SessionCore where
  provisional : Bool := true
  authenticatedUser : Option String := none
  connection : Option ConnId := none
  qappConnectionId : Option LogicalId := none

def Session.core (session : Session) : SessionCore :=
  ⟨session.provisional, session.authenticatedUser, session.connection, session.qappConnectionId⟩

/-- Nothing has changed but links, clocks, message windows and the number of database writes. -/
structure Quiet (st st' : ServerState) : Prop where
  core : ∀ id, (st'.objects id).core = (st.objects id).core
  rest : st' = { st with
    objects := st'.objects
    connections := st'.connections
    dbWrites := st'.dbWrites }

def ServerState.unbound (st : ServerState) (id : SessionId) : ServerState :=
  { st.withoutIndexes id with
    objects := update st.objects id { st.objects id with connection := none } }

/-- Handlers of the call service. -/
def IsHandler : Call.Action → Prop
  | .message _ _ => True
  | .disconnected _ => True
  | .expireRoom _ => True
  | .expireScreen _ _ => True
  | _ => False

/-- One update, with the action of the call service it amounts to, if any. `takes` says whether a
session may be taken over by another link. -/
inductive Update (setup : Setup) (env : ServerEnv) (takes : Prop) :
    Option Call.Action → ServerState → ServerState → Prop
  | quiet {st st' : ServerState} (h : Quiet st st') : Update setup env takes none st st'
  | created {st : ServerState} {id : SessionId} {c : ConnId} {logicalId : LogicalId}
      {session : Session} (hunused : id ∉ st.known) (habsent : st.logicalSessions logicalId = none)
      (hsession : session.core = { connection := some c, qappConnectionId := some logicalId }) :
      Update setup env takes (some (.changed id .opened)) st { st with
        objects := update st.objects id session
        known := st.known ++ [id]
        registry := st.registry ++ [id]
        logicalSessions := update st.logicalSessions logicalId (some id) }
  | bound {st : ServerState} {id : SessionId} {c : ConnId} {logicalId : LogicalId}
      (hindex : st.logicalSessions logicalId = some id)
      (hlink : (st.objects id).connection = some c ∨ takes) :
      Update setup env takes none st { st with
        objects := update st.objects id { st.objects id with connection := some c } }
  | promoted {st : ServerState} {id : SessionId} {user : String} (now ttl : Nanos)
      (hregistered : id ∈ st.registry) :
      Update setup env takes (some (.changed id (.authenticated user))) st
        (st.withProof id ((st.objects id).promoted user now ttl))
  | posted {st : ServerState} (invocation : Invocation)
      (hlink : (st.objects invocation.session).connection = some invocation.connection) :
      Update setup env takes none st { st with inflight := st.inflight ++ [invocation] }
  | taken {st : ServerState} (n : Nat) :
      Update setup env takes none st { st with inflight := st.inflight.eraseIdx n }
  | invalidated {st : ServerState} (id : SessionId) :
      Update setup env takes none st (st.withoutCredentials env id)
  | unbound {st : ServerState} (id : SessionId) : Update setup env takes none st (st.unbound id)
  | unnamed {st : ServerState} (id : SessionId) (hconnection : (st.objects id).connection = none) :
      Update setup env takes none st { st with
        objects := update st.objects id { st.objects id with qappConnectionId := none } }
  | unregistered {st : ServerState} (id : SessionId) :
      Update setup env takes (some (.changed id .removed)) st
        { st with registry := st.registry.erase id }
  | called {st : ServerState} {action : Call.Action} (h : IsHandler action) :
      Update setup env takes (some action) st
        (st.called setup env action)

/-- A sequence of updates, with the actions of the call service in order. -/
inductive Run (setup : Setup) (env : ServerEnv) (takes : Prop) :
    List Call.Action → ServerState → ServerState → Prop
  | refl (st : ServerState) : Run setup env takes [] st st
  | step {trace : List Call.Action} {action : Option Call.Action} {st st' st'' : ServerState} :
      Run setup env takes trace st st' → Update setup env takes action st' st'' →
      Run setup env takes (trace ++ action.toList) st st''

/-! ### Invariants of every state -/

structure ServerState.Wellformed (st : ServerState) : Prop where
  unused : ∀ id, id ∉ st.known → (st.objects id).core = {} ∧ id ∉ st.registry
  indexed : ∀ logicalId id, st.logicalSessions logicalId = some id →
    (st.objects id).qappConnectionId = some logicalId ∧ (st.objects id).connection ≠ none
  nodup : st.registry.Nodup

section Runs

variable {setup : Setup} {env : ServerEnv} {takes : Prop}
  {action : Option Call.Action} {trace : List Call.Action} {st st' st'' : ServerState}

theorem Run.trans {trace' : List Call.Action} (h : Run setup env takes trace st st')
    (h' : Run setup env takes trace' st' st'') : Run setup env takes (trace ++ trace') st st'' := by
  induction h' with
  | refl => simpa using h
  | step _ hupdate ih => simpa using Run.step (ih h) hupdate

theorem Run.silent (h : Update setup env takes none st st') : Run setup env takes [] st st' :=
  Run.step (.refl st) h

theorem Run.act {label : Call.Action} (h : Update setup env takes (some label) st st') :
    Run setup env takes [label] st st' := Run.step (.refl st) h

theorem Run.silently (h : Run setup env takes trace st st')
    (hupdate : Update setup env takes none st' st'') : Run setup env takes trace st st'' := by
  simpa using h.step hupdate

theorem Run.quietly (h : Run setup env takes trace st st') (hquiet : Quiet st' st'') :
    Run setup env takes trace st st'' :=
  h.silently (.quiet hquiet)

theorem Run.keeps {I : ServerState → Prop} (h : Run setup env takes trace st st') (hst : I st)
    (hupdate : ∀ action st st', Update setup env takes action st st' → I st → I st') : I st' := by
  induction h with
  | refl => exact hst
  | step _ hstep ih => exact hupdate _ _ _ hstep (ih hst)

theorem Quiet.refl (st : ServerState) : Quiet st st := ⟨fun _ => rfl, rfl⟩

theorem Quiet.registry (h : Quiet st st') : st'.registry = st.registry := by
  rw [h.rest]

theorem Quiet.known (h : Quiet st st') : st'.known = st.known := by
  rw [h.rest]

theorem Quiet.logicalSessions (h : Quiet st st') : st'.logicalSessions = st.logicalSessions := by
  rw [h.rest]

theorem Quiet.call (h : Quiet st st') : st'.call = st.call := by
  rw [h.rest]

theorem Quiet.creators (h : Quiet st st') : st'.creators = st.creators := by
  rw [h.rest]

theorem views_congr (hcore : ∀ id, (st'.objects id).core = (st.objects id).core)
    (hregistry : st'.registry = st.registry) : st'.views = st.views := by
  funext id
  have hid := hcore id
  simp only [Session.core, SessionCore.mk.injEq] at hid
  simp only [ServerState.views, hid.1, hid.2.1, hregistry]

theorem withoutCredentials_core (env : ServerEnv) (id other : SessionId) :
    ((st.withoutCredentials env id).objects other).core = (st.objects other).core := by
  by_cases heq : other = id
  · simp [ServerState.withoutCredentials, heq, Session.core]
  · simp [ServerState.withoutCredentials, heq]

@[simp] theorem withoutIndexes_objects (id : SessionId) :
    (st.withoutIndexes id).objects = st.objects := by
  unfold ServerState.withoutIndexes
  split <;> rfl

@[simp] theorem withoutIndexes_registry (id : SessionId) :
    (st.withoutIndexes id).registry = st.registry := by
  unfold ServerState.withoutIndexes
  split <;> rfl

@[simp] theorem withoutIndexes_known (id : SessionId) : (st.withoutIndexes id).known = st.known := by
  unfold ServerState.withoutIndexes
  split <;> rfl

@[simp] theorem withoutIndexes_call (id : SessionId) : (st.withoutIndexes id).call = st.call := by
  unfold ServerState.withoutIndexes
  split <;> rfl

@[simp] theorem withoutIndexes_creators (id : SessionId) :
    (st.withoutIndexes id).creators = st.creators := by
  unfold ServerState.withoutIndexes
  split <;> rfl

theorem unbound_rest (id : SessionId) : st.unbound id = { st with
    objects := (st.unbound id).objects
    logicalSessions := (st.unbound id).logicalSessions
    connections := (st.unbound id).connections } := by
  unfold ServerState.unbound ServerState.withoutIndexes
  split <;> rfl

variable {id : SessionId} {logicalId : LogicalId}

/-- What is still indexed was indexed before, and not for the session that is unbound. -/
theorem ServerState.Wellformed.indexed_unbound (h : st.Wellformed) {other : SessionId}
    (hindex : (st.unbound id).logicalSessions logicalId = some other) :
    st.logicalSessions logicalId = some other ∧ other ≠ id := by
  have hold : st.logicalSessions logicalId = some other ∧
      ∀ name, (st.objects id).qappConnectionId = some name → other = id → logicalId ≠ name := by
    unfold ServerState.unbound ServerState.withoutIndexes at hindex
    cases hname : (st.objects id).qappConnectionId with
    | none =>
      simp only [hname] at hindex
      exact ⟨hindex, fun _ h => by cases h⟩
    | some name =>
      simp only [hname] at hindex
      split_ifs at hindex with hown
      · by_cases hsame : logicalId = name
        · rw [hsame, update_self] at hindex
          cases hindex
        · rw [update_of_ne hsame] at hindex
          refine ⟨hindex, fun _ h _ => ?_⟩
          cases h
          exact hsame
      · refine ⟨hindex, fun _ h hother hsame => ?_⟩
        cases h
        rw [hsame, hother] at hindex
        exact hown hindex
  refine ⟨hold.1, fun hother => ?_⟩
  have hname := (h.indexed _ _ hold.1).1
  rw [hother] at hname
  exact hold.2 logicalId hname hother rfl

theorem logicalSessions_unbound (habsent : st.logicalSessions logicalId = none) :
    (st.unbound id).logicalSessions logicalId = none := by
  unfold ServerState.unbound ServerState.withoutIndexes
  cases (st.objects id).qappConnectionId with
  | none => exact habsent
  | some name =>
    simp only
    split_ifs
    · by_cases hsame : logicalId = name
      · rw [hsame, update_self]
      · rw [update_of_ne hsame, habsent]
    · exact habsent

theorem ServerState.Wellformed.logicalSessions_unbound_self (h : st.Wellformed)
    (hindex : st.logicalSessions logicalId = some id) :
    (st.unbound id).logicalSessions logicalId = none := by
  simp only [ServerState.unbound, ServerState.withoutIndexes, (h.indexed logicalId id hindex).1,
    if_pos hindex, update_self]

theorem ServerState.Wellformed.set (h : st.Wellformed) (session : Session) (hknown : id ∈ st.known)
    (hname : session.qappConnectionId = (st.objects id).qappConnectionId)
    (hlink : (st.objects id).connection ≠ none → session.connection ≠ none) :
    ServerState.Wellformed { st with objects := update st.objects id session } := by
  refine ⟨fun other hother => ?_, fun logicalId other hindex => ?_, h.nodup⟩
  · have hne : other ≠ id := fun heq => hother (heq ▸ hknown)
    simpa only [update_of_ne hne] using h.unused other hother
  · obtain ⟨hother, hbound⟩ := h.indexed logicalId other hindex
    by_cases heq : other = id
    · subst heq
      simp only [update_self]
      exact ⟨hname.trans hother, hlink hbound⟩
    · simpa only [update_of_ne heq] using ⟨hother, hbound⟩

theorem ServerState.Wellformed.known_of_indexed (h : st.Wellformed)
    (hindex : st.logicalSessions logicalId = some id) : id ∈ st.known := by
  by_contra hunused
  have hname := (h.indexed logicalId id hindex).1
  have hnone : (st.objects id).qappConnectionId = none :=
    congrArg SessionCore.qappConnectionId (h.unused id hunused).1
  rw [hnone] at hname
  cases hname

theorem ServerState.Wellformed.known_of_registered (h : st.Wellformed) (hregistered : id ∈ st.registry) :
    id ∈ st.known := by
  by_contra hunused
  exact (h.unused id hunused).2 hregistered

/-- The invariants depend on what is registered and indexed and on the cores of the sessions. -/
theorem ServerState.Wellformed.congr (h : st.Wellformed)
    (hcore : ∀ id, (st'.objects id).core = (st.objects id).core) (hknown : st'.known = st.known)
    (hregistry : st'.registry = st.registry)
    (hindexes : st'.logicalSessions = st.logicalSessions) : st'.Wellformed := by
  refine ⟨fun id hid => ?_, fun logicalId id hindex => ?_, ?_⟩
  · rw [hcore, hregistry]
    exact h.unused id (hknown ▸ hid)
  · rw [hindexes] at hindex
    obtain ⟨hname, hbound⟩ := h.indexed logicalId id hindex
    exact ⟨(congrArg SessionCore.qappConnectionId (hcore id)).trans hname,
      fun hnone => hbound ((congrArg SessionCore.connection (hcore id)).symm.trans hnone)⟩
  · rw [hregistry]
    exact h.nodup

theorem Quiet.wellformed (h : Quiet st st') (hst : st.Wellformed) : st'.Wellformed :=
  hst.congr h.core h.known h.registry h.logicalSessions

theorem ServerState.Wellformed.unbound (h : st.Wellformed) (id : SessionId) :
    (st.unbound id).Wellformed := by
  refine ⟨fun other hother => ?_, fun logicalId other hindex => ?_, ?_⟩
  · rw [ServerState.unbound] at hother ⊢
    simp only [withoutIndexes_known, withoutIndexes_registry] at hother ⊢
    obtain ⟨hcore, hregistry⟩ := h.unused other hother
    refine ⟨?_, hregistry⟩
    by_cases heq : other = id
    · rw [heq, update_self, ← heq]
      simp only [Session.core, SessionCore.mk.injEq] at hcore ⊢
      exact ⟨hcore.1, hcore.2.1, trivial, hcore.2.2.2⟩
    · rwa [update_of_ne heq]
  · obtain ⟨hbefore, hne⟩ := h.indexed_unbound hindex
    simp only [ServerState.unbound, update_of_ne hne]
    exact h.indexed logicalId other hbefore
  · simp only [ServerState.unbound, withoutIndexes_registry]
    exact h.nodup

theorem ServerState.Wellformed.withoutCredentials (h : st.Wellformed) (id : SessionId) :
    (st.withoutCredentials env id).Wellformed :=
  h.congr (withoutCredentials_core env id) rfl rfl rfl

theorem ServerState.Wellformed.created {c : ConnId} {name : LogicalId} {session : Session}
    (h : st.Wellformed) (hunused : id ∉ st.known)
    (hsession : session.core = { connection := some c, qappConnectionId := some name }) :
    ServerState.Wellformed { st with
      objects := update st.objects id session
      known := st.known ++ [id]
      registry := st.registry ++ [id]
      logicalSessions := update st.logicalSessions name (some id) } := by
  have hfree : ∀ logicalId, st.logicalSessions logicalId ≠ some id :=
    fun _ hindex => hunused (h.known_of_indexed hindex)
  refine ⟨fun other hother => ?_, fun logicalId other hindex => ?_, ?_⟩
  · simp only [List.mem_append, List.mem_singleton, not_or] at hother ⊢
    rw [update_of_ne hother.2]
    exact ⟨(h.unused other hother.1).1, (h.unused other hother.1).2, hother.2⟩
  · simp only at hindex ⊢
    by_cases hname : logicalId = name
    · rw [hname, update_self, Option.some.injEq] at hindex
      rw [← hindex, update_self, hname]
      have hlink : session.connection = some c := congrArg SessionCore.connection hsession
      exact ⟨congrArg SessionCore.qappConnectionId hsession, by simp [hlink]⟩
    · rw [update_of_ne hname] at hindex
      have hne : other ≠ id := fun heq => hfree logicalId (heq ▸ hindex)
      rw [update_of_ne hne]
      exact h.indexed logicalId other hindex
  · exact List.Nodup.append h.nodup (List.nodup_singleton id)
      (List.disjoint_singleton.2 (h.unused id hunused).2)

theorem ServerState.Wellformed.promoted (h : st.Wellformed) (user : String) (now ttl : Nanos)
    (hregistered : id ∈ st.registry) :
    (st.withProof id ((st.objects id).promoted user now ttl)).Wellformed := by
  have hset := h.set ((st.objects id).promoted user now ttl) (h.known_of_registered hregistered) rfl
    fun hbound => hbound
  exact ⟨hset.unused, hset.indexed, hset.nodup⟩

theorem ServerState.Wellformed.unnamed (h : st.Wellformed)
    (hconnection : (st.objects id).connection = none) :
    ServerState.Wellformed { st with
      objects := update st.objects id { st.objects id with qappConnectionId := none } } := by
  refine ⟨fun other hother => ?_, fun logicalId other hindex => ?_, h.nodup⟩
  · obtain ⟨hcore, hregistry⟩ := h.unused other hother
    refine ⟨?_, hregistry⟩
    by_cases heq : other = id
    · simp only [heq, update_self]
      rw [← heq]
      simp only [Session.core, SessionCore.mk.injEq] at hcore ⊢
      exact ⟨hcore.1, hcore.2.1, hcore.2.2.1, trivial⟩
    · simpa only [update_of_ne heq] using hcore
  · have hne : other ≠ id := fun heq => (h.indexed logicalId other hindex).2 (heq ▸ hconnection)
    simpa only [update_of_ne hne] using h.indexed logicalId other hindex

theorem ServerState.Wellformed.unregistered (h : st.Wellformed) (id : SessionId) :
    ServerState.Wellformed { st with registry := st.registry.erase id } :=
  ⟨fun other hother => ⟨(h.unused other hother).1,
    fun hmem => (h.unused other hother).2 (List.mem_of_mem_erase hmem)⟩, h.indexed, h.nodup.erase id⟩

theorem Update.wellformed (h : Update setup env takes action st st') (hst : st.Wellformed) :
    st'.Wellformed := by
  cases h with
  | quiet h => exact h.wellformed hst
  | created hunused _ hsession => exact hst.created hunused hsession
  | @bound _ id c logicalId hindex hlink =>
    exact hst.set _ (hst.known_of_indexed hindex) rfl fun _ => by simp
  | promoted now ttl hregistered => exact hst.promoted _ now ttl hregistered
  | invalidated id => exact hst.withoutCredentials id
  | unbound id => exact hst.unbound id
  | unnamed id hconnection => exact hst.unnamed hconnection
  | unregistered id => exact hst.unregistered id
  | posted invocation hlink => exact ⟨hst.unused, hst.indexed, hst.nodup⟩
  | taken n => exact ⟨hst.unused, hst.indexed, hst.nodup⟩
  | called h => exact ⟨hst.unused, hst.indexed, hst.nodup⟩

theorem Run.wellformed (h : Run setup env takes trace st st') (hst : st.Wellformed) :
    st'.Wellformed :=
  h.keeps hst fun _ _ _ hupdate => hupdate.wellformed

theorem Update.known (h : Update setup env takes action st st') (hid : id ∈ st'.known) :
    id ∈ st.known ∨ action = some (.changed id .opened) := by
  cases h with
  | quiet h => exact .inl (h.known ▸ hid)
  | created => 
      rcases List.mem_append.1 hid with hid | hid
      · exact .inl hid
      · rw [List.mem_singleton.1 hid]
        exact .inr rfl
  | unbound => exact .inl (by simpa [ServerState.unbound] using hid)
  | _ => exact .inl hid

theorem Run.known (h : Run setup env takes trace st st') (hid : id ∈ st'.known) :
    id ∈ st.known ∨ .changed id .opened ∈ trace := by
  induction h with
  | refl => exact .inl hid
  | step _ hupdate ih =>
    rcases hupdate.known hid with hid | haction
    · rcases ih hid with hid | hmem
      · exact .inl hid
      · exact .inr (List.mem_append_left _ hmem)
    · exact .inr (List.mem_append_right _ (by simp [haction]))

theorem Update.keeps_known (h : Update setup env takes action st st') (hid : id ∈ st.known) :
    id ∈ st'.known := by
  cases h with
  | quiet h => exact h.known ▸ hid
  | created => exact List.mem_append_left _ hid
  | unbound => simpa [ServerState.unbound] using hid
  | _ => exact hid

theorem Run.keeps_known (h : Run setup env takes trace st st') (hid : id ∈ st.known) : id ∈ st'.known :=
  h.keeps (I := fun st => id ∈ st.known) hid fun _ _ _ hupdate => hupdate.keeps_known

theorem Update.absent (h : Update setup env takes action st st')
    (hopened : ∀ id, action ≠ some (.changed id .opened))
    (habsent : st.logicalSessions logicalId = none) : st'.logicalSessions logicalId = none := by
  cases h with
  | quiet h => rw [h.logicalSessions, habsent]
  | created => exact absurd rfl (hopened _)
  | unbound id => exact logicalSessions_unbound habsent
  | _ => exact habsent

theorem Run.absent (h : Run setup env takes trace st st') (hopened : ∀ id, .changed id .opened ∉ trace)
    (habsent : st.logicalSessions logicalId = none) : st'.logicalSessions logicalId = none := by
  induction h with
  | refl => exact habsent
  | step _ hupdate ih =>
    refine hupdate.absent (fun id haction => hopened id ?_)
      (ih (fun id hmem => hopened id (List.mem_append_left _ hmem)) habsent)
    rw [haction]
    exact List.mem_append_right _ (List.mem_singleton.2 rfl)

/-! ### The call service's side -/

def ServerState.world (st : ServerState) : Call.World := ⟨st.views, st.call, st.creators⟩

def ServerEnv.event (env : ServerEnv) (action : Call.Action) : Call.Event :=
  ⟨action, env.now, env.monotonic, env.writeSucceeds⟩

theorem views_update {view : Call.SessionView} (hid : st'.views id = view)
    (hothers : ∀ other, other ≠ id → st'.views other = st.views other) :
    st'.views = update st.views id view := by
  funext other
  by_cases heq : other = id
  · rw [heq, update_self, hid]
  · rw [update_of_ne heq, hothers other heq]

theorem world_changed {change : Call.SessionChange} (hcall : st'.call = st.call)
    (hcreators : st'.creators = st.creators) (hid : st'.views id = (st.views id).change change)
    (hothers : ∀ other, other ≠ id → st'.views other = st.views other) :
    st'.world = st.world.after setup.call [env.event (.changed id change)] := by
  have hviews := views_update hid hothers
  change Call.World.mk st'.views st'.call st'.creators = Call.World.mk _ st.call st.creators
  rw [hviews, hcall, hcreators]
  rfl

/-- The step of the call service an update is labelled with leads to the same world. -/
theorem Update.world (h : Update setup env takes action st st') (hst : st.Wellformed) :
    st'.world = st.world.after setup.call (action.toList.map env.event) := by
  -- An update without a label changes nothing the call service sees.
  have hsame : st'.views = st.views → st'.call = st.call → st'.creators = st.creators →
      st'.world = st.world := by
    intro hviews hcall hcreators
    simp only [ServerState.world, hviews, hcall, hcreators]
  cases h with
  | quiet h => exact hsame (views_congr h.core h.registry) h.call h.creators
  | @created _ id c name session hunused habsent hsession =>
    obtain ⟨hcore, hregistry⟩ := hst.unused id hunused
    have hview : st.views id = {} := by
      simp only [Session.core, SessionCore.mk.injEq] at hcore
      simp [ServerState.views, hcore.1, hcore.2.1, hregistry]
    simp only [Session.core, SessionCore.mk.injEq] at hsession
    refine world_changed rfl rfl ?_ fun other hne => ?_
    · rw [hview]
      simp [ServerState.views, Call.SessionView.change, hsession.1, hsession.2.1]
    · simp [ServerState.views, hne]
  | @bound _ id c logicalId hindex hlink =>
    refine hsame ?_ rfl rfl
    funext other
    by_cases heq : other = id
    · simp [ServerState.views, heq]
    · simp [ServerState.views, heq]
  | @promoted _ id user now ttl hregistered =>
    refine world_changed rfl rfl ?_ fun other hne => ?_
    · simp [ServerState.views, ServerState.withProof, Session.promoted, Call.SessionView.change,
        hregistered]
    · simp only [ServerState.views, ServerState.withProof, update_of_ne hne]
      rfl
  | posted invocation hlink => exact hsame rfl rfl rfl
  | taken n => exact hsame rfl rfl rfl
  | invalidated id => exact hsame (views_congr (withoutCredentials_core env id) rfl) rfl rfl
  | unbound id =>
    refine hsame ?_ (by simp [ServerState.unbound]) (by simp [ServerState.unbound])
    funext other
    by_cases heq : other = id
    · simp [ServerState.views, ServerState.unbound, heq]
    · simp [ServerState.views, ServerState.unbound, heq]
  | unnamed id hconnection =>
    refine hsame ?_ rfl rfl
    funext other
    by_cases heq : other = id
    · simp [ServerState.views, heq]
    · simp [ServerState.views, heq]
  | unregistered id =>
    refine world_changed rfl rfl ?_ fun other hne => ?_
    · simp [ServerState.views, Call.SessionView.change, hst.nodup.mem_erase_iff]
    · simp [ServerState.views, hst.nodup.mem_erase_iff, hne]
  | @called _ action h =>
    cases action with
    | changed => exact h.elim
    | restart => exact h.elim
    | _ => rfl

theorem Run.world (h : Run setup env takes trace st st') (hst : st.Wellformed) :
    st'.world = st.world.after setup.call (trace.map env.event) := by
  induction h with
  | refl => rfl
  | step hrun hupdate ih =>
    rw [hupdate.world (hrun.wellformed hst), ih hst, List.map_append, Call.World.after,
      Call.World.after, Call.World.after, List.foldl_append]

end Runs

/-! ### Every function moves along a run -/

section Rules

variable {setup : Setup} {env : ServerEnv} {takes : Prop} {st : ServerState}
  {fail : Exn → ServerState → Prop}

theorem Quiet.trans {st' st'' : ServerState} (h : Quiet st st') (h' : Quiet st' st'') :
    Quiet st st'' := by
  refine ⟨fun id => (h'.core id).trans (h.core id), ?_⟩
  have hrest := h'.rest
  rw [h.rest] at hrest
  exact hrest

theorem Quiet.run {st' : ServerState} (h : Quiet st st') : Run setup env takes [] st st' :=
  Run.silent (.quiet h)

variable {id : SessionId}

theorem quiet_set {session : Session} (h : session.core = (st.objects id).core) :
    Quiet st { st with objects := update st.objects id session } := by
  refine ⟨fun other => ?_, rfl⟩
  by_cases heq : other = id
  · rw [heq]
    simpa only [update_self] using h
  · simp only [update_of_ne heq]

theorem quiet_connections (connections : ConnId → Connection) : Quiet st { st with connections } :=
  ⟨fun _ => rfl, rfl⟩

theorem quiet_writes (n : Nat) : Quiet st { st with dbWrites := n } := ⟨fun _ => rfl, rfl⟩

variable {post : Unit → ServerState → Prop}

theorem wp_writeDatabase (hpost : ∀ n, post () { st with dbWrites := n })
    (hfail : ∀ n, fail .databaseError { st with dbWrites := n }) :
    wp writeDatabase env st post fail := by
  simp only [writeDatabase, wp_do, wp_ensure]
  exact ⟨fun _ => hpost _, fun _ => hfail _⟩

theorem wp_promote {user : String}
    (hpost : ∀ st', Run setup env takes [.changed id (.authenticated user)] st st' → post () st')
    (hfail : ∀ e st', Run setup env takes [] st st' ∨
      Run setup env takes [.changed id (.authenticated user)] st st' → fail e st') :
    wp (promote setup id user) env st post fail := by
  simp only [promote, getSession, setSession, wp_do, wp_ensure]
  refine ⟨fun hregistered => ?_, fun _ => hfail _ _ (.inl (.refl st))⟩
  have hproved : Run setup env takes [.changed id (.authenticated user)] st
      (st.withProof id ((st.objects id).promoted user env.now setup.config.sessionTtl)) :=
    Run.act (.promoted _ _ hregistered)
  refine wp_writeDatabase (fun n => hpost _ ?_)
    fun n => hfail _ _ (.inr (hproved.quietly (quiet_writes n)))
  refine (hproved.quietly (quiet_writes n)).quietly (quiet_set ?_)
  simp [ServerState.withProof, Session.core]

theorem wp_touch {timestamp : Nanos} (hpost : ∀ st', Quiet st st' → post () st')
    (hfail : ∀ st', Quiet st st' → fail .databaseError st') :
    wp (touch setup id timestamp) env st post fail := by
  simp only [touch, extend, getSession, setSession, wp_do, wp_ite]
  refine ⟨fun _ => ⟨fun _ => hpost _ (quiet_set rfl), fun _ => ⟨fun _ => ?_, fun _ => ?_⟩⟩,
    fun _ => hpost _ (.refl st)⟩
  · have hset : Quiet st { st with objects := update st.objects id { st.objects id with
        lastSeen := timestamp, expiresAt := timestamp + setup.config.sessionTtl } } := quiet_set rfl
    refine wp_writeDatabase (fun n => hpost _ ?_) fun n => hfail _ (hset.trans (quiet_writes n))
    refine (hset.trans (quiet_writes n)).trans (quiet_set ?_)
    simp [Session.core]
  · exact hpost _ (quiet_set rfl)

/-- The session has been written to the database. -/
def ServerState.persisted (st : ServerState) (id : SessionId) (t : Nanos) (n : Nat) : ServerState :=
  { st with
    objects := update st.objects id { st.objects id with lastPersistedAt := t }
    dbWrites := n }

theorem persisted_self (id : SessionId) (n : Nat) :
    st.persisted id (st.objects id).lastPersistedAt n = { st with dbWrites := n } := by
  rw [ServerState.persisted, update_eq_self]

theorem wp_persist (hpost : ∀ t n, post () (st.persisted id t n))
    (hfail : ∀ n, fail .databaseError { st with dbWrites := n }) :
    wp (persist id) env st post fail := by
  simp only [persist, setSession, wp_do, wp_ite]
  refine ⟨fun _ => ?_, fun _ => wp_writeDatabase (fun n => hpost _ n) hfail⟩
  have hdone := hpost (st.objects id).lastPersistedAt st.dbWrites
  rwa [persisted_self] at hdone

theorem quiet_persisted (id : SessionId) (t : Nanos) (n : Nat) : Quiet st (st.persisted id t n) :=
  (quiet_writes n).trans (quiet_set rfl)

theorem wp_seenMessage {messageId : Nat} {post : Bool → ServerState → Prop}
    (hpost : ∀ seen st', Quiet st st' → post seen st') :
    wp (seenMessage setup id messageId) env st post fail := by
  simp only [seenMessage, getSession, setSession, wp_do]
  exact hpost _ _ (quiet_set rfl)

/-- Nothing stops `invalidate_session`: the grant files of the session can be unlinked, its
revocation can be recorded for the media service if need be, and its transport takes the request to
close. -/
def ServerState.revocable (st : ServerState) (env : ServerEnv) (id : SessionId) : Bool :=
  decide ((st.mediaGrantFiles id).all env.unlinks ∧
    (st.mediaGrantFiles id ≠ [] ∨ (st.call.callRoomId id).isSome → env.marksRevoked id) ∧
    (st.objects id).privateTransport.all env.closeSucceeds)

theorem wp_invalidateSession (hpost : st.revocable env id = true → post () (st.withoutCredentials env id))
    (hfail : st.revocable env id = false → fail .osError (st.withoutCredentials env id)) :
    wp (invalidateSession id) env st post fail := by
  simp only [invalidateSession, wp_do, wp_ite, wp_ensure]
  have hclosing : (st.mediaGrantFiles id).all env.unlinks = true →
      (st.mediaGrantFiles id ≠ [] ∨ (st.call.callRoomId id).isSome = true → env.marksRevoked id = true) →
      ((st.objects id).privateTransport.all env.closeSucceeds = true →
        post () (st.withoutCredentials env id)) ∧
      (¬(st.objects id).privateTransport.all env.closeSucceeds = true →
        fail .osError (st.withoutCredentials env id)) := fun hfiles hmarks =>
    ⟨fun hclose => hpost (decide_eq_true ⟨hfiles, hmarks, hclose⟩),
      fun hclose => hfail (decide_eq_false fun h => hclose h.2.2)⟩
  refine ⟨fun hfiles => ⟨fun hneeded => ⟨fun hmarked => ?_, fun hmarked => ?_⟩, fun hneeded => ?_⟩,
    fun hfiles => ?_⟩
  · exact hclosing hfiles fun _ => hmarked
  · exact hfail (decide_eq_false fun h => hmarked (h.2.1 hneeded))
  · exact hclosing hfiles fun h => absurd h hneeded
  · exact hfail (decide_eq_false fun h => hfiles h.1)

theorem wp_unbind (hpost : post () (st.unbound id)) : wp (unbind id) env st post fail := by
  simp only [unbind, getSession, setSession, wp_do]
  simp only [withoutIndexes_objects]
  exact hpost

theorem wp_discard (hpost : ∀ n, n = st.dbWrites ∨ n = st.dbWrites + 1 →
      post () { st with registry := st.registry.erase id, dbWrites := n })
    (hfail : ∀ n, fail .databaseError
      { st with registry := st.registry.erase id, dbWrites := n }) :
    wp (discard id) env st post fail := by
  simp only [discard, unregister, writeDatabase, wp_do, wp_ite, wp_ensure]
  refine ⟨fun _ => ⟨fun _ => ⟨fun _ => hpost _ (.inr rfl), fun _ => hfail _⟩,
    fun _ => hpost _ (.inl rfl)⟩, fun habsent => ?_⟩
  have hdone := hpost st.dbWrites (.inl rfl)
  rwa [List.erase_of_not_mem habsent] at hdone

/-- What `_discard_session` leaves when nothing fails. -/
def ServerState.discarded (st : ServerState) (env : ServerEnv) (id : SessionId) : ServerState :=
  let st := (st.withoutCredentials env id).unbound id
  { st with registry := st.registry.erase id }

theorem run_discarded (id : SessionId) (n : Nat) : Run setup env takes [.changed id .removed] st
    { st.discarded env id with dbWrites := n } := by
  have hunbound : Run setup env takes [] st ((st.withoutCredentials env id).unbound id) :=
    (Run.silent (.invalidated id)).silently (.unbound id)
  exact (hunbound.trans (Run.act (.unregistered id))).quietly (quiet_writes n)

theorem wp_discardSession
    (hpost : st.revocable env id = true → ∀ n, n = st.dbWrites ∨ n = st.dbWrites + 1 →
      post () { st.discarded env id with dbWrites := n })
    (hstuck : st.revocable env id = false → fail .osError (st.withoutCredentials env id))
    (hfail : st.revocable env id = true → ∀ n,
      fail .databaseError { st.discarded env id with dbWrites := n }) :
    wp (discardSession id) env st post fail := by
  simp only [discardSession, wp_bind]
  refine wp_invalidateSession (fun hrevocable => wp_unbind (wp_discard (fun n hn => ?_) (hfail hrevocable)))
    hstuck
  have hwrites : ((st.withoutCredentials env id).unbound id).dbWrites = st.dbWrites := by rw [unbound_rest]; rfl
  rw [hwrites] at hn
  exact hpost hrevocable n hn

theorem wp_inCalls {action : Call.Action} {post : Call.Plan → ServerState → Prop}
    (hpost : ∀ plan, post plan (st.called setup env action))
    (hfail : ∀ e, fail e (st.called setup env action)) :
    wp (inCalls setup action) env st post fail := by
  unfold wp inCalls
  cases (action.run setup.call (st.callEnv env) st.call).1 with
  | ok plan => exact hpost plan
  | error e => exact hfail e

theorem wp_disconnectHandlers (hpost : post () (st.called setup env (.disconnected id))) :
    wp (disconnectHandlers setup id) env st post fail := by
  simp only [disconnectHandlers, wp_rescue, wp_do]
  exact wp_inCalls (fun _ => hpost) fun _ => hpost

theorem run_disconnected (id : SessionId) :
    Run setup env takes [.disconnected id] st (st.called setup env (.disconnected id)) :=
  Run.act (.called trivial)

theorem wp_revokeSession (habsent : id ∉ st.registry → post () st) (hpresent : id ∈ st.registry →
      wp (discardSession id) env (st.called setup env (.disconnected id)) post fail) :
    wp (revokeSession setup id) env st post fail := by
  simp only [revokeSession, wp_do, wp_ite]
  exact ⟨fun hregistered => wp_disconnectHandlers (hpresent hregistered), habsent⟩

def removals (ids : List SessionId) : List Call.Action := ids.map fun id => .changed id .removed

variable {now : Nanos}

theorem wp_expire {post : List SessionId → ServerState → Prop}
    (hpost : ∀ st', Run setup env takes (removals (st.overdue now)) st st' →
      post (st.overdue now) st')
    (hfail : ∀ e st', Run setup env takes (removals (st.overdue now)) st st' → fail e st') :
    wp (expire now) env st post fail := by
  simp only [expire, wp_do, wp_ite]
  have hloop : ∀ ids (st₁ : ServerState), wp (forEach unregister ids) env st₁
      (fun _ st₂ => Run setup env takes (removals ids) st₁ st₂) fail := by
    intro ids
    induction ids with
    | nil => exact fun st₁ => .refl st₁
    | cons id rest ih =>
      intro st₁
      simp only [forEach, unregister, wp_do]
      refine wp_mono (ih _) (fun _ st₂ h => ?_) fun _ _ h => h
      exact (Run.act (.unregistered id)).trans h
  refine wp_mono (hloop _ st) (fun _ st₁ h₁ => ⟨fun _ => ?_, fun _ => hpost _ h₁⟩) fun _ _ h => h
  refine wp_writeDatabase (fun n => hpost _ ?_) fun n => hfail _ _ ?_
  · exact h₁.quietly (quiet_writes n)
  · exact h₁.quietly (quiet_writes n)

theorem wp_expireSessions
    (hpost : ∀ st', Run setup env takes (removals (st.overdue now)) st st' → post () st')
    (hfail : ∀ e st', Run setup env takes (removals (st.overdue now)) st st' → fail e st') :
    wp (expireSessions now) env st post fail := by
  simp only [expireSessions, wp_bind]
  refine wp_expire (fun st₁ h₁ => ?_) hfail
  have hloop : wp (forEach (fun id => do invalidateSession id; unbind id) (st.overdue now)) env st₁
      (fun _ st₂ => Run setup env takes (removals (st.overdue now)) st st₂) fail := by
    refine wp_forEach (fun id _ st₂ h₂ => ?_) h₁
    simp only [wp_bind]
    have hinvalidated : Run setup env takes (removals (st.overdue now)) st
        (st₂.withoutCredentials env id) := h₂.silently (.invalidated id)
    refine wp_invalidateSession (fun _ => wp_unbind ?_) fun _ => hfail _ _ hinvalidated
    exact hinvalidated.silently (.unbound id)
  exact wp_mono hloop (fun _ st₂ h₂ => hpost _ h₂) fun _ _ h => h

theorem wp_disconnectSession
    (hpost : ∀ st₁, Run setup env takes [] st st₁ → post () (st₁.called setup env (.disconnected id)))
    (hfail : ∀ e st', e.isRuntimeError = false → Run setup env takes [] st st' → fail e st') :
    wp (disconnectSession setup id) env st post fail := by
  simp only [disconnectSession, getSession, setSession, wp_do]
  have hinvalidated : Run setup env takes [] st (st.withoutCredentials env id) := Run.silent (.invalidated id)
  refine wp_invalidateSession (fun _ => wp_unbind ?_) fun _ => hfail _ _ rfl hinvalidated
  have hunbound : Run setup env takes [] st ((st.withoutCredentials env id).unbound id) :=
    hinvalidated.silently (.unbound id)
  have hunnamed := hunbound.silently (.unnamed id (by simp [ServerState.unbound]))
  refine wp_touch (fun st₁ h₁ => ?_) fun st₁ h₁ => hfail _ _ rfl (hunnamed.quietly h₁)
  have htouched := hunnamed.quietly h₁
  refine wp_persist (fun t n => ?_) fun n => hfail _ _ rfl (htouched.quietly (quiet_writes n))
  exact wp_disconnectHandlers (hpost _ (htouched.quietly (quiet_persisted id t n)))

variable {c : ConnId} {logicalId : LogicalId}

theorem wp_disconnectLogicalSession (hnone : post () st)
    (hdiscard : ∀ id, st.logicalSessions logicalId = some id → (st.objects id).provisional = true →
      wp (discardSession id) env st post fail)
    (hdisconnect : ∀ id, st.logicalSessions logicalId = some id →
      (st.objects id).connection = some c → (st.objects id).provisional = false →
      wp (disconnectSession setup id) env st post fail) :
    wp (disconnectLogicalSession setup c logicalId) env st post fail := by
  simp only [disconnectLogicalSession, wp_do]
  cases hindex : st.logicalSessions logicalId with
  | none => exact hnone
  | some id =>
    simp only [wp_ite, wp_pure]
    exact ⟨fun _ => hnone, fun hlink => ⟨fun hprovisional => hdiscard id hindex hprovisional,
      fun hprovisional => hdisconnect id hindex (by simpa using hlink) (by simpa using hprovisional)⟩⟩

/-! ### Links that close -/

/-- The traces of a link that gives a logical id up. -/
def Disconnection (st : ServerState) (logicalId : LogicalId) (trace : List Call.Action) : Prop :=
  trace = [] ∨ ∃ id, st.logicalSessions logicalId = some id ∧
    (((st.objects id).provisional = true ∧ trace = [.changed id .removed]) ∨
      trace = [.disconnected id])

theorem run_disconnectLogicalSession (c : ConnId) (logicalId : LogicalId)
    (connections : ConnId → Connection)
    (hpost : ∀ trace st', Disconnection st logicalId trace → Run setup env takes trace st st' →
      post () st')
    (hfail : ∀ e trace st', e.isRuntimeError = false → Disconnection st logicalId trace →
      Run setup env takes trace st st' → fail e st') :
    wp (disconnectLogicalSession setup c logicalId) env { st with connections } post fail := by
  have hstart : Run setup env takes [] st { st with connections } :=
    (quiet_connections connections).run
  apply wp_disconnectLogicalSession
  · exact hpost [] _ (.inl rfl) hstart
  · intro id hindex hprovisional
    have hremoved : Disconnection st logicalId [.changed id .removed] :=
      .inr ⟨id, hindex, .inl ⟨hprovisional, rfl⟩⟩
    apply wp_discardSession
    · intro _ n _
      exact hpost _ _ hremoved (hstart.trans (run_discarded id n))
    · intro _
      exact hfail _ [] _ rfl (.inl rfl) (hstart.silently (.invalidated id))
    · intro _ n
      exact hfail _ _ _ rfl hremoved (hstart.trans (run_discarded id n))
  · intro id hindex _ _
    refine wp_disconnectSession (fun st₁ (h₁ : Run setup env takes [] _ st₁) => ?_)
      fun e st' herror (h : Run setup env takes [] _ st') => ?_
    · exact hpost _ _ (.inr ⟨id, hindex, .inr rfl⟩) ((hstart.trans h₁).trans (run_disconnected id))
    · exact hfail e [] st' herror (.inl rfl) (hstart.trans h)

/-- The traces of one round of the clean-up of a link. -/
def ServerState.Cleaning (st : ServerState) (c : ConnId) (trace : List Call.Action) : Prop :=
  trace = [] ∨ ∃ logicalId rest,
    (st.connections c).cleanup = .running (logicalId :: rest) ∧ Disconnection st logicalId trace

theorem run_nextCleanup (c : ConnId)
    (hpost : ∀ trace st', st.Cleaning c trace → Run setup env takes trace st st' → post () st')
    (hfail : ∀ e trace st', e.isRuntimeError = false → st.Cleaning c trace →
      Run setup env takes trace st st' → fail e st') :
    wp (nextCleanup setup c) env st post fail := by
  simp only [nextCleanup, wp_do]
  split
  · rename_i logicalId rest hcleanup
    simp only [cleanupNext, setCleanup, wp_rescue, wp_do]
    apply run_disconnectLogicalSession
    · intro trace st' htrace hrun
      exact hpost trace st' (.inr ⟨logicalId, rest, hcleanup, htrace⟩) hrun
    · intro e trace st' herror htrace hrun
      exact hfail e trace _ herror (.inr ⟨logicalId, rest, hcleanup, htrace⟩)
        (hrun.quietly (quiet_connections _))
  · exact hpost [] st (.inl rfl) (.refl st)

theorem quiet_startCleanup (c : ConnId) :
    wp (startCleanup c) env st (fun _ => Quiet st) fail := by
  simp only [startCleanup, setCleanup, wp_do, wp_ite]
  exact ⟨fun _ => quiet_connections _, fun _ => .refl st⟩

theorem quiet_endCleanup (c : ConnId) :
    wp (endCleanup c) env st (fun _ => Quiet st) fail := by
  simp only [endCleanup, wp_do]
  split
  · exact quiet_connections _
  · exact .refl st

/-- What holds of a link marked closed, and is kept by each part of its clean-up. -/
theorem wp_closeLink {inv : ServerState → Prop} (hmarked : inv { st with
      connections := update st.connections c { st.connections c with closed := true } })
    (hstart : ∀ st, inv st → wp (startCleanup c) env st (fun _ => inv) fail)
    (hnext : ∀ st, inv st → wp (nextCleanup setup c) env st (fun _ => inv) fail)
    (hend : ∀ st, inv st → wp (endCleanup c) env st (fun _ => inv) fail) :
    wp (closeLink setup c) env st (fun _ => inv) fail := by
  simp only [closeLink, markClosed, wp_do]
  refine wp_mono (hstart _ hmarked) (fun _ st₁ h₁ => ?_) fun _ _ h => h
  refine wp_mono (wp_forEach (fun _ _ st₂ h₂ => hnext st₂ h₂) h₁) (fun _ st₂ h₂ => ?_) fun _ _ h => h
  exact hend st₂ h₂

theorem closeLink_error (c : ConnId) :
    wp (closeLink setup c) env st (fun _ _ => True) fun e _ => e.isRuntimeError = false := by
  refine wp_closeLink trivial (fun st _ => ?_) (fun st _ => ?_) fun st _ => ?_
  · exact wp_mono (quiet_startCleanup c) (fun _ _ _ => trivial) fun _ _ h => h
  · exact run_nextCleanup c (fun _ _ _ _ => trivial)
      fun e trace st' herror _ (_ : Run setup env False trace st st') => herror
  · exact wp_mono (quiet_endCleanup c) (fun _ _ _ => trivial) fun _ _ h => h

/-- The traces of the clean-up of a link: sessions are disconnected, and provisional ones removed. -/
def Clearance (views : SessionId → Call.SessionView) (trace : List Call.Action) : Prop :=
  ∀ action ∈ trace, ∃ id, action = .disconnected id ∨
    (views id).provisional = true ∧ action = .changed id .removed

section Clearances

variable {w : Call.World} {action : Call.Action} {trace : List Call.Action}

theorem Clearance.next (h : Clearance w.views (action :: trace)) (id : SessionId) :
    ((w.next setup.call (env.event action)).views id).provisional = (w.views id).provisional ∧
      ((w.views id).provisional = false →
        ((w.next setup.call (env.event action)).views id).registered = (w.views id).registered) := by
  obtain ⟨other, rfl | ⟨hprovisional, rfl⟩⟩ := h action (.head _)
  · exact ⟨rfl, fun _ => rfl⟩
  · change (update w.views other _ id).provisional = _ ∧
      (_ → (update w.views other _ id).registered = _)
    by_cases heq : id = other
    · subst heq
      simp [Call.SessionView.change, hprovisional]
    · simp [update_of_ne heq]

theorem Clearance.tail (h : Clearance w.views (action :: trace)) :
    Clearance (w.next setup.call (env.event action)).views trace := by
  intro later hlater
  obtain ⟨id, hid⟩ := h later (.tail action hlater)
  rw [← (h.next id).1] at hid
  exact ⟨id, hid⟩

/-- A clean-up leaves the sessions that have proved an address registered. -/
theorem Clearance.after (h : Clearance w.views trace) (id : SessionId) :
    ((w.after setup.call (trace.map env.event)).views id).provisional = (w.views id).provisional ∧
      ((w.views id).provisional = false →
        ((w.after setup.call (trace.map env.event)).views id).registered =
          (w.views id).registered) := by
  induction trace generalizing w with
  | nil => exact ⟨rfl, fun _ => rfl⟩
  | cons action rest ih =>
    obtain ⟨hprovisional, hregistered⟩ := h.next id
    obtain ⟨hrest, hrest'⟩ := ih h.tail
    exact ⟨hrest.trans hprovisional,
      fun hproved => (hrest' (hprovisional.trans hproved)).trans (hregistered hproved)⟩

end Clearances

theorem ServerState.Cleaning.clearance {trace : List Call.Action} (h : st.Cleaning c trace) :
    Clearance st.views trace := by
  intro action haction
  rcases h with rfl | ⟨_, _, -, rfl | ⟨id, -, ⟨hprovisional, rfl⟩ | rfl⟩⟩
  · cases haction
  · cases haction
  · exact ⟨id, .inr ⟨hprovisional, List.mem_singleton.1 haction⟩⟩
  · exact ⟨id, .inl (List.mem_singleton.1 haction)⟩

/-- However the clean-up of a link ends, it is a run with such a trace. -/
theorem run_closeLink (hst : st.Wellformed) (c : ConnId) :
    wp (closeLink setup c) env st
      (fun _ st' => ∃ trace, Clearance st.views trace ∧ Run setup env takes trace st st')
      fun _ st' => ∃ trace, Clearance st.views trace ∧ Run setup env takes trace st st' := by
  have hquiet : ∀ st' st'' : ServerState,
      (∃ trace, Clearance st.views trace ∧ Run setup env takes trace st st') → Quiet st' st'' →
      ∃ trace, Clearance st.views trace ∧ Run setup env takes trace st st'' := by
    rintro st' st'' ⟨trace, htrace, hrun⟩ h
    exact ⟨trace, htrace, hrun.quietly h⟩
  have hround : ∀ st' st'' : ServerState,
      (∃ trace, Clearance st.views trace ∧ Run setup env takes trace st st') → ∀ trace,
      st'.Cleaning c trace → Run setup env takes trace st' st'' →
      ∃ trace, Clearance st.views trace ∧ Run setup env takes trace st st'' := by
    rintro st' st'' ⟨trace, htrace, hrun⟩ round hround hrun'
    refine ⟨trace ++ round, fun action haction => ?_, hrun.trans hrun'⟩
    rcases List.mem_append.1 haction with haction | haction
    · exact htrace action haction
    · obtain ⟨id, hid⟩ := hround.clearance action haction
      have hviews : (st'.views id).provisional = (st.views id).provisional := by
        rw [show st'.views = st'.world.views from rfl, hrun.world hst]
        exact (Clearance.after htrace id).1
      rw [hviews] at hid
      exact ⟨id, hid⟩
  refine wp_closeLink ?_ (fun st' h => ?_) (fun st' h => ?_) fun st' h => ?_
  · exact hquiet st _ ⟨[], List.forall_mem_nil _, .refl st⟩ (quiet_connections _)
  · exact wp_mono (quiet_startCleanup c) (fun _ st'' => hquiet st' st'' h) fun _ _ h => h
  · exact run_nextCleanup c (fun trace st'' => hround st' st'' h trace)
      fun _ trace st'' _ => hround st' st'' h trace
  · exact wp_mono (quiet_endCleanup c) (fun _ st'' => hquiet st' st'' h) fun _ _ h => h

/-! ### Messages -/

/-- A link takes on a logical id: nothing else of it changes but its times of admission. -/
theorem wp_admitLogicalId {creating : Bool} (hpost : ∀ times, post () { st with
      connections := update st.connections c { st.connections c with
        logicalIds := (st.connections c).logicalIds.insert logicalId
        newTimes := times } }) (hfail : ∀ e times, fail e { st with
      connections := update st.connections c { st.connections c with newTimes := times } }) :
    wp (admitLogicalId setup c logicalId creating now) env st post fail := by
  simp only [admitLogicalId, setConnection, wp_do, wp_ite, wp_ensure, update_idem]
  refine ⟨fun hmem => ?_, fun _ => ⟨fun _ => ⟨fun _ => hpost _, fun _ => hfail _ _⟩, fun _ => ?_⟩⟩
  · have hsame := hpost (st.connections c).newTimes
    rwa [List.insert_of_mem hmem, update_eq_self] at hsame
  · have hsame := hfail (.protocolError "logical session limit reached") (st.connections c).newTimes
    rwa [update_eq_self] at hsame

theorem wp_acceptNew {fresh : SessionId} (hfresh : fresh ∉ st.known)
    (habsent : st.logicalSessions logicalId = none) {post : SessionId → ServerState → Prop}
    (hpost : ∀ st', Run setup env takes
      (removals (st.overdue env.now) ++ [.changed fresh .opened]) st st' →
      (st'.objects fresh).connection = some c → post fresh st')
    (hfail : ∀ e st', Run setup env takes (removals (st.overdue env.now)) st st' → fail e st') :
    wp (acceptNew setup c logicalId fresh) env st post fail := by
  simp only [acceptNew, create, setSession, wp_do, wp_ensure]
  refine wp_expireSessions (fun st₁ h₁ => ⟨fun _ => ?_, fun _ => hfail _ _ h₁⟩) hfail
  have hadmitted : ∀ connections : ConnId → Connection,
      Run setup env takes (removals (st.overdue env.now)) st { st₁ with connections } :=
    fun connections => h₁.quietly (quiet_connections connections)
  refine wp_admitLogicalId (fun times => ?_) fun e times => hfail _ _ (hadmitted _)
  have hunused : fresh ∉ st₁.known := by
    intro hknown
    rcases h₁.known hknown with hknown | hopened
    · exact hfresh hknown
    · simp [removals] at hopened
  have hfree : st₁.logicalSessions logicalId = none :=
    h₁.absent (fun id hopened => by simp [removals] at hopened) habsent
  exact hpost _ ((hadmitted _).trans (Run.act (.created hunused hfree rfl))) (by simp)

theorem wp_acceptExisting (hst : st.Wellformed) (hindex : st.logicalSessions logicalId = some id)
    (htakes : ∀ old, (st.objects id).connection = some old → old ≠ c →
      (st.connections old).closed = true → takes) {post : SessionId → ServerState → Prop}
    (hpost : ∀ st', Run setup env takes [] st st' → (st'.objects id).connection = some c → post id st')
    (hfail : ∀ e st', Run setup env takes [] st st' → fail e st') :
    wp (acceptExisting setup c logicalId id) env st post fail := by
  simp only [acceptExisting, setConnection, setSession, wp_do, wp_ite]
  refine wp_admitLogicalId (fun times => ⟨fun _ => ?_, fun hfree => ?_⟩)
    fun e times => hfail _ _ (quiet_connections _).run
  · exact hfail _ _ ((quiet_connections _).trans (quiet_connections _)).run
  · refine hpost _ ((quiet_connections _).run.silently (.bound hindex ?_)) (by simp)
    obtain ⟨old, hold⟩ := Option.ne_none_iff_exists'.1 (hst.indexed logicalId id hindex).2
    by_cases hsame : old = c
    · exact .inl (hsame ▸ hold)
    · refine .inr (htakes old hold hsame ?_)
      simpa [ServerState.heldElsewhere, hold, hsame] using hfree

/-- The sessions a message may cost: their time is up. -/
def ServerState.Lapsed (st : ServerState) (now : Nanos) (ids : List SessionId) : Prop :=
  ∀ id ∈ ids, (st.objects id).expiresAt ≤ now

theorem lapsed_overdue (now : Nanos) : st.Lapsed now (st.overdue now) := by
  intro id hid
  simp only [ServerState.overdue, List.mem_filter, decide_eq_true_eq] at hid
  exact hid.2

theorem discarded_expiresAt (id other : SessionId) :
    ((st.discarded env id).objects other).expiresAt = (st.objects other).expiresAt := by
  by_cases heq : other = id
  · simp [ServerState.discarded, ServerState.unbound, ServerState.withoutCredentials, heq]
  · simp [ServerState.discarded, ServerState.unbound, ServerState.withoutCredentials, heq]

/-- The logical id has no session whose time is not up. -/
def ServerState.vacant (st : ServerState) (now : Nanos) (logicalId : LogicalId) : Bool :=
  (st.logicalSessions logicalId).all fun id => decide ((st.objects id).expiresAt ≤ now)

/-- The traces of binding a message to a session: a message for a vacant logical id opens a session,
and sessions whose time is up are removed before. -/
def Acceptance (st : ServerState) (now : Nanos) (logicalId : LogicalId) (fresh : SessionId)
    (trace : List Call.Action) : Prop :=
  trace = [] ∨ st.vacant now logicalId = true ∧ ∃ ids, st.Lapsed now ids ∧
    (trace = removals ids ∨ trace = removals ids ++ [.changed fresh .opened])

theorem wp_acceptMessage {fresh : SessionId} (hst : st.Wellformed) (hfresh : fresh ∉ st.known)
    (htakes : ∀ id old, st.logicalSessions logicalId = some id → env.now < (st.objects id).expiresAt →
      (st.objects id).connection = some old → old ≠ c → (st.connections old).closed = true → takes)
    {post : SessionId → ServerState → Prop}
    (hpost : ∀ id trace st', Acceptance st env.now logicalId fresh trace →
      Run setup env takes trace st st' → (st'.objects id).connection = some c → post id st')
    (hfail : ∀ e trace st', Acceptance st env.now logicalId fresh trace →
      Run setup env takes trace st st' → fail e st') :
    wp (acceptMessage setup c logicalId fresh) env st post fail := by
  simp only [acceptMessage, wp_do]
  cases hindex : st.logicalSessions logicalId with
  | none =>
    have hvacant : st.vacant env.now logicalId = true := by simp [ServerState.vacant, hindex]
    exact wp_acceptNew hfresh hindex
      (fun st' h => hpost _ _ _ (.inr ⟨hvacant, _, lapsed_overdue _, .inr rfl⟩) h)
      fun e st' h => hfail _ _ _ (.inr ⟨hvacant, _, lapsed_overdue _, .inl rfl⟩) h
  | some id =>
    rw [wp_ite]
    refine ⟨fun hexpired => ?_, fun hlive => ?_⟩
    · have hvacant : st.vacant env.now logicalId = true := by
        simpa [ServerState.vacant, hindex] using hexpired
      have hid : st.Lapsed env.now [id] := by
        intro other hother
        rwa [List.mem_singleton.1 hother]
      rw [wp_bind]
      refine wp_discardSession (fun _ n _ => ?_)
        (fun _ => hfail _ [] _ (.inl rfl) (Run.silent (.invalidated id)))
        fun _ n => hfail _ _ _ (.inr ⟨hvacant, [id], hid, .inl rfl⟩) (run_discarded id n)
      obtain ⟨st₁, hst₁⟩ : ∃ st₁, st₁ = { st.discarded env id with dbWrites := n } := ⟨_, rfl⟩
      have hrun : Run setup env takes (removals [id]) st st₁ := hst₁ ▸ run_discarded id n
      have habsent : st₁.logicalSessions logicalId = none :=
        hst₁ ▸ (hst.withoutCredentials id).logicalSessions_unbound_self hindex
      have hlapsed : st.Lapsed env.now (id :: st₁.overdue env.now) := by
        intro other hother
        rcases List.mem_cons.1 hother with rfl | hother
        · exact hexpired
        · have hexpiry := lapsed_overdue _ other hother
          rw [hst₁] at hexpiry
          rwa [← discarded_expiresAt id other]
      rw [← hst₁]
      refine wp_acceptNew (fun hknown => ?_) habsent
        (fun st' (h : Run setup env takes _ st₁ st') => ?_)
        fun e st' (h : Run setup env takes _ st₁ st') => ?_
      · rcases hrun.known hknown with hknown | hopened
        · exact hfresh hknown
        · simp [removals] at hopened
      · exact hpost _ _ _ (.inr ⟨hvacant, _, hlapsed, .inr rfl⟩) (hrun.trans h)
      · exact hfail _ _ _ (.inr ⟨hvacant, _, hlapsed, .inl rfl⟩) (hrun.trans h)
    · exact wp_acceptExisting hst hindex (fun old => htakes id old hindex (by simpa using hlive))
        (fun st' h => hpost _ [] _ (.inl rfl) h) fun e st' h => hfail _ [] _ (.inl rfl) h

/-! ### Revocation -/

def ServerState.named (st : ServerState) (id : SessionId) : Bool :=
  (st.objects id).qappConnectionId.any (· ≠ "")

theorem wp_breakLink {close : ConnId → ServerM Unit} {fault : SendFault} {connection : Option ConnId}
    (hsame : post () st) (hcloses : ∀ c, wp (close c) env st post fail) :
    wp (breakLink close fault connection) env st post fail := by
  cases connection with
  | none => exact hsame
  | some c =>
    simp only [breakLink, wp_ite, wp_pure]
    exact ⟨fun _ => hcloses c, fun _ => hsame⟩

/-- A revocation goes on if the notice is sent or cannot be, and otherwise ends with the exception of
the notice, or with that of the clean-up of the link it has closed. -/
theorem wp_revoke {fault : Option SendFault}
    (hgoes : (st.linked id = true → st.named id = true → fault = none) →
      wp (revokeSession setup id) env st post fail)
    (hstops : st.linked id = true → st.named id = true → ∀ cause, fault = some cause →
      fail cause.exn st ∧ ∀ c, wp (closeLink setup c) env st (fun _ => fail cause.exn) fail) :
    wp (revoke setup id fault) env st post fail := by
  simp only [revoke, sendSession, wp_do, wp_rescue, wp_ensure]
  refine ⟨fun hlinked => ⟨fun hnamed => ?_, fun hunnamed => ?_⟩, fun hunlinked => ?_⟩
  · cases fault with
    | none => exact hgoes fun _ _ => rfl
    | some cause =>
      obtain ⟨hopen, hcloses⟩ := hstops hlinked hnamed cause rfl
      have hcause : cause.exn.isRuntimeError = false := by cases cause <;> rfl
      simp only [wp_do, hcause, Bool.false_eq_true, if_false]
      refine wp_breakLink hopen fun c => ?_
      refine wp_mono (wp_and (hcloses c) (closeLink_error c)) (fun _ _ h => h.1) fun e st' h => ?_
      simp only [h.2, Bool.false_eq_true, if_false, wp_raise]
      exact h.1
  · exact hgoes fun _ hnamed => absurd hnamed hunnamed
  · exact hgoes fun hlinked => absurd hlinked hunlinked

def Revocation (id : SessionId) (trace : List Call.Action) : Prop :=
  trace = [] ∨ trace = [.disconnected id] ∨ trace = [.disconnected id, .changed id .removed]

theorem run_revokeSession (id : SessionId)
    (hpost : ∀ trace st', Revocation id trace → Run setup env takes trace st st' → post () st')
    (hfail : ∀ e trace st', Revocation id trace → Run setup env takes trace st st' → fail e st') :
    wp (revokeSession setup id) env st post fail := by
  have hdisconnected : Run setup env takes [.disconnected id] st
      (st.called setup env (.disconnected id)) := run_disconnected id
  have hremoved : ∀ n, Run setup env takes [.disconnected id, .changed id .removed] st
      { (st.called setup env (.disconnected id)).discarded env id with dbWrites := n } :=
    fun n => hdisconnected.trans (run_discarded id n)
  apply wp_revokeSession
  · intro _
    exact hpost [] st (.inl rfl) (.refl st)
  · intro _
    apply wp_discardSession
    · intro _ n _
      exact hpost _ _ (.inr (.inr rfl)) (hremoved n)
    · intro _
      exact hfail _ _ _ (.inr (.inl rfl)) (hdisconnected.silently (.invalidated id))
    · intro _ n
      exact hfail _ _ _ (.inr (.inr rfl)) (hremoved n)

theorem run_revoke (hst : st.Wellformed) (id : SessionId) (fault : Option SendFault)
    (hpost : ∀ trace st', Revocation id trace → Run setup env takes trace st st' → post () st')
    (hfail : ∀ e trace st', Revocation id trace ∨ Clearance st.views trace →
      Run setup env takes trace st st' → fail e st') :
    wp (revoke setup id fault) env st post fail := by
  apply wp_revoke
  · intro _
    exact run_revokeSession id hpost fun e trace st' htrace => hfail e trace st' (.inl htrace)
  · intro _ _ cause _
    refine ⟨hfail _ [] st (.inl (.inl rfl)) (.refl st), fun c => ?_⟩
    have hclosed : ∀ e st', (∃ trace, Clearance st.views trace ∧ Run setup env takes trace st st') →
        fail e st' := by
      rintro e st' ⟨trace, htrace, hrun⟩
      exact hfail e trace st' (.inr htrace) hrun
    exact wp_mono (run_closeLink hst c) (fun _ => hclosed _) hclosed

end Rules

end CallBackend.Server
