import CallBackend.Lib.System
import CallBackend.Server.Custody

/-!
# Runs of the server

The server as a transition system. Messages arrive on links and are bound to sessions under the
session lock; their handlers run later, in any order. A link is marked closed by one step, and its
clean-up takes further steps. Maintenance touches and expires sessions, revocations remove them,
timers of the call service fire, and credentials are issued, used, claimed and purged. Every step
brings its own clocks and its own outcomes of writes and requests.

While `bootstrap` hands a realtime token over it holds the session lock, so only the media service,
handlers, timers and the marking of links can come in between.

A process starts with the sessions it finds in the database. They have no link, and no logical id
leads to them.
-/

namespace CallBackend.Server

open Exec

inductive Action where
  /-- A `DATA` frame; `fresh` is the id a new session gets. -/
  | receive (c : ConnId) (logicalId : LogicalId) (messageId : Nat) (message : Json)
      (fresh : SessionId)
  /-- The handler of a message that has been bound to a session. -/
  | serve (n : Nat) (verified : Option (String × QAppIdentity))
  | close (c : ConnId)
  | startCleanup (c : ConnId)
  | nextCleanup (c : ConnId)
  | endCleanup (c : ConnId)
  | closeLogical (c : ConnId) (logicalId : LogicalId)
  /-- `_maintain`, for one session. -/
  | touch (id : SessionId)
  /-- `_expire_sessions`, by `_maintain`. -/
  | expireSessions
  /-- The end of `revoke`. Sending the notice before it can close a link, which is a step of its
  own. -/
  | revokeSession (id : SessionId)
  | expireRoom (roomId : RoomId)
  | expireScreen (roomId : RoomId) (shareId : String)
  | bootstrap (request : BootstrapCall)
  | finishBootstrap
  | attach (transport : TransportId) (metadata : Json)
  | detach (id : SessionId) (transport : TransportId)
  | claim (token : Token)
  | judge (claimed : Token × MediaGrant) (readable : Bool)
  | purge (token : Token) (readable : Bool)

structure Event where
  action : Action
  env : ServerEnv

/-- Takes up a message that is under way. -/
def serveNext (setup : Setup) (n : Nat) (verified : Option (String × QAppIdentity)) :
    ServerM Unit := do
  match (← get).inflight[n]? with
  | none => pure ()
  | some invocation => do
    modify fun st => { st with inflight := st.inflight.eraseIdx n }
    serve setup invocation verified

def maintain (setup : Setup) (id : SessionId) : ServerM Unit := do
  let st ← get
  if !(st.objects id).provisional && st.linked id then touch setup id (← ask).now

/-- What an action does beside credentials. -/
def Action.main (setup : Setup) : Action → ServerM Unit
  | .receive c logicalId messageId message fresh => Server.receive setup c logicalId messageId message fresh
  | .serve n verified => serveNext setup n verified
  | .close c => markClosed c
  | .startCleanup c => Server.startCleanup c
  | .nextCleanup c => Server.nextCleanup setup c
  | .endCleanup c => Server.endCleanup c
  | .closeLogical c logicalId => Server.closeLogical setup c logicalId
  | .touch id => maintain setup id
  | .expireSessions => do Server.expireSessions (← ask).now
  | .revokeSession id => Server.revokeSession setup id
  | .expireRoom roomId => do let _ ← inCalls setup (.expireRoom roomId)
  | .expireScreen roomId shareId => do let _ ← inCalls setup (.expireScreen roomId shareId)
  | .detach id transport => Server.detach id transport
  | _ => pure ()

def Action.run (setup : Setup) : Action → ServerM Reply
  | .bootstrap request => Server.bootstrap setup request
  | .finishBootstrap => do
    match (← get).releasing with
    | some token => Server.finishBootstrap token
    | none => return .done
  | .attach transport metadata => Server.attach transport metadata
  | .claim token => do
    claimGrant token
    return .done
  | .judge claimed readable => do
    if claimed ∈ (← get).claimedGrants then judgeGrant setup claimed readable else return .done
  | .purge token readable => do
    purgeGrant token readable
    return .done
  | action => do
    action.main setup
    return .done

/-- The action takes the session lock. -/
def Action.locks : Action → Bool
  | .serve _ _ | .close _ | .touch _ | .expireRoom _ | .expireScreen _ _ => false
  | .finishBootstrap | .claim _ | .judge _ _ | .purge _ _ => false
  | _ => true

/-- The id a new session gets. -/
def Action.newSession : Action → Option SessionId
  | .receive _ _ _ _ fresh => some fresh
  | _ => none

/-- The action can happen: the session lock is free if it takes it, and the id of a new session is
new. -/
def Action.Enabled (st : ServerState) (action : Action) : Prop :=
  (action.locks = true → st.releasing = none) ∧ action.newSession.all (· ∉ st.known) = true

instance (st : ServerState) (action : Action) : Decidable (action.Enabled st) :=
  inferInstanceAs (Decidable (_ ∧ _))

structure ServerState.Started (st : ServerState) : Prop where
  loaded : ∀ id ∈ st.known, (st.objects id).provisional = false ∧ (st.objects id).connection = none ∧
    (st.objects id).privateTransport = none
  others : ∀ id, id ∉ st.known → st.objects id = {}
  registered : st.registry = st.known
  nodup : st.known.Nodup
  /-- Nothing else is left of earlier processes but files of realtime grants. -/
  rest : st = {
    objects := st.objects
    known := st.known
    registry := st.registry
    grantFiles := st.grantFiles }

def ServerState.next (setup : Setup) (st : ServerState) (event : Event) : ServerState :=
  (event.action.run setup event.env st).2

def ServerState.after (setup : Setup) (st : ServerState) (events : List Event) : ServerState :=
  events.foldl (ServerState.next setup) st

def server (setup : Setup) : System ServerState Event where
  init := ServerState.Started
  step st event st' := event.action.Enabled st ∧ st' = st.next setup event

/-- Every event of the sequence can happen, and meets the condition, where it happens. -/
abbrev ServerState.Meets (setup : Setup) (ok : ServerState → Event → Prop) :
    ServerState → List Event → Prop :=
  System.Meets (ServerState.next setup) fun st event => event.action.Enabled st ∧ ok st event

variable {ok : ServerState → Event → Prop}

theorem path_after {setup : Setup} {st : ServerState}
    {events : List Event} (h : st.Meets setup ok events) :
    (server setup).Path ok st (st.after setup events) := by
  have hstep : ∀ st event, event.action.Enabled st →
      (server setup).step st event (st.next setup event) :=
    fun st event henabled => ⟨henabled, rfl⟩
  exact System.Path.of_meets hstep .refl h

theorem reachable_after {setup : Setup} {st : ServerState}
    {events : List Event} (hst : st.Started) (h : st.Meets setup ok events) :
    (server setup).Reachable ok (st.after setup events) :=
  (path_after h).reachable (.init hst)

/-! ### What a step does -/

/-- The message is for a session on another link, and that link is marked closed. This holds of a
provisional session too: what it has to serve came over the old link. And it holds whether or not the
message is then taken. -/
def Action.overtakes (action : Action) (st : ServerState) (now : Nanos) : Bool :=
  match action with
  | .receive c logicalId _ _ _ => (st.logicalSessions logicalId).any fun id =>
    decide (now < (st.objects id).expiresAt) &&
      (st.objects id).connection.any fun old => decide (old ≠ c) && (st.connections old).closed
  | _ => false

def Action.asked : Action → Option BootstrapCall
  | .bootstrap request => some request
  | _ => none

/-- The actions of the call service an action may amount to. -/
def Action.Possible (st : ServerState) (now : Nanos) (action : Action) (trace : List Call.Action) :
    Prop :=
  match action with
  | .receive _ logicalId _ _ fresh => Acceptance st now logicalId fresh trace
  | .serve n _ => trace = [] ∨ ∃ invocation, st.inflight[n]? = some invocation ∧
      (trace = [.message invocation.session invocation.message] ∨
        ∃ user, trace = [.changed invocation.session (.authenticated user)])
  | .nextCleanup c => st.Cleaning c trace
  | .closeLogical _ logicalId => Disconnection st logicalId trace
  | .expireSessions => ∃ ids, st.Lapsed now ids ∧ trace = removals ids
  | .revokeSession id => Revocation id trace
  | .expireRoom roomId => trace = [.expireRoom roomId]
  | .expireScreen roomId shareId => trace = [.expireScreen roomId shareId]
  | .bootstrap request => request.Possible st trace
  | _ => trace = []

section Steps

variable {setup : Setup} {env : ServerEnv} {asked : Option BootstrapCall} {takes : Prop}
  {possible : List Call.Action → Prop} {st : ServerState}

/-- However it ends, the computation is a run with a possible trace. -/
def Runs (setup : Setup) (env : ServerEnv) (takes : Prop)
    (possible : List Call.Action → Prop) (st : ServerState) (m : ServerM Unit) : Prop :=
  wp m env st (fun _ st' => ∃ trace, possible trace ∧ Run setup env takes trace st st')
    fun _ st' => ∃ trace, possible trace ∧ Run setup env takes trace st st'

theorem takes_of_runs {m : ServerM Unit} (h : Runs setup env takes possible st m) :
    Takes setup env asked takes possible st (do m; return .done) := by
  unfold Takes
  rw [wp_bind]
  refine wp_mono h (fun _ st' h => ?_) fun _ st' h => ?_
  · obtain ⟨trace, hpossible, hrun⟩ := h
    exact ⟨trace, st', hpossible, hrun, .done st'⟩
  · obtain ⟨trace, hpossible, hrun⟩ := h
    exact ⟨trace, st', hpossible, hrun, .raised st'⟩

theorem runs_receive {c : ConnId} {logicalId : LogicalId} {messageId : Nat} {message : Json}
    {fresh : SessionId} (hst : st.Wellformed) (hfresh : fresh ∉ st.known) :
    Runs setup env
      ((Action.receive c logicalId messageId message fresh).overtakes st env.now = true)
      ((Action.receive c logicalId messageId message fresh).Possible st env.now) st
      (receive setup c logicalId messageId message fresh) := by
  unfold Runs
  simp only [receive, wp_do, wp_ite, wp_rescue, markClosed]
  refine ⟨fun _ => ⟨[], .inl rfl, .refl st⟩, fun _ => ?_⟩
  have htakes : ∀ id old, st.logicalSessions logicalId = some id →
      env.now < (st.objects id).expiresAt → (st.objects id).connection = some old → old ≠ c →
      (st.connections old).closed = true →
      (Action.receive c logicalId messageId message fresh).overtakes st env.now = true := by
    intro id old hindex hlive hold hne hclosed
    simp [Action.overtakes, hindex, hlive, hold, hne, hclosed]
  apply wp_acceptMessage hst hfresh htakes
  · intro id trace st' htrace hrun hlink
    exact ⟨trace, htrace, hrun.silently (.posted ⟨c, id, messageId, message, env.now⟩ hlink)⟩
  · intro e trace st' htrace hrun
    exact ⟨trace, htrace, hrun.quietly (quiet_connections _)⟩

theorem wp_handle (invocation : Invocation) (verified : Option (String × QAppIdentity))
    {post : Unit → ServerState → Prop} {fail : Exn → ServerState → Prop}
    (hquiet : ∀ st', Run setup env takes [] st st' → post () st' ∧ ∀ e, fail e st')
    (hcalled : ∀ st', Run setup env takes [.message invocation.session invocation.message] st st' →
      post () st' ∧ ∀ e, fail e st')
    (hproved : ∀ user st', Run setup env takes [.changed invocation.session (.authenticated user)] st st' →
      post () st' ∧ ∀ e, fail e st') :
    wp (handle setup invocation verified) env st post fail := by
  simp only [handle, wp_do, wp_ite]
  refine ⟨fun _ => ?_, fun _ => ⟨fun _ => ?_, fun _ => (hquiet st (.refl st)).1⟩⟩
  · have hrun : Run setup env takes [.message invocation.session invocation.message] st
        (st.called setup env (.message invocation.session invocation.message)) :=
      Run.act (.called trivial)
    exact wp_inCalls (fun _ => (hcalled _ hrun).1) (hcalled _ hrun).2
  · cases verified with
    | none => exact (hquiet st (.refl st)).1
    | some proof =>
      simp only [authenticate, getSession, setSession, wp_do]
      have hnamed : Quiet st { st with
          objects := Function.update st.objects invocation.session
            { st.objects invocation.session with qappIdentity := some proof.2 } } := quiet_set rfl
      refine wp_promote (fun st₁ (h₁ : Run setup env takes _ _ st₁) => ?_) fun e st₁ h₁ => ?_
      · have hpromoted := hnamed.run.trans h₁
        refine wp_persist (fun t n => ?_) fun n => ?_
        · exact (hproved proof.1 _ (hpromoted.quietly (quiet_persisted _ t n))).1
        · exact (hproved proof.1 _ (hpromoted.quietly (quiet_writes n))).2 _
      · rcases h₁ with h₁ | h₁
        · exact (hquiet _ (hnamed.run.trans h₁)).2 e
        · exact (hproved proof.1 _ (hnamed.run.trans h₁)).2 e

theorem runs_serveNext (n : Nat) (verified : Option (String × QAppIdentity)) :
    Runs setup env takes ((Action.serve n verified).Possible st env.now) st
      (serveNext setup n verified) := by
  unfold Runs
  simp only [serveNext, wp_do]
  cases hinvocation : st.inflight[n]? with
  | none => exact ⟨[], .inl rfl, .refl st⟩
  | some invocation =>
    simp only [serve, wp_do, wp_rescue, wp_ite, markClosed]
    have htaken : Run setup env takes [] st { st with inflight := st.inflight.eraseIdx n } :=
      Run.silent (.taken n)
    refine wp_seenMessage fun seen st₁ h₁ => ⟨fun _ => ?_, fun _ => ?_⟩
    · exact ⟨[], .inl rfl, htaken.quietly h₁⟩
    have hseen := htaken.quietly h₁
    refine wp_touch (fun st₂ h₂ => ?_) fun st₂ h₂ => ?_
    · have htouched := hseen.quietly h₂
      apply wp_handle
      · intro st' h
        have hrun := htouched.trans h
        exact ⟨⟨[], .inl rfl, hrun⟩, fun _ => ⟨[], .inl rfl, hrun⟩⟩
      · intro st' h
        have hrun := htouched.trans h
        exact ⟨⟨_, .inr ⟨invocation, hinvocation, .inl rfl⟩, hrun⟩,
          fun _ => ⟨_, .inr ⟨invocation, hinvocation, .inl rfl⟩, hrun⟩⟩
      · intro user st' h
        have hrun := htouched.trans h
        exact ⟨⟨_, .inr ⟨invocation, hinvocation, .inr ⟨user, rfl⟩⟩, hrun⟩,
          fun _ => ⟨_, .inr ⟨invocation, hinvocation, .inr ⟨user, rfl⟩⟩, hrun⟩⟩
    · exact ⟨[], .inl rfl, (hseen.quietly h₂).quietly (quiet_connections _)⟩

theorem runs_nextCleanup (c : ConnId) :
    Runs setup env takes ((Action.nextCleanup c).Possible st env.now) st (nextCleanup setup c) :=
  run_nextCleanup c (fun trace _ htrace hrun => ⟨trace, htrace, hrun⟩)
    fun _ trace _ _ htrace hrun => ⟨trace, htrace, hrun⟩

theorem runs_closeLogical (c : ConnId) (logicalId : LogicalId) :
    Runs setup env takes ((Action.closeLogical c logicalId).Possible st env.now) st
      (closeLogical setup c logicalId) := by
  unfold Runs
  simp only [closeLogical, setConnection, wp_do, wp_ite]
  refine ⟨fun _ => ?_, fun _ => ⟨[], .inl rfl, .refl st⟩⟩
  apply run_disconnectLogicalSession
  · intro trace st' htrace hrun
    exact ⟨trace, htrace, hrun⟩
  · intro e trace st' _ htrace hrun
    exact ⟨trace, htrace, hrun⟩

theorem runs_of_quiet {m : ServerM Unit} (hnil : possible [])
    (h : wp m env st (fun _ => Quiet st) fun _ => Quiet st) : Runs setup env takes possible st m :=
  wp_mono h (fun _ _ hquiet => ⟨[], hnil, hquiet.run⟩) fun _ _ hquiet => ⟨[], hnil, hquiet.run⟩

theorem quiet_maintain (id : SessionId) :
    wp (maintain setup id) env st (fun _ => Quiet st) fun _ => Quiet st := by
  simp only [maintain, wp_do, wp_ite]
  exact ⟨fun _ => wp_touch (fun _ h => h) fun _ h => h, fun _ => .refl st⟩

theorem quiet_detach (id : SessionId) (transport : TransportId) :
    wp (detach id transport) env st (fun _ => Quiet st) fun _ => Quiet st := by
  simp only [detach, getSession, setSession, wp_do, wp_ite]
  exact ⟨fun _ => quiet_set rfl, fun _ => .refl st⟩

theorem runs_inCalls {action : Call.Action} (haction : IsHandler action) (hpossible : possible [action]) :
    Runs setup env takes possible st (do let _ ← inCalls setup action) := by
  have hrun : Run setup env takes [action] st (st.called setup env action) := Run.act (.called haction)
  unfold Runs
  simp only [wp_do]
  apply wp_inCalls
  · intro _
    exact ⟨[action], hpossible, hrun⟩
  · intro _
    exact ⟨[action], hpossible, hrun⟩

theorem deals_run_finishBootstrap {asked : Option BootstrapCall} :
    Deals setup env asked st (Action.finishBootstrap.run setup) := by
  simp only [Deals, Action.run, wp_do]
  cases st.releasing with
  | none => exact .done st
  | some token => exact deals_finishBootstrap token

theorem deals_run_judge {asked : Option BootstrapCall} (claimed : Token × MediaGrant) (readable : Bool) :
    Deals setup env asked st ((Action.judge claimed readable).run setup) := by
  simp only [Deals, Action.run, wp_do, wp_ite]
  exact ⟨fun _ => deals_judgeGrant claimed readable, fun _ => .done st⟩

/-- Every step is a run whose trace is possible for its action, followed by a deal. -/
theorem takes_run {action : Action} (hst : st.Wellformed) (henabled : action.Enabled st) :
    Takes setup env action.asked (action.overtakes st env.now = true) (action.Possible st env.now) st
      (action.run setup) := by
  cases action with
  | receive c logicalId messageId message fresh =>
    exact takes_of_runs (runs_receive hst (by simpa [Action.newSession] using henabled.2))
  | serve n verified => exact takes_of_runs (runs_serveNext n verified)
  | close c => exact takes_of_runs (runs_of_quiet rfl (quiet_connections _))
  | startCleanup c => exact takes_of_runs (runs_of_quiet rfl (quiet_startCleanup c))
  | nextCleanup c => exact takes_of_runs (runs_nextCleanup c)
  | endCleanup c => exact takes_of_runs (runs_of_quiet rfl (quiet_endCleanup c))
  | closeLogical c logicalId => exact takes_of_runs (runs_closeLogical c logicalId)
  | touch id => exact takes_of_runs (runs_of_quiet rfl (quiet_maintain id))
  | expireSessions =>
    exact takes_of_runs (wp_expireSessions (fun st' h => ⟨_, ⟨_, lapsed_overdue _, rfl⟩, h⟩)
      fun e st' h => ⟨_, ⟨_, lapsed_overdue _, rfl⟩, h⟩)
  | revokeSession id =>
    exact takes_of_runs (run_revokeSession id (fun trace st' htrace h => ⟨trace, htrace, h⟩)
      fun _ trace st' htrace h => ⟨trace, htrace, h⟩)
  | expireRoom roomId => exact takes_of_runs (runs_inCalls trivial rfl)
  | expireScreen roomId shareId => exact takes_of_runs (runs_inCalls trivial rfl)
  | bootstrap request => exact takes_bootstrap hst request
  | finishBootstrap => exact takes_of_deals rfl deals_run_finishBootstrap
  | attach transport metadata => exact takes_of_deals rfl (deals_attach transport metadata)
  | detach id transport => exact takes_of_runs (runs_of_quiet rfl (quiet_detach id transport))
  | claim token => exact takes_of_deals rfl (deals_claimGrant token)
  | judge claimed readable => exact takes_of_deals rfl (deals_run_judge claimed readable)
  | purge token readable => exact takes_of_deals rfl (deals_purgeGrant token readable)

/-- The reply to an event, unless its action raises. -/
def ServerState.reply (setup : Setup) (st : ServerState) (event : Event) : Option Reply :=
  (event.action.run setup event.env st).1.toOption

variable (setup) in
theorem next_steps {event : Event} (hst : st.Wellformed) (henabled : event.action.Enabled st) :
    Steps setup event.env event.action.asked (event.action.overtakes st event.env.now = true)
      (event.action.Possible st event.env.now) st (st.reply setup event) (st.next setup event) :=
  wp_outcome (takes_run hst henabled)

theorem started_wellformed (h : st.Started) : st.Wellformed := by
  constructor
  · intro id hid
    rw [h.others id hid, h.registered]
    exact ⟨rfl, hid⟩
  · intro logicalId id hindex
    rw [h.rest] at hindex
    cases hindex
  · rw [h.registered]
    exact h.nodup

theorem wellformed_next {event : Event} (hst : st.Wellformed) (henabled : event.action.Enabled st) :
    (st.next setup event).Wellformed := by
  obtain ⟨trace, st₁, -, hrun, hdeal⟩ := next_steps setup hst henabled
  exact hdeal.sealed.wellformed (hrun.wellformed hst)

theorem reachable_wellformed
    (h : (server setup).Reachable ok st) : st.Wellformed := by
  refine h.invariant (I := ServerState.Wellformed) (fun st hst => started_wellformed hst) fun st event st' hst _ hstep => ?_
  rw [hstep.2]
  exact wellformed_next hst hstep.1

/-! ### The call service inside the server -/

variable (setup) in
/-- A process that has loaded its sessions is, for the call service, one that has restarted. -/
theorem started_world (h : st.Started) :
    st.world = ({} : Call.World).next setup.call { action := .restart st.views fun _ => none } := by
  have hcall : st.call = {} := by rw [h.rest]
  have hcreators : st.creators = fun _ => none := by rw [h.rest]
  change Call.World.mk st.views st.call st.creators =
    Call.World.mk st.views (Call.restart setup.call (fun _ => none) {}) fun _ => none
  rw [hcall, hcreators]
  simp [Call.restart]

theorem reachable_world (h : (server setup).Reachable ok st) :
    (Call.service setup.call).Reachable System.anyStep st.world := by
  suffices hboth : st.Wellformed ∧ (Call.service setup.call).Reachable System.anyStep st.world from
    hboth.2
  refine h.invariant (I := fun st => st.Wellformed ∧
    (Call.service setup.call).Reachable System.anyStep st.world) (fun st hst => ?_)
    fun st event st' hst _ hstep => ?_
  · have hstart : (Call.service setup.call).Reachable System.anyStep {} := .init rfl
    refine ⟨started_wellformed hst, ?_⟩
    rw [started_world setup hst]
    exact .step hstart trivial rfl
  · obtain ⟨trace, st₁, -, hrun, hdeal⟩ := next_steps setup hst.1 hstep.1
    rw [hstep.2, hdeal.sealed.world, hrun.world hst.1]
    exact ⟨wellformed_next hst.1 hstep.1, Call.reachable_after hst.2 _⟩

end Steps

/-! ### A sample deployment -/

namespace Sample

def setup : Setup where
  call := Call.Sample.setup
  config := {}
  platform :=
    { folded := id
      isBlank := fun text => text.isEmpty
      isIpAddress := fun host => host = "127.0.0.1"
      urlparse := fun _ => { scheme := "", hostname := none }
      normalizeQAppIdentity := .ok }
  ownerBindingHash _ _ _ _ _ := "binding"
  validQAppName _ := true

def clock (n : Nat) : ServerEnv where
  now := seconds n
  monotonic := seconds n
  writeSucceeds _ := true
  dbSucceeds _ := true
  closeSucceeds _ := true
  unlinks _ := true
  marksRevoked _ := true

def start : ServerState := {}

theorem started_start : start.Started :=
  ⟨by simp [start], by simp [start], rfl, List.nodup_nil, rfl⟩

def authenticate : Json := .obj [("type", .str "AUTHENTICATE")]

/-- A message on a link, and its handler. -/
def message (n : Nat) (c : ConnId) (logicalId : LogicalId) (content : Json) (fresh : SessionId) :
    List Event :=
  [⟨.receive c logicalId n content fresh, clock n⟩, ⟨.serve 0 none, clock n⟩]

/-- A session opens on a link and proves an address. -/
def login (n : Nat) (c : ConnId) (logicalId : LogicalId) (address : String) (fresh : SessionId) :
    List Event :=
  [⟨.receive c logicalId n authenticate fresh, clock n⟩, ⟨.serve 0 (some (address, ("chat", "APP"))), clock n⟩]

end Sample

end CallBackend.Server
