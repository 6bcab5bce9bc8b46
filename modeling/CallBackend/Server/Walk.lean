import CallBackend.Server.Run

/-!
# A walk through the server's functions

Most of what is to be said about every step of the server is a relation between the state before and
the state after that holds across each of a few elementary changes, and along sequences of them. Here
the functions of the server are walked through once, for all such relations: a relation that encloses
the elementary changes holds across every action but the arrival of a message, which also brings
sessions and logical ids to a link, and, if it tolerates changes of message windows as well, across
the handling of one. Some of the changes leave the sessions where they are, and a relation that
tolerates no more than these still holds across the actions that make no others.
-/

namespace CallBackend.Server

open Exec Function

/-- Neither the arrival nor the handling of a message. -/
def Action.isInternal : Action → Bool
  | .receive _ _ _ _ _ | .serve _ _ => false
  | _ => true

/-- The action leaves sessions registered, bound and indexed as they are. -/
def Action.keepsSessions : Action → Bool
  | .close _ | .touch _ | .expireRoom _ | .expireScreen _ _ | .finishBootstrap | .attach _ _
  | .detach _ _ | .claim _ | .judge _ _ | .purge _ _ => true
  | _ => false

/-- The relation holds across changes of the server's state that leave the sessions where they are. -/
structure Tolerates (R : ServerState → ServerState → Prop) : Prop extends IsPreorder ServerState R where
  session : ∀ {st : ServerState} {id : SessionId} {session : Session},
    session.core = (st.objects id).core → session.dedup = (st.objects id).dedup →
    R st { st with objects := update st.objects id session }
  rest : ∀ {st st' : ServerState}, st'.objects = st.objects → st'.known = st.known →
    st'.registry = st.registry → st'.logicalSessions = st.logicalSessions →
    st'.connections = st.connections → st'.inflight = st.inflight → R st st'
  promoted : ∀ {st : ServerState} {id : SessionId} (user : String) (now ttl : Nanos),
    id ∈ st.registry → R st (st.withProof id ((st.objects id).promoted user now ttl))
  shut : ∀ (st : ServerState) c, R st { st with
    connections := update st.connections c { st.connections c with closed := true } }

/-- The relation holds across the elementary changes of the server's state. -/
structure Encloses (R : ServerState → ServerState → Prop) : Prop extends Tolerates R where
  unbound : ∀ (st : ServerState) id, R st (st.unbound id)
  unregistered : ∀ (st : ServerState) id, R st { st with registry := st.registry.erase id }
  unnamed : ∀ {st : ServerState} {id : SessionId}, (st.objects id).connection = none →
    R st { st with
      objects := update st.objects id { st.objects id with qappConnectionId := none } }
  cleaning : ∀ {st : ServerState} {c : ConnId} {cleanup : Cleanup},
    ((∀ d rest, (st.connections d).cleanup = .running rest → (st.connections d).closed = true) →
      cleanup ≠ .ended → (st.connections c).closed = true) →
    R st { st with
      connections := update st.connections c { st.connections c with cleanup } }
  emptied : ∀ {st : ServerState} {c : ConnId}, (st.connections c).cleanup = .running [] →
    R st { st with
      connections := update st.connections c
        { st.connections c with logicalIds := [], newTimes := [], cleanup := .ended } }
  left : ∀ (st : ServerState) c logicalId, R st { st with
    connections := update st.connections c { st.connections c with
      logicalIds := (st.connections c).logicalIds.erase logicalId
      closedLogicalIds := (st.connections c).closedLogicalIds.insert logicalId } }

variable {R : ServerState → ServerState → Prop} {setup : Setup} {env : ServerEnv}
  {st st' : ServerState}

namespace Tolerates

variable {α β : Type} (h : Tolerates R)

include h

theorem bind {m : ServerM β} {f : β → ServerM α} (hm : Moves R m)
    (hf : ∀ b, Moves R (f b)) : Moves R (m >>= f) :=
  have := h.toIsPreorder
  moves_bind hm hf

theorem forEach {action : α → ServerM Unit} (haction : ∀ a, Moves R (action a))
    (items : List α) : Moves R (Exec.forEach action items) :=
  have := h.toIsPreorder
  moves_forEach haction

theorem after (hst : R st st') {m : ServerM α} (hm : Moves R m) :
    wp m env st' (fun _ => R st) fun _ => R st :=
  wp_mono hm.wp (fun _ _ => h.trans _ _ _ hst) fun _ _ => h.trans _ _ _ hst

theorem ask : Moves R (Exec.ask : ServerM ServerEnv) := fun _ st => h.refl st

theorem writes (n : Nat) : R st { st with dbWrites := n } :=
  h.rest rfl rfl rfl rfl rfl rfl

theorem called (action : Call.Action) : R st (st.called setup env action) :=
  h.rest rfl rfl rfl rfl rfl rfl

theorem writeDatabase : Moves R Server.writeDatabase :=
  moves_of_wp fun _ _ => wp_writeDatabase (fun n => h.writes n) fun n => h.writes n

theorem touch (id : SessionId) (timestamp : Nanos) :
    Moves R (Server.touch setup id timestamp) := by
  apply moves_of_wp
  intro env st
  simp only [Server.touch, extend, getSession, setSession, wp_do, wp_ite]
  have hset : R st { st with objects := update st.objects id { st.objects id with
      lastSeen := timestamp, expiresAt := timestamp + setup.config.sessionTtl } } :=
    h.session rfl rfl
  refine ⟨fun _ => ⟨fun _ => h.session rfl rfl, fun _ => ⟨fun _ => ?_, fun _ => hset⟩⟩,
    fun _ => h.refl st⟩
  refine wp_writeDatabase (fun n => ?_) fun n => h.trans _ _ _ hset (h.writes n)
  refine h.trans _ _ _ (h.trans _ _ _ hset (h.writes n)) (h.session ?_ ?_)
  · simp only [update_self]
    rfl
  · simp only [update_self]

theorem persisted (id : SessionId) (t : Nanos) (n : Nat) : R st (st.persisted id t n) := by
  have hset : R st { st with
      objects := update st.objects id { st.objects id with lastPersistedAt := t } } :=
    h.session rfl rfl
  exact h.trans _ _ _ hset (h.rest rfl rfl rfl rfl rfl rfl)

theorem persist (id : SessionId) : Moves R (Server.persist id) :=
  moves_of_wp fun _ _ => wp_persist (fun t n => h.persisted id t n) fun n => h.writes n

theorem withoutCredentials (id : SessionId) : R st (st.withoutCredentials env id) := by
  have hset : R st { st with
      objects := update st.objects id { st.objects id with privateTransport := none } } :=
    h.session rfl rfl
  exact h.trans _ _ _ hset (h.rest rfl rfl rfl rfl rfl rfl)

theorem invalidateSession (id : SessionId) : Moves R (Server.invalidateSession id) :=
  moves_of_wp fun _ _ => wp_invalidateSession (fun _ => h.withoutCredentials id)
    fun _ => h.withoutCredentials id

theorem inCalls (action : Call.Action) : Moves R (Server.inCalls setup action) :=
  moves_of_wp fun _ _ => wp_inCalls (fun _ => h.called action) fun _ => h.called action

theorem disconnectHandlers (id : SessionId) :
    Moves R (Server.disconnectHandlers setup id) :=
  moves_of_wp fun _ _ => wp_disconnectHandlers (h.called _)

theorem markClosed (c : ConnId) : Moves R (Server.markClosed c) :=
  fun _ st => h.shut st c

theorem maintain (id : SessionId) : Moves R (Server.maintain setup id) := by
  apply moves_of_wp
  intro env st
  simp only [Server.maintain, wp_do, wp_ite]
  exact ⟨fun _ => (h.touch id env.now).wp, fun _ => h.refl st⟩

theorem detach (id : SessionId) (transport : TransportId) :
    Moves R (Server.detach id transport) := by
  apply moves_of_wp
  intro env st
  simp only [Server.detach, getSession, setSession, wp_do, wp_ite]
  exact ⟨fun _ => h.session rfl rfl, fun _ => h.refl st⟩

theorem deal {asked : Option BootstrapCall} {reply : Option Reply}
    (hdeal : Deal setup env asked reply st st') :
    R st st' := by
  cases hdeal with
  | @attached _ request grant transport hgrant hfits hhonours =>
    have hspent : R st (st.spending env.now request.attachToken) := h.rest rfl rfl rfl rfl rfl rfl
    exact h.trans _ _ _ hspent (h.session rfl rfl)
  | _ => exact h.rest rfl rfl rfl rfl rfl rfl

variable (setup) in
theorem of_deals {m : ServerM Reply} (hdeals : ∀ env st, Deals setup env none st m) : Moves R m :=
  moves_of_wp fun env st => wp_mono (hdeals env st) (fun _ _ => h.deal) fun _ _ => h.deal

/-! ### The handling of a message -/

theorem promote (id : SessionId) (user : String) :
    Moves R (Server.promote setup id user) := by
  apply moves_of_wp
  intro env st
  simp only [Server.promote, getSession, setSession, wp_do, wp_ensure]
  refine ⟨fun hregistered => ?_, fun _ => h.refl st⟩
  have hproved := h.promoted user env.now setup.config.sessionTtl hregistered
  refine wp_writeDatabase (fun n => ?_) fun n => h.trans _ _ _ hproved (h.writes n)
  refine h.trans _ _ _ (h.trans _ _ _ hproved (h.writes n)) (h.session ?_ ?_)
  · simp only [ServerState.withProof, update_self]
    rfl
  · simp only [ServerState.withProof, update_self]

theorem handle (invocation : Invocation) (verified : Option (String × QAppIdentity)) :
    Moves R (Server.handle setup invocation verified) := by
  apply moves_of_wp
  intro env st
  simp only [Server.handle, wp_do, wp_ite]
  refine ⟨fun _ => (h.inCalls _).wp, fun _ => ⟨fun _ => ?_, fun _ => h.refl st⟩⟩
  cases verified with
  | none => exact h.refl st
  | some proof =>
    simp only [authenticate, getSession, setSession, wp_do]
    have hnamed : R st { st with
        objects := update st.objects invocation.session
          { st.objects invocation.session with qappIdentity := some proof.2 } } :=
      h.session rfl rfl
    refine wp_mono (h.after hnamed (h.promote _ _)) (fun _ st₁ h₁ => ?_) fun _ _ h₁ => h₁
    exact h.after h₁ (h.persist _)

omit h in
theorem wp_seenMessage_window {id : SessionId} {messageId : Nat} {post : Bool → ServerState → Prop}
    {fail : Exn → ServerState → Prop}
    (hpost : ∀ seen window, post seen { st with
      objects := update st.objects id { st.objects id with dedup := window } }) :
    wp (seenMessage setup id messageId) env st post fail := by
  simp only [seenMessage, getSession, setSession, wp_do]
  exact hpost _ _

variable (setup env) in
theorem handled (invocation : Invocation)
    (verified : Option (String × QAppIdentity)) (hst : R st st') :
    wp (do
      rescue (Server.touch setup invocation.session invocation.now) fun error => do
        Server.markClosed invocation.connection
        raise error
      rescue (Server.handle setup invocation verified) fun _ => pure ()) env st' (fun _ => R st)
      fun _ => R st := by
  simp only [Server.markClosed, wp_do, wp_rescue]
  refine wp_mono (h.after hst (h.touch _ _)) (fun _ st₁ h₁ => ?_) fun _ _ h₁ => ?_
  · exact wp_mono (h.after h₁ (h.handle invocation verified)) (fun _ _ h₂ => h₂) fun _ _ h₂ => h₂
  · exact h.trans _ _ _ h₁ (h.shut _ _)

/-- A relation that tolerates changes of message windows holds across the handling of a message. -/
theorem serveNext
    (htaken : ∀ (st : ServerState) n, R st { st with inflight := st.inflight.eraseIdx n })
    (hseen : ∀ (st : ServerState) id window, R st { st with
      objects := update st.objects id { st.objects id with dedup := window } })
    (n : Nat) (verified : Option (String × QAppIdentity)) :
    Moves R (Server.serveNext setup n verified) := by
  apply moves_of_wp
  intro env st
  simp only [Server.serveNext, wp_do]
  cases st.inflight[n]? with
  | none => exact h.refl st
  | some invocation =>
    rw [wp_bind, wp_modify, serve, wp_bind]
    refine wp_seenMessage_window fun seen window => ?_
    have hwindow := h.trans _ _ _ (htaken st n) (hseen _ invocation.session window)
    rw [wp_ite]
    exact ⟨fun _ => hwindow, fun _ => h.handled setup env invocation verified hwindow⟩

/-! ### Steps -/

theorem done {m : ServerM Unit} (hm : Moves R m) :
    Moves R (do m; return Reply.done) :=
  h.bind hm fun _ _ st => h.refl st

/-- The relation holds across an action that keeps the sessions where they are. -/
theorem run {action : Action} (hkeeps : action.keepsSessions = true) : Moves R (action.run setup) := by
  have hignore : ∀ _ : Call.Plan, Moves R (pure () : ServerM Unit) := fun _ _ st => h.refl st
  cases action with
  | close c => exact h.done (h.markClosed c)
  | touch id => exact h.done (h.maintain id)
  | expireRoom roomId => exact h.done (h.bind (h.inCalls _) hignore)
  | expireScreen roomId shareId => exact h.done (h.bind (h.inCalls _) hignore)
  | finishBootstrap => exact h.of_deals setup fun _ _ => deals_run_finishBootstrap
  | attach transport metadata => exact h.of_deals setup fun _ _ => deals_attach transport metadata
  | detach id transport => exact h.done (h.detach id transport)
  | claim token => exact h.of_deals setup fun _ _ => deals_claimGrant token
  | judge claimed readable => exact h.of_deals setup fun _ _ => deals_run_judge claimed readable
  | purge token readable => exact h.of_deals setup fun _ _ => deals_purgeGrant token readable
  | _ => exact absurd hkeeps Bool.false_ne_true

end Tolerates

namespace Encloses

variable (h : Encloses R)

include h

theorem unbind (id : SessionId) : Moves R (Server.unbind id) :=
  moves_of_wp fun _ st => wp_unbind (h.unbound st id)

theorem unregister (id : SessionId) : Moves R (Server.unregister id) :=
  fun _ st => h.unregistered st id

theorem discard (id : SessionId) : Moves R (Server.discard id) := by
  have herased : ∀ (st : ServerState) n,
      R st { st with registry := st.registry.erase id, dbWrites := n } := fun st n =>
    h.trans _ _ _ (h.unregistered st id) (h.rest rfl rfl rfl rfl rfl rfl)
  exact moves_of_wp fun _ st => wp_discard (fun n _ => herased st n) fun n => herased st n

theorem discardSession (id : SessionId) : Moves R (Server.discardSession id) :=
  h.bind (h.invalidateSession id) fun _ => h.bind (h.unbind id) fun _ => h.discard id

theorem revokeSession (id : SessionId) : Moves R (Server.revokeSession setup id) := by
  refine moves_of_wp fun env st => wp_revokeSession (fun _ => h.refl st) fun _ => ?_
  exact h.after (h.called _) (h.discardSession id)

theorem expireSessions (now : Nanos) : Moves R (Server.expireSessions now) := by
  have hexpire : Moves R (expire now) := by
    apply moves_of_wp
    intro env st
    simp only [expire, wp_do, wp_ite]
    refine wp_mono (h.forEach h.unregister (st.overdue now)).wp
      (fun _ st₁ h₁ => ⟨fun _ => ?_, fun _ => h₁⟩) fun _ _ h₁ => h₁
    exact h.after h₁ h.writeDatabase
  refine h.bind hexpire fun expired => h.forEach (fun id => ?_) expired
  exact h.bind (h.invalidateSession id) fun _ => h.unbind id

theorem disconnectSession (id : SessionId) :
    Moves R (Server.disconnectSession setup id) := by
  apply moves_of_wp
  intro env st
  simp only [Server.disconnectSession, getSession, setSession, wp_do]
  have hinvalidated : R st (st.withoutCredentials env id) := h.withoutCredentials id
  refine wp_invalidateSession (fun _ => wp_unbind ?_) fun _ => hinvalidated
  have hunbound := h.trans _ _ _ hinvalidated (h.unbound _ id)
  have hloose : (((st.withoutCredentials env id).unbound id).objects id).connection = none := by
    simp [ServerState.unbound]
  have hunnamed := h.trans _ _ _ hunbound (h.unnamed hloose)
  refine wp_mono (h.after hunnamed (h.touch id env.now)) (fun _ st₁ h₁ => ?_) fun _ _ h₁ => h₁
  refine wp_mono (h.after h₁ (h.persist id)) (fun _ st₂ h₂ => ?_) fun _ _ h₂ => h₂
  exact h.after h₂ (h.disconnectHandlers id)

theorem disconnectLogicalSession (c : ConnId) (logicalId : LogicalId) :
    Moves R (Server.disconnectLogicalSession setup c logicalId) :=
  moves_of_wp fun _ st => wp_disconnectLogicalSession (h.refl st)
    (fun id _ _ => (h.discardSession id).wp) fun id _ _ _ => (h.disconnectSession id).wp

theorem startCleanup (c : ConnId) : Moves R (Server.startCleanup c) := by
  apply moves_of_wp
  intro env st
  simp only [Server.startCleanup, setCleanup, wp_do, wp_ite]
  exact ⟨fun hclosed => h.cleaning fun _ _ => hclosed.1, fun _ => h.refl st⟩

theorem nextCleanup (c : ConnId) : Moves R (Server.nextCleanup setup c) := by
  apply moves_of_wp
  intro env st
  simp only [Server.nextCleanup, wp_do]
  split
  · rename_i logicalId rest hcleanup
    simp only [cleanupNext, setCleanup, wp_rescue, wp_do]
    have hadvanced : R st { st with
        connections := update st.connections c { st.connections c with
          cleanup := .running rest } } :=
      h.cleaning fun hstopped _ => hstopped c _ hcleanup
    refine wp_mono (h.after hadvanced (h.disconnectLogicalSession c logicalId)) (fun _ _ h₁ => h₁)
      fun _ _ h₁ => h.trans _ _ _ h₁ ?_
    exact h.cleaning fun _ hended => absurd rfl hended
  · exact h.refl st

theorem endCleanup (c : ConnId) : Moves R (Server.endCleanup c) := by
  apply moves_of_wp
  intro env st
  simp only [Server.endCleanup, wp_do]
  split
  · rename_i hcleanup
    exact h.emptied hcleanup
  · exact h.refl st

theorem closeLink (c : ConnId) : Moves R (Server.closeLink setup c) := by
  refine h.bind (h.markClosed c) fun _ => h.bind (h.startCleanup c) fun _ => ?_
  refine h.bind (fun _ st => h.refl st) fun st => ?_
  exact h.bind (h.forEach (fun _ => h.nextCleanup c) _) fun _ => h.endCleanup c

theorem closeLogical (c : ConnId) (logicalId : LogicalId) :
    Moves R (Server.closeLogical setup c logicalId) := by
  apply moves_of_wp
  intro env st
  simp only [Server.closeLogical, setConnection, wp_do, wp_ite]
  exact ⟨fun _ => h.after (h.left st c logicalId) (h.disconnectLogicalSession c logicalId),
    fun _ => h.refl st⟩

theorem bootstrap (request : BootstrapCall) :
    Moves R (Server.bootstrap setup request) := by
  refine moves_of_wp fun env st => wp_bootstrap (fun id code _ => ?_)
    (fun id t n reply st' hdeal => h.trans _ _ _ (h.persisted id t n) (h.deal hdeal))
    fun e id t n st' hdeal => h.trans _ _ _ (h.persisted id t n) (h.deal hdeal)
  apply wp_revoke
  · exact fun _ => (h.revokeSession id).wp
  · exact fun _ _ cause _ => ⟨h.refl st, fun c => (h.closeLink c).wp⟩

theorem run {action : Action} (hinternal : action.isInternal = true) :
    Moves R (action.run setup) := by
  cases action with
  | receive c logicalId messageId message fresh => exact absurd hinternal Bool.false_ne_true
  | serve n verified => exact absurd hinternal Bool.false_ne_true
  | startCleanup c => exact h.done (h.startCleanup c)
  | nextCleanup c => exact h.done (h.nextCleanup c)
  | endCleanup c => exact h.done (h.endCleanup c)
  | closeLogical c logicalId => exact h.done (h.closeLogical c logicalId)
  | expireSessions => exact h.done (h.bind h.ask fun env => h.expireSessions env.now)
  | revokeSession id => exact h.done (h.revokeSession id)
  | bootstrap request => exact h.bootstrap request
  | _ => exact h.toTolerates.run rfl

end Encloses

end CallBackend.Server
