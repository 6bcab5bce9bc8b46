import CallBackend.Server.Roster
import CallBackend.Server.Walk

/-!
# The logical index

The server keeps its roster of sessions in order: every entry of the logical index leads to a
registered session that knows its logical id and is bound to a link listing it, every logical id an
open link lists has such an entry, and a registered session without an entry is authenticated and has
no link.

Two operations can stop half-way. `_expire_sessions` takes all overdue sessions out of the session
manager before it drops their indexes, and a failing database write or request to close comes in
between. A `CLOSE` control takes the logical id off its link first, and the session's transport may not
take the request to close.
-/

namespace CallBackend.Server

open Exec Function

/-- The roster in a state of the server. -/
def ServerState.roster (st : ServerState) : Roster where
  provisional := Session.provisional ∘ st.objects
  link := Session.connection ∘ st.objects
  name := Session.qappConnectionId ∘ st.objects
  registry := st.registry
  index := st.logicalSessions
  closed := Connection.closed ∘ st.connections
  ids := Connection.logicalIds ∘ st.connections
  cleanup := Connection.cleanup ∘ st.connections

/-! ### The roster after an update -/

section Rosters

variable {st : ServerState}

theorem update_comp_self {ι β γ : Type} [DecidableEq ι] (f : β → γ) (g : ι → β) (i : ι) :
    update (f ∘ g) i (f (g i)) = f ∘ g :=
  update_eq_self i (f ∘ g)

variable {id : SessionId}

theorem roster_congr {st' : ServerState} (hobjects : st'.objects = st.objects)
    (hregistry : st'.registry = st.registry) (hindex : st'.logicalSessions = st.logicalSessions)
    (hconnections : st'.connections = st.connections) : st'.roster = st.roster := by
  simp only [ServerState.roster, hobjects, hregistry, hindex, hconnections]

theorem roster_set {session : Session} (hcore : session.core = (st.objects id).core) :
    ServerState.roster { st with objects := update st.objects id session } = st.roster := by
  have hprovisional := congrArg SessionCore.provisional hcore
  have hlink := congrArg SessionCore.connection hcore
  have hname := congrArg SessionCore.qappConnectionId hcore
  simp only [Session.core] at hprovisional hlink hname
  simp only [ServerState.roster, comp_update, hprovisional, hlink, hname, update_comp_self]

/-- The roster sees of a link only whether it is closed, the logical ids it lists and its clean-up. -/
theorem roster_ids (c : ConnId) (logicalIds closedLogicalIds : List LogicalId) (times : List Nanos) :
    ServerState.roster { st with
      connections := update st.connections c { st.connections c with
        logicalIds := logicalIds, closedLogicalIds := closedLogicalIds, newTimes := times } } =
      { st.roster with ids := update st.roster.ids c logicalIds } := by
  simp only [ServerState.roster, comp_update, update_comp_self]

theorem roster_times (c : ConnId) (times : List Nanos) :
    ServerState.roster { st with
      connections := update st.connections c { st.connections c with newTimes := times } } =
      st.roster := by
  simp only [ServerState.roster, comp_update, update_comp_self]

theorem roster_shut (c : ConnId) :
    ServerState.roster { st with
      connections := update st.connections c { st.connections c with closed := true } } =
      st.roster.shut c := by
  simp only [ServerState.roster, comp_update, update_comp_self, Roster.shut]

theorem roster_cleaning (c : ConnId) (cleanup : Cleanup) :
    ServerState.roster { st with
      connections := update st.connections c { st.connections c with cleanup } } =
      st.roster.cleaning c cleanup := by
  simp only [ServerState.roster, comp_update, update_comp_self, Roster.cleaning]

theorem roster_emptied (c : ConnId) :
    ServerState.roster { st with
      connections := update st.connections c { st.connections c with
        logicalIds := [], newTimes := [], cleanup := .ended } } = st.roster.emptied c := by
  simp only [ServerState.roster, comp_update, update_comp_self, Roster.emptied, Roster.cleaning]

@[simp] theorem roster_withoutCredentials (env : ServerEnv) (id : SessionId) :
    (st.withoutCredentials env id).roster = st.roster :=
  roster_set rfl

theorem withoutIndexes_logicalSessions (id : SessionId) (logicalId : LogicalId) :
    (st.withoutIndexes id).logicalSessions logicalId =
      if (st.objects id).qappConnectionId = some logicalId ∧ st.logicalSessions logicalId = some id then
        none
      else st.logicalSessions logicalId := by
  unfold ServerState.withoutIndexes
  cases hname : (st.objects id).qappConnectionId with
  | none => simp
  | some name =>
    by_cases heq : logicalId = name
    · subst heq
      by_cases hown : st.logicalSessions logicalId = some id
      · simp [hown]
      · simp [hown]
    · by_cases hown : st.logicalSessions name = some id
      · simp [hown, heq, Ne.symm heq]
      · simp [hown, Ne.symm heq]

theorem withoutIndexes_connections (id : SessionId) (c : ConnId) :
    (st.withoutIndexes id).connections c =
      if (st.objects id).connection = some c then
        { st.connections c with
          logicalIds :=
            match (st.objects id).qappConnectionId with
            | some logicalId => (st.connections c).logicalIds.erase logicalId
            | none => (st.connections c).logicalIds }
      else st.connections c := by
  unfold ServerState.withoutIndexes
  cases (st.objects id).qappConnectionId with
  | none => simp
  | some name =>
    cases (st.objects id).connection with
    | none => simp
    | some d =>
      by_cases heq : c = d
      · simp [heq]
      · simp [heq, Ne.symm heq]

theorem roster_unbound (id : SessionId) : (st.unbound id).roster = st.roster.unbound id := by
  have hobjects : (st.unbound id).objects =
      update st.objects id { st.objects id with connection := none } := rfl
  have hconnections : (st.unbound id).connections = (st.withoutIndexes id).connections := rfl
  have hindex : (st.unbound id).logicalSessions = (st.withoutIndexes id).logicalSessions := rfl
  have hregistry : (st.unbound id).registry = st.registry := withoutIndexes_registry id
  simp only [ServerState.roster, Roster.unbound, Roster.mk.injEq, hobjects, hconnections, hindex,
    hregistry, comp_update, update_comp_self, true_and]
  refine ⟨funext fun logicalId => withoutIndexes_logicalSessions id logicalId, ?_, ?_, ?_⟩
  all_goals
    funext c
    simp only [comp_apply, withoutIndexes_connections]
    by_cases hlink : (st.objects id).connection = some c
    · cases hname : (st.objects id).qappConnectionId <;> simp [hlink]
    · simp [hlink]

theorem roster_discarded (env : ServerEnv) (id : SessionId) :
    (st.discarded env id).roster = (st.roster.unbound id).unregistered id := by
  change ((st.withoutCredentials env id).unbound id).roster.unregistered id = _
  rw [roster_unbound, roster_withoutCredentials]

theorem roster_unnamed (id : SessionId) :
    ServerState.roster { st with
      objects := update st.objects id { st.objects id with qappConnectionId := none } } =
      st.roster.unnamed id := by
  simp only [ServerState.roster, comp_update, update_comp_self, Roster.unnamed]

theorem roster_withProof (id : SessionId) (user : String) (now ttl : Nanos) :
    (st.withProof id ((st.objects id).promoted user now ttl)).roster = st.roster.promoted id := by
  simp only [ServerState.roster, ServerState.withProof, Session.promoted, comp_update, update_comp_self,
    Roster.promoted]

variable {logicalId : LogicalId}

theorem roster_entered {c : ConnId} {session : Session}
    {known : List SessionId} {times : List Nanos}
    (hsession : session.core = { connection := some c, qappConnectionId := some logicalId }) :
    ServerState.roster { st with
      objects := update st.objects id session
      known := known
      registry := st.registry ++ [id]
      logicalSessions := update st.logicalSessions logicalId (some id)
      connections := update st.connections c { st.connections c with
        logicalIds := (st.connections c).logicalIds.insert logicalId
        newTimes := times } } = st.roster.entered id c logicalId := by
  simp only [Session.core, SessionCore.mk.injEq] at hsession
  obtain ⟨hprovisional, -, hlink, hname⟩ := hsession
  simp only [ServerState.roster, comp_update, update_comp_self, hprovisional, hlink, hname, Roster.entered,
    comp_apply]

theorem roster_bound (id : SessionId) (c : ConnId) (logicalId : LogicalId) (times : List Nanos) :
    ServerState.roster { st with
      objects := update st.objects id { st.objects id with connection := some c }
      connections := update st.connections c { st.connections c with
        logicalIds := (st.connections c).logicalIds.insert logicalId
        newTimes := times } } = st.roster.bound id c logicalId := by
  simp only [ServerState.roster, comp_update, update_comp_self, Roster.bound, comp_apply]

end Rosters

/-! ### What the functions of the server do to the roster -/

section Rules

variable {setup : Setup} {env : ServerEnv} {st : ServerState} {fail : Exn → ServerState → Prop}
  {id : SessionId} {post : Unit → ServerState → Prop}

/-- However it ends, the computation leaves the roster in order. -/
def KeepsOrder (env : ServerEnv) (st : ServerState) {α : Type} (m : ServerM α) : Prop :=
  wp m env st (fun _ st' => st'.roster.Ordered ∅) fun _ st' => st'.roster.Ordered ∅

/-- The roster is in order afterwards if it was before. -/
def OrderKept (st st' : ServerState) : Prop := st.roster.Ordered ∅ → st'.roster.Ordered ∅

theorem orderKept_of_eq {st' : ServerState} (h : st'.roster = st.roster) : OrderKept st st' := by
  intro hst
  rw [h]
  exact hst

theorem orderKept : Tolerates OrderKept where
  refl _ h := h
  trans _ _ _ h h' hst := h' (h hst)
  session hcore _ := orderKept_of_eq (roster_set hcore)
  rest hobjects _ hregistry hindex hconnections _ :=
    orderKept_of_eq (roster_congr hobjects hregistry hindex hconnections)
  promoted user now ttl _ h := by
    rw [roster_withProof]
    exact h.promoted
  shut st c h := by
    rw [roster_shut]
    exact h.shut

theorem keepsOrder_of_moves {α : Type} {m : ServerM α} (hm : Moves OrderKept m)
    (h : st.roster.Ordered ∅) : KeepsOrder env st m :=
  wp_mono hm.wp (fun _ _ hkept => hkept h) fun _ _ hkept => hkept h

/-! ### Sessions that leave -/

section Leaving

variable {leaving : Set SessionId}

theorem wp_discardSession_ordered (h : st.roster.Ordered leaving) (hsub : leaving ⊆ {id})
    (hpost : ∀ st', st'.roster.Ordered ∅ → post () st')
    (hstuck : st.revocable env id = false → fail .osError (st.withoutCredentials env id))
    (hfail : ∀ e st', st'.roster.Ordered ∅ → fail e st') :
    wp (discardSession id) env st post fail := by
  have hdiscarded : (st.discarded env id).roster.Ordered ∅ := by
    rw [roster_discarded]
    exact h.removed hsub
  exact wp_discardSession (fun _ n _ => hpost _ hdiscarded) hstuck fun _ n => hfail _ _ hdiscarded

theorem wp_disconnectSession_ordered (h : st.roster.Ordered leaving) (hsub : leaving ⊆ {id})
    (hproved : (st.objects id).provisional = false) (hpost : ∀ st', st'.roster.Ordered ∅ → post () st')
    (hstuck : st.revocable env id = false → fail .osError (st.withoutCredentials env id))
    (hfail : ∀ e st', st'.roster.Ordered ∅ → fail e st') :
    wp (disconnectSession setup id) env st post fail := by
  simp only [disconnectSession, getSession, setSession, wp_do]
  refine wp_invalidateSession (fun _ => wp_unbind ?_) hstuck
  have hreleased : ServerState.roster { (st.withoutCredentials env id).unbound id with
      objects := update ((st.withoutCredentials env id).unbound id).objects id
        { ((st.withoutCredentials env id).unbound id).objects id with qappConnectionId := none } } =
      (st.roster.unbound id).unnamed id := by
    rw [roster_unnamed, roster_unbound, roster_withoutCredentials]
  have hordered := h.released hsub hproved
  rw [← hreleased] at hordered
  refine wp_mono (keepsOrder_of_moves (orderKept.touch id env.now) hordered) (fun _ st₁ h₁ => ?_) hfail
  refine wp_mono (keepsOrder_of_moves (orderKept.persist id) h₁) (fun _ st₂ h₂ => ?_) hfail
  exact wp_disconnectHandlers (hpost _ (orderKept.called _ h₂))

/-- A link gives a logical id up, and the session it has for it may already be leaving. -/
theorem wp_disconnectLogicalSession_ordered {c : ConnId}
    (h : st.roster.Ordered (st.roster.holder c logicalId))
    (hpost : ∀ st', st'.roster.Ordered ∅ → post () st')
    (hstuck : ∀ id, st.logicalSessions logicalId = some id → (st.objects id).connection = some c →
      st.revocable env id = false → fail .osError (st.withoutCredentials env id))
    (hfail : ∀ e st', st'.roster.Ordered ∅ → fail e st') :
    wp (disconnectLogicalSession setup c logicalId) env st post fail := by
  simp only [disconnectLogicalSession, wp_do]
  cases hindex : st.logicalSessions logicalId with
  | none =>
    refine hpost st (h.mono fun id hid => ?_)
    rw [show st.logicalSessions logicalId = some id from hid.1] at hindex
    cases hindex
  | some id =>
    have hsub : st.roster.holder c logicalId ⊆ {id} :=
      fun other hother => Option.some.inj (hother.1.symm.trans hindex)
    simp only [wp_ite, wp_pure]
    refine ⟨fun hlink => hpost st (h.mono fun other hother => ?_), fun hlink => ?_⟩
    · exact absurd (hsub hother ▸ hother.2) hlink
    have hstuck := hstuck id hindex (Decidable.of_not_not hlink)
    refine ⟨fun _ => ?_, fun hproved => ?_⟩
    · exact wp_discardSession_ordered h hsub hpost hstuck hfail
    · exact wp_disconnectSession_ordered h hsub (by simpa using hproved) hpost hstuck hfail

end Leaving

/-! ### Sessions whose time is up -/

theorem wp_unregister_all {ids : List SessionId}
    (hpost : post () { st with registry := st.registry.diff ids }) :
    wp (forEach unregister ids) env st post fail := by
  induction ids generalizing st with
  | nil => exact hpost
  | cons id rest ih =>
    rw [List.diff_cons] at hpost
    simp only [forEach, unregister, wp_do]
    exact ih hpost

/-- Nothing hinders an expiry sweep: the credentials of overdue sessions can be invalidated, and the
database write succeeds that the sweep makes if one of them has proved an address. -/
def ServerState.Sweepable (st : ServerState) (env : ServerEnv) : Prop :=
  (∀ id ∈ st.overdue env.now, st.revocable env id = true) ∧
    ((st.overdue env.now).any (fun id => !(st.objects id).provisional) = true →
      env.dbSucceeds st.dbWrites = true)

instance (st : ServerState) (env : ServerEnv) : Decidable (st.Sweepable env) :=
  inferInstanceAs (Decidable (_ ∧ _))

theorem revocable_unbound {other : SessionId} (h : st.revocable env other = true) :
    ((st.withoutCredentials env id).unbound id).revocable env other = true := by
  obtain ⟨hfiles, hmarks, hclose⟩ := of_decide_eq_true h
  have hgrants : ((st.withoutCredentials env id).unbound id).mediaGrantFiles =
      update st.mediaGrantFiles id [] := by rw [unbound_rest]; rfl
  have hcall : ((st.withoutCredentials env id).unbound id).call = st.call := by rw [unbound_rest]; rfl
  unfold ServerState.revocable
  rw [hgrants, hcall]
  by_cases heq : other = id
  · subst heq
    refine decide_eq_true ⟨by simp, fun hneeded => hmarks (.inr ?_), ?_⟩
    · simpa using hneeded
    · simp [ServerState.unbound, ServerState.withoutCredentials]
  · refine decide_eq_true ⟨by simpa [heq] using hfiles, by simpa [heq] using hmarks, ?_⟩
    simpa [ServerState.unbound, ServerState.withoutCredentials, heq] using hclose

theorem wp_unbind_all {ids : List SessionId} (h : st.roster.Ordered {id | id ∈ ids})
    (hgone : ∀ id ∈ ids, id ∉ st.registry) (hrevocable : ∀ id ∈ ids, st.revocable env id = true)
    (hpost : ∀ st', st'.roster.Ordered ∅ → st.roster.Shrinks st'.roster → post () st') :
    wp (forEach (fun id => do invalidateSession id; unbind id) ids) env st post fail := by
  induction ids generalizing st with
  | nil => exact hpost st (h.mono fun id hid => nomatch hid) (.refl _)
  | cons id rest ih =>
    simp only [forEach, wp_bind]
    have hid := hrevocable id (.head _)
    refine wp_invalidateSession (fun _ => wp_unbind ?_)
      fun hstuck => absurd (hid.symm.trans hstuck) (by simp)
    have hroster : ((st.withoutCredentials env id).unbound id).roster = st.roster.unbound id := by
      rw [roster_unbound, roster_withoutCredentials]
    apply ih
    · rw [hroster]
      refine (h.mono ?_).dropped (hgone id (.head _))
      exact fun other hother => List.mem_cons.1 hother
    · intro other hother
      have hregistry : ((st.withoutCredentials env id).unbound id).registry = st.registry :=
        congrArg Roster.registry hroster
      rw [hregistry]
      exact hgone other (.tail id hother)
    · intro other hother
      exact revocable_unbound (hrevocable other (.tail id hother))
    · intro st' hordered hshrinks
      rw [hroster] at hshrinks
      exact hpost st' hordered ((Roster.shrinks_unbound st.roster id).trans hshrinks)

theorem wp_expireSessions_ordered (h : st.roster.Ordered ∅) (hsweep : st.Sweepable env)
    (hpost : ∀ st', st'.roster.Ordered ∅ → st.roster.Shrinks st'.roster → post () st') :
    wp (expireSessions env.now) env st post fail := by
  obtain ⟨ids, hids⟩ : ∃ ids, ids = st.overdue env.now := ⟨_, rfl⟩
  have hleft : ∀ n, wp (forEach (fun id => do invalidateSession id; unbind id) ids) env
      { st with registry := st.registry.diff ids, dbWrites := n } post fail := by
    intro n
    apply wp_unbind_all
    · exact (h.unregistered_all ids).mono (Set.union_subset (Set.empty_subset _) fun _ hmem => hmem)
    · intro id hid hmem
      exact ((h.once.mem_sdiff_iff).1 hmem).2 hid
    · exact hids ▸ hsweep.1
    · intro st' hordered hshrinks
      refine hpost st' hordered ((Roster.shrinks_registry st.roster ?_).trans hshrinks)
      exact fun id hid => (h.once.mem_sdiff_iff.1 hid).1
  simp only [expireSessions, expire, wp_do, wp_ite, writeDatabase, wp_ensure, ← hids]
  refine wp_unregister_all ⟨fun hwrites => ⟨fun _ => hleft _, fun hfailed => ?_⟩, fun _ => hleft _⟩
  exact absurd (hsweep.2 (hids ▸ hwrites)) hfailed

/-! ### Messages -/

variable (h : st.roster.Ordered ∅)

include h

section Messages

variable {c : ConnId} {logicalId : LogicalId} (hopen : (st.connections c).closed = false)

include hopen

theorem ordered_acceptNew {fresh : SessionId} (hfree : st.logicalSessions logicalId = none)
    (hnew : fresh ∉ st.registry) (habsent : st.roster.Absent fresh) (hsweep : st.Sweepable env) :
    KeepsOrder env st (acceptNew setup c logicalId fresh) := by
  simp only [KeepsOrder, acceptNew, create, setSession, wp_do, wp_ensure]
  refine wp_expireSessions_ordered h hsweep fun st₁ h₁ hshrinks => ⟨fun _ => ?_, fun _ => h₁⟩
  apply wp_admitLogicalId
  · intro times
    have hopen₁ : st₁.roster.closed c = false := by
      rw [hshrinks.closed]
      exact hopen
    have hentered := h₁.entered hopen₁ (hshrinks.free hfree) (fun hmem => hnew (hshrinks.registry _ hmem))
      (hshrinks.absent habsent)
    dsimp only
    rwa [roster_entered rfl]
  · intro e times
    rwa [roster_times]

/-- A session on another open link is left there, and the logical id is taken back. -/
theorem ids_withdrawn (hindex : st.logicalSessions logicalId = some id)
    (hheld : st.heldElsewhere c id = true) :
    ((st.connections c).logicalIds.insert logicalId).erase logicalId = (st.connections c).logicalIds := by
  have hnot : logicalId ∉ (st.connections c).logicalIds := by
    intro hmem
    obtain ⟨other, hentry, hlink⟩ := h.listed c logicalId hopen hmem
    obtain rfl : other = id := Option.some.inj (hentry.symm.trans hindex)
    have hlink' : (st.objects other).connection = some c := hlink
    simp [ServerState.heldElsewhere, hlink'] at hheld
  rw [List.insert_of_not_mem hnot, List.erase_cons_head]

theorem ordered_acceptExisting (hindex : st.logicalSessions logicalId = some id) :
    KeepsOrder env st (acceptExisting setup c logicalId id) := by
  simp only [KeepsOrder, acceptExisting, setConnection, setSession, wp_do, wp_ite]
  apply wp_admitLogicalId
  · intro times
    -- Whether another link holds the session does not depend on the admission.
    have hheld : ServerState.heldElsewhere { st with
        connections := update st.connections c { st.connections c with
          logicalIds := (st.connections c).logicalIds.insert logicalId
          newTimes := times } } c id = st.heldElsewhere c id := by
      cases hlink : (st.objects id).connection with
      | none => simp [ServerState.heldElsewhere, hlink]
      | some old =>
        by_cases heq : old = c
        · simp [ServerState.heldElsewhere, hlink, heq]
        · simp [ServerState.heldElsewhere, hlink, heq]
    rw [hheld]
    refine ⟨fun hheld => ?_, fun hfree => ?_⟩
    · simp only [update_idem, update_self, ids_withdrawn h hopen hindex hheld]
      rwa [roster_times]
    · have hclosed : ∀ old, (st.objects id).connection = some old → old ≠ c →
          (st.connections old).closed = true := by
        intro old hold hne
        simpa [ServerState.heldElsewhere, hold, hne] using hfree
      dsimp only
      rw [roster_bound]
      exact h.bound hopen hindex hclosed
  · intro e times
    rwa [roster_times]

/-- Nothing hinders the expiry sweep of a message for a vacant logical id, which begins when a session
found there has been discarded. -/
def ServerState.SweepableFor (st : ServerState) (env : ServerEnv) (logicalId : LogicalId) : Prop :=
  match st.logicalSessions logicalId with
  | none => st.Sweepable env
  | some id => wp (discardSession id) env st (fun _ st' => st'.Sweepable env) fun _ _ => True

instance (st : ServerState) (env : ServerEnv) (logicalId : LogicalId) :
    Decidable (st.SweepableFor env logicalId) := by
  unfold ServerState.SweepableFor
  split <;> infer_instance

theorem ordered_acceptMessage {fresh : SessionId} (hst : st.Wellformed) (hfresh : fresh ∉ st.known)
    (hsweep : st.vacant env.now logicalId = true → st.SweepableFor env logicalId) :
    KeepsOrder env st (acceptMessage setup c logicalId fresh) := by
  have hnew : fresh ∉ st.registry := (hst.unused fresh hfresh).2
  have habsent : st.roster.Absent fresh := fun _ hindex => hfresh (hst.known_of_indexed hindex)
  simp only [KeepsOrder, acceptMessage, wp_do]
  cases hindex : st.logicalSessions logicalId with
  | none =>
    have hsweep := hsweep (by simp [ServerState.vacant, hindex])
    simp only [ServerState.SweepableFor, hindex] at hsweep
    exact ordered_acceptNew h hopen hindex hnew habsent hsweep
  | some id =>
    rw [wp_ite]
    refine ⟨fun hexpired => ?_, fun _ => ordered_acceptExisting h hopen hindex⟩
    have hsweep := hsweep (by simpa [ServerState.vacant, hindex] using hexpired)
    simp only [ServerState.SweepableFor, hindex] at hsweep
    have hdiscarded : (st.discarded env id).roster = (st.roster.unbound id).unregistered id :=
      roster_discarded env id
    have hordered : (st.discarded env id).roster.Ordered ∅ :=
      hdiscarded ▸ h.removed (Set.empty_subset _)
    have hshrinks : st.roster.Shrinks (st.discarded env id).roster := by
      rw [hdiscarded]
      exact (Roster.shrinks_unbound st.roster id).trans
        (Roster.shrinks_registry _ fun _ hmem => List.mem_of_mem_erase hmem)
    have hgone : (st.discarded env id).logicalSessions logicalId = none :=
      (hst.withoutCredentials id).logicalSessions_unbound_self hindex
    have hdone : wp (discardSession id) env st
        (fun _ st' => ∃ n, st' = { st.discarded env id with dbWrites := n })
        fun _ st' => st'.roster.Ordered ∅ := by
      refine wp_discardSession (fun _ n _ => ⟨n, rfl⟩) (fun _ => ?_) fun _ n => hordered
      rw [roster_withoutCredentials]
      exact h
    rw [wp_bind]
    refine wp_mono (wp_and hdone hsweep) (fun _ st' h' => ?_) fun _ _ h' => h'.1
    obtain ⟨⟨n, rfl⟩, hsweep⟩ := h'
    apply ordered_acceptNew
    · exact hordered
    · exact (congrFun hshrinks.closed c).trans hopen
    · exact hgone
    · exact fun hmem => hnew (hshrinks.registry _ hmem)
    · exact hshrinks.absent habsent
    · exact hsweep

end Messages

/-! ### Steps -/

theorem ordered_receive {c : ConnId} {messageId : Nat} {message : Json} {fresh : SessionId}
    (hst : st.Wellformed) (hopen : (st.connections c).closed = false)
    (hfresh : fresh ∉ st.known)
    (hsweep : st.vacant env.now logicalId = true → st.SweepableFor env logicalId) :
    KeepsOrder env st (receive setup c logicalId messageId message fresh) := by
  unfold KeepsOrder
  simp only [receive, wp_do, wp_ite, wp_rescue, markClosed]
  refine ⟨fun _ => h, fun _ => wp_mono (ordered_acceptMessage h hopen hst hfresh hsweep)
    (fun _ _ h' => h') fun _ _ h' => ?_⟩
  rw [roster_shut]
  exact h'.shut

theorem ordered_startCleanup (c : ConnId) : KeepsOrder env st (startCleanup c) := by
  unfold KeepsOrder
  simp only [startCleanup, setCleanup, wp_do, wp_ite]
  refine ⟨fun hclosed => ?_, fun _ => h⟩
  rw [roster_cleaning]
  refine h.cleaning fun rest hrest => ?_
  exact ⟨(Cleanup.running.inj hrest).symm, hclosed.1⟩

theorem ordered_nextCleanup (c : ConnId) : KeepsOrder env st (nextCleanup setup c) := by
  unfold KeepsOrder
  simp only [nextCleanup, wp_do]
  split
  · rename_i logicalId rest hcleanup
    simp only [cleanupNext, setCleanup, wp_rescue, wp_do]
    have hended : ∀ st' : ServerState, st'.roster.Ordered ∅ → (st'.roster.cleaning c .ended).Ordered ∅ :=
      fun st' h' => h'.cleaning fun _ hrest => by cases hrest
    apply wp_disconnectLogicalSession_ordered
    · rw [roster_cleaning]
      exact h.advance hcleanup
    · exact fun st' h' => h'
    · intro id _ _ _
      rw [roster_cleaning, roster_withoutCredentials, roster_cleaning]
      simp only [Roster.cleaning, update_idem]
      exact hended st h
    · intro e st' h'
      rw [roster_cleaning]
      exact hended st' h'
  · exact h

theorem ordered_endCleanup (c : ConnId) : KeepsOrder env st (endCleanup c) := by
  unfold KeepsOrder
  simp only [endCleanup, wp_do]
  split
  · rename_i hcleanup
    simp only [cleanupEnd, wp_modify]
    rw [roster_emptied]
    exact h.emptied hcleanup
  · exact h

theorem ordered_closeLink (c : ConnId) : KeepsOrder env st (closeLink setup c) := by
  refine wp_closeLink ?_ (fun st' h' => ordered_startCleanup h' c)
    (fun st' h' => ordered_nextCleanup h' c) fun st' h' => ordered_endCleanup h' c
  rw [roster_shut]
  exact h.shut

theorem ordered_closeLogical (c : ConnId) (logicalId : LogicalId)
    (hrevocable : ∀ id, st.logicalSessions logicalId = some id → (st.objects id).connection = some c →
      st.revocable env id = true) : KeepsOrder env st (closeLogical setup c logicalId) := by
  unfold KeepsOrder
  simp only [closeLogical, setConnection, wp_do, wp_ite]
  refine ⟨fun _ => wp_disconnectLogicalSession_ordered ?_ (fun st' h' => h') (fun id hindex hlink hstuck => ?_)
    fun e st' h' => h', fun _ => h⟩
  · rw [roster_ids]
    exact h.leave
  · exact absurd ((hrevocable id hindex hlink).symm.trans hstuck) (by simp)

theorem ordered_revokeSession (id : SessionId) : KeepsOrder env st (revokeSession setup id) := by
  apply wp_revokeSession
  · exact fun _ => h
  · intro _
    have hcalled : (st.called setup env (.disconnected id)).roster.Ordered ∅ := h
    refine wp_discardSession_ordered hcalled (Set.empty_subset _) (fun st' h' => h') (fun _ => ?_)
      fun e st' h' => h'
    rw [roster_withoutCredentials]
    exact hcalled

theorem ordered_bootstrap (request : BootstrapCall) :
    KeepsOrder env st (bootstrap setup request) := by
  apply wp_bootstrap
  · intro id code _
    apply wp_revoke
    · exact fun _ => ordered_revokeSession h id
    · exact fun _ _ cause _ => ⟨h, ordered_closeLink h⟩
  · intro id t n reply st' hdeal
    exact orderKept.deal hdeal (orderKept.persisted id t n h)
  · intro e id t n st' hdeal
    exact orderKept.deal hdeal (orderKept.persisted id t n h)

end Rules

/-! ### Runs -/

/-- Messages come over open links only, and nothing hinders an expiry sweep or the closing of a single
logical id. -/
def Tended (st : ServerState) (event : Event) : Prop :=
  match event.action with
  | .receive c logicalId _ _ _ => (st.connections c).closed = false ∧
      (st.vacant event.env.now logicalId = true → st.SweepableFor event.env logicalId)
  | .closeLogical c logicalId => ((st.logicalSessions logicalId).all fun id =>
      decide ((st.objects id).connection = some c → st.revocable event.env id)) = true
  | .expireSessions => st.Sweepable event.env
  | _ => True

instance (st : ServerState) (event : Event) : Decidable (Tended st event) := by
  unfold Tended
  split <;> infer_instance

section Runs

variable {setup : Setup} {st : ServerState} {env : ServerEnv}

theorem KeepsOrder.done {m : ServerM Unit} (h : KeepsOrder env st m) :
    KeepsOrder env st (do m; return Reply.done) := by
  unfold KeepsOrder
  rw [wp_bind]
  exact h

variable (setup) in
theorem keepsOrder_run {event : Event} (hst : st.Wellformed) (henabled : event.action.Enabled st)
    (hok : Tended st event) (h : st.roster.Ordered ∅) :
    KeepsOrder event.env st (event.action.run setup) := by
  obtain ⟨action, env⟩ := event
  cases action with
  | receive c logicalId messageId message fresh =>
    have hfresh : fresh ∉ st.known := by simpa [Action.newSession] using henabled.2
    exact (ordered_receive h hst hok.1 hfresh hok.2).done
  | serve n verified =>
    refine keepsOrder_of_moves (orderKept.done (orderKept.serveNext ?_ ?_ n verified)) h
    · exact fun _ _ h' => h'
    · exact fun _ _ _ => orderKept_of_eq (roster_set rfl)
  | startCleanup c => exact (ordered_startCleanup h c).done
  | nextCleanup c => exact (ordered_nextCleanup h c).done
  | endCleanup c => exact (ordered_endCleanup h c).done
  | closeLogical c logicalId =>
    refine (ordered_closeLogical h c logicalId fun id hindex => ?_).done
    have hall : ((st.logicalSessions logicalId).all fun id =>
      decide ((st.objects id).connection = some c → st.revocable env id)) = true := hok
    rw [hindex] at hall
    exact of_decide_eq_true hall
  | expireSessions =>
    have hsweep : st.Sweepable env := hok
    exact KeepsOrder.done (wp_expireSessions_ordered h hsweep fun _ h' _ => h')
  | revokeSession id => exact (ordered_revokeSession h id).done
  | bootstrap request => exact ordered_bootstrap h request
  | _ => exact keepsOrder_of_moves (orderKept.run rfl) h

theorem started_ordered (h : st.Started) : st.roster.Ordered ∅ := by
  have hindex : st.logicalSessions = fun _ => none := by rw [h.rest]
  have hconnections : st.connections = fun _ => {} := by rw [h.rest]
  have hlink : ∀ id, (st.objects id).connection = none := by
    intro id
    by_cases hknown : id ∈ st.known
    · exact (h.loaded id hknown).2.1
    · rw [h.others id hknown]
  constructor
  · intro logicalId id hentry
    rw [show st.roster.index = st.logicalSessions from rfl, hindex] at hentry
    cases hentry
  · intro c logicalId _ hmem
    rw [show st.roster.ids c = (st.connections c).logicalIds from rfl, hconnections] at hmem
    cases hmem
  · intro id _
    refine ⟨hlink id, fun hregistered _ => (h.loaded id ?_).1⟩
    rw [← h.registered]
    exact hregistered
  · intro c rest hrunning
    rw [show st.roster.cleanup c = (st.connections c).cleanup from rfl, hconnections] at hrunning
    cases hrunning
  · intro c
    rw [show st.roster.ids c = (st.connections c).logicalIds from rfl, hconnections]
    exact List.nodup_nil
  · change st.registry.Nodup
    rw [h.registered]
    exact h.nodup

theorem reachable_ordered (h : (server setup).Reachable Tended st) :
    st.Wellformed ∧ st.roster.Ordered ∅ := by
  refine h.invariant (I := fun st => st.Wellformed ∧ st.roster.Ordered ∅) (fun st hst => ?_)
    fun st event st' hst hok hstep => ?_
  · exact ⟨started_wellformed hst, started_ordered hst⟩
  · rw [hstep.2]
    refine ⟨wellformed_next hst.1 hstep.1, ?_⟩
    have hkeeps := keepsOrder_run setup hst.1 hstep.1 hok hst.2
    unfold KeepsOrder at hkeeps
    exact wp_final (p := fun st' : ServerState => st'.roster.Ordered ∅) hkeeps

/-- In every run in which messages come over open links only and nothing hinders an expiry sweep or the
closing of a single logical id, the logical index, the session manager, the sessions' metadata and the
links agree. -/
theorem index_invariant (h : (server setup).Reachable Tended st) :
    (∀ logicalId id, st.logicalSessions logicalId = some id →
      id ∈ st.registry ∧ (st.objects id).qappConnectionId = some logicalId ∧
        ∃ c, (st.objects id).connection = some c ∧ logicalId ∈ (st.connections c).logicalIds) ∧
    (∀ logicalId other id, st.logicalSessions logicalId = some id →
      st.logicalSessions other = some id → logicalId = other) ∧
    (∀ c logicalId, (st.connections c).closed = false → logicalId ∈ (st.connections c).logicalIds →
      ∃ id, st.logicalSessions logicalId = some id ∧ (st.objects id).connection = some c) ∧
    ∀ id ∈ st.registry, (∀ logicalId, st.logicalSessions logicalId ≠ some id) →
      (st.objects id).provisional = false ∧ (st.objects id).connection = none := by
  obtain ⟨-, hordered⟩ := reachable_ordered h
  refine ⟨fun logicalId id hindex => ?_, fun logicalId other id hindex hother => ?_, ?_,
    fun id hregistered habsent => ?_⟩
  · obtain ⟨hname, c, hlink, hplaces⟩ := hordered.entry logicalId id hindex
    obtain ⟨hregistered, hmem, -⟩ := hplaces (Set.notMem_empty id)
    exact ⟨hregistered, hname, c, hlink, hmem⟩
  · exact (hordered.name_unique hindex hother).symm
  · exact hordered.listed
  · obtain ⟨hlink, hproved⟩ := hordered.parked id habsent
    exact ⟨hproved hregistered (Set.notMem_empty id), hlink⟩

end Runs

namespace Sample

/-- A login whose session times out before a message opens another session, on another link. -/
def lapse (env : ServerEnv) : List Event :=
  login 0 1 "tab" "alice" "alice-1" ++ [⟨.receive 2 "other" 1 authenticate "bob-1", env⟩]

def later : ServerEnv := clock 1000000000

end Sample

open Sample in
theorem index_invariant_lapse : ∃ st : ServerState, st.registry = ["bob-1"] ∧
    st.logicalSessions "other" = some "bob-1" ∧
    (∃ c, (st.objects "bob-1").connection = some c ∧ "other" ∈ (st.connections c).logicalIds) := by
  have hreach : (server setup).Reachable Tended
      (start.after setup (lapse later)) :=
    reachable_after started_start (by decide +kernel)
  have hindex : (start.after setup (lapse later)).logicalSessions "other" =
      some "bob-1" := by decide +kernel
  have hentry := (index_invariant hreach).1 "other" "bob-1" hindex
  exact ⟨_, by decide +kernel, hindex, hentry.2.2⟩

open Sample in
/-- The database write of an expiry sweep fails: the session is gone, and its entry stays. -/
theorem stale_entry_after_failed_sweep : ∃ st : ServerState,
    (server setup).Reachable System.anyStep st ∧
    st.logicalSessions "tab" = some "alice-1" ∧ "alice-1" ∉ st.registry := by
  refine ⟨start.after setup (lapse
    { later with dbSucceeds := fun n => n < 2 }), ?_, ?_⟩
  · exact reachable_after started_start (by decide +kernel)
  · decide +kernel

end CallBackend.Server
