import CallBackend.Call.Presence
import CallBackend.Server.Run

/-!
# What a revocation achieves

`revoke` sends a notice, runs the disconnect handlers and discards the session. It takes effect
when nothing stops it on the way: the notice goes out, or fails with a `RuntimeError`, the one class
the code catches; the credentials of the session can be invalidated, with their files and the attached
transport; and the disconnect handler finds every membership of the session. For a session that has
proved an address the converse holds too. A provisional one can also be discarded by the clean-up of
the link that its notice breaks.
-/

namespace CallBackend.Call

open Exec

/-- The membership is one that `disconnected` ends: it is in the room the session is indexed under,
and under the address of the session, unless that address leads the room. -/
def Registry.Severs (c : Registry) (user : Option String) (session : SessionId) (roomId : RoomId)
    (p : ParticipantId) : Prop :=
  c.sessionRooms.get? session = some roomId ∧ ((∃ q, c.Leads roomId q ∧ user = some q) ∨ user = some p)

/-- What a departure does to the rooms, whatever writes fail: the room the session's address leads is
gone, or the membership under that address, or nothing is found. -/
inductive DepartedRooms (user : Option String) (session : SessionId) (room : Room) (c c' : Registry) :
    Prop
  | ended : user = some room.initiatorId → c'.rooms = c.rooms.erase room.roomId →
      DepartedRooms user session room c c'
  | removed (p : ParticipantId) (screen : Screen) : user ≠ some room.initiatorId → user = some p →
      c'.rooms = c.rooms.set (room.depart p screen).roomId (room.depart p screen) →
      DepartedRooms user session room c c'
  | unmatched : user ≠ some room.initiatorId →
      (∀ p m, user = some p → room.members.get? p = some m → m.session ≠ session) →
      c'.rooms = c.rooms → DepartedRooms user session room c c'

section Disconnecting

variable {setup : Setup} {env : CallEnv} {st : CallState} {session : SessionId}

theorem wp_departLocked_rooms (room : Room) (reason : EndReason) :
    wp (departLocked setup session (env.sessions session).authenticatedUser room reason) env st
      (fun _ st' => DepartedRooms (env.sessions session).authenticatedUser session room st.toRegistry
        st'.toRegistry)
      fun _ st' => DepartedRooms (env.sessions session).authenticatedUser session room st.toRegistry
        st'.toRegistry := by
  unfold departLocked
  rw [wp_ite]
  refine ⟨fun huser => ?_, fun huser => ?_⟩
  · have hended : ∀ sessions (st' : CallState), st'.toRegistry = Registry.forgetAll { st.toRegistry with
        rooms := st.rooms.erase room.roomId
        policies := withdrawn setup st.policies room.roomId } sessions →
        st'.toRegistry.rooms = st.rooms.erase room.roomId := by
      intro sessions st' h
      rw [h]
      exact Registry.forgetAll_rooms ..
    simp only [wp_do]
    refine wp_endRoomLocked (fun st₁ h₁ => ?_) fun sessions st' _ _ h' => ?_
    · refine wp_clearSessionMetadata (fun st₂ h₂ => ?_) fun st₂ _ h₂ => ?_
      · exact .ended huser (by rw [h₂]; exact hended _ _ h₁)
      · exact .ended huser (by rw [h₂]; exact hended _ _ h₁)
    · exact .ended huser (hended _ _ h')
  · simp only [wp_do]
    refine wp_removeMemberLocked (fun hun => ?_) (fun p member screen st₁ hp _ _ h₁ => ?_)
      fun p member screen st₁ _ hp _ _ h₁ => ?_
    · refine wp_clearSessionMetadata (fun st₂ h₂ => ?_) fun st₂ _ h₂ => ?_
      · exact .unmatched huser hun (by rw [h₂])
      · exact .unmatched huser hun (by rw [h₂])
    · refine wp_clearSessionMetadata (fun st₂ h₂ => ?_) fun st₂ _ h₂ => ?_
      · exact .removed p screen huser hp (by rw [h₂, h₁]; rfl)
      · exact .removed p screen huser hp (by rw [h₂, h₁]; rfl)
    · exact .removed p screen huser hp (by rw [h₁]; rfl)

/-- A departure ends the memberships of the session that its index and its address lead to. -/
theorem DepartedRooms.holds {user : Option String} {room : Room} {c c' : Registry}
    (h : DepartedRooms user session room c c') (hroom : c.rooms.get? room.roomId = some room)
    (hindex : c.sessionRooms.get? session = some room.roomId) (r : RoomId) (p : ParticipantId)
    (m : Member) (hsession : m.session = session) :
    c'.Holds r p m ↔ c.Holds r p m ∧ ¬c.Severs user session r p := by
  have hsevers : c.Severs user session r p ↔
      room.roomId = r ∧ (user = some room.initiatorId ∨ user = some p) := by
    unfold Registry.Severs
    rw [hindex, Option.some.injEq]
    constructor
    · rintro ⟨rfl, ⟨q, hleads, huser⟩ | huser⟩
      · rw [Registry.leads_of_room hroom] at hleads
        exact ⟨rfl, .inl (hleads ▸ huser)⟩
      · exact ⟨rfl, .inr huser⟩
    · rintro ⟨rfl, huser | huser⟩
      · exact ⟨rfl, .inl ⟨_, (Registry.leads_of_room hroom _).2 rfl, huser⟩⟩
      · exact ⟨rfl, .inr huser⟩
  rw [hsevers]
  cases h with
  | ended huser hrooms =>
    rw [Registry.holds_erase hrooms]
    simp [huser, and_comm]
  | removed q screen huser hq hrooms =>
    rw [Registry.holds_set hrooms]
    change (if room.roomId = r then (room.members.erase q).get? p = some m else c.Holds r p m) ↔ _
    by_cases hr : room.roomId = r
    · subst hr
      rw [if_pos rfl, Dict.get?_erase, Registry.holds_of_room hroom]
      by_cases hp : q = p
      · simp [hp, hq]
      · simp [hp, hq, hq ▸ huser]
    · simp [hr]
  | unmatched huser hun hrooms =>
    have hholds : c'.Holds r p m ↔ c.Holds r p m := by
      unfold Registry.Holds
      rw [hrooms]
    rw [hholds]
    constructor
    · intro hm
      refine ⟨hm, ?_⟩
      rintro ⟨rfl, hlead | hp⟩
      · exact huser hlead
      · exact hun p m hp ((Registry.holds_of_room hroom p m).1 hm) hsession
    · exact fun hm => hm.1

/-- After a disconnection, the memberships of the session are those that its index and its address
do not lead to. -/
theorem holds_disconnected (hkeyed : st.toRegistry.Keyed) {r : RoomId} {p : ParticipantId} {m : Member}
    (hsession : m.session = session) :
    (disconnected setup session env st).2.toRegistry.Holds r p m ↔ st.toRegistry.Holds r p m ∧
      ¬st.toRegistry.Severs (env.sessions session).authenticatedUser session r p := by
  refine wp_final (p := fun st' : CallState => st'.toRegistry.Holds r p m ↔
    st.toRegistry.Holds r p m ∧
      ¬st.toRegistry.Severs (env.sessions session).authenticatedUser session r p) ?_
  unfold disconnected
  simp only [wp_do]
  cases hfound : (st.sessionRooms.get? session).bind st.rooms.get? with
  | none =>
    rw [wp_pure]
    refine ⟨fun hm => ⟨hm, fun hsevers => ?_⟩, fun hm => hm.1⟩
    obtain ⟨room, hroom, -⟩ := hm
    rw [show st.sessionRooms.get? session = some r from hsevers.1, Option.bind_some] at hfound
    rw [show st.rooms.get? r = none from hfound] at hroom
    cases hroom
  | some room =>
    obtain ⟨roomId, hindex, hroom⟩ := Option.bind_eq_some_iff.1 hfound
    obtain rfl : room.roomId = roomId := hkeyed _ _ hroom
    simp only [wp_do]
    refine wp_mono (wp_departLocked_rooms room _) (fun _ st' h => ?_) fun _ st' h => ?_
    · exact h.holds hroom hindex r p m hsession
    · exact h.holds hroom hindex r p m hsession

end Disconnecting

end CallBackend.Call

namespace CallBackend.Server

open Exec

/-- Nothing of the session is left: it is not registered, it has no grant, no grant file of it is
left, no transport, and it is in no room. -/
structure Revoked (before st : ServerState) (id : SessionId) : Prop where
  unregistered : id ∉ st.registry
  noGrant : ∀ token grant, st.tokens.grants.get? token = some grant → grant.logicalSessionId ≠ id
  noFile : ∀ token ∈ before.mediaGrantFiles id, st.grantFiles token = none
  noTransport : (st.objects id).privateTransport = none
  noRoom : st.call.toRegistry.Free id

/-- Nothing stops the revocation: the notice is sent or cannot be, the credentials can be invalidated
when the disconnect handler has run, and that handler finds every membership of the session. -/
structure Unhindered (setup : Setup) (env : ServerEnv) (st : ServerState) (id : SessionId)
    (fault : Option SendFault) : Prop where
  notified : st.linked id = true → st.named id = true → fault = none
  revocable : (st.called setup env (.disconnected id)).revocable env id = true
  severed : ∀ roomId p member, st.call.toRegistry.Holds roomId p member → member.session = id →
    st.call.toRegistry.Severs (st.objects id).authenticatedUser id roomId p

section Revoking

variable {setup : Setup} {env : ServerEnv} {st : ServerState} {id : SessionId}

/-- The disconnect handler frees the session exactly when it finds all its memberships. -/
theorem free_called_iff (hkeyed : st.call.toRegistry.Keyed) :
    (st.called setup env (.disconnected id)).call.toRegistry.Free id ↔
      ∀ roomId p member, st.call.toRegistry.Holds roomId p member → member.session = id →
        st.call.toRegistry.Severs (st.objects id).authenticatedUser id roomId p := by
  have hholds : ∀ roomId p (member : Call.Member), member.session = id →
      ((st.called setup env (.disconnected id)).call.toRegistry.Holds roomId p member ↔
        st.call.toRegistry.Holds roomId p member ∧
          ¬st.call.toRegistry.Severs (st.objects id).authenticatedUser id roomId p) :=
    fun roomId p member hsession => Call.holds_disconnected hkeyed hsession
  constructor
  · intro hfree roomId p member hm hsession
    by_contra hsevers
    exact hfree roomId p member ((hholds roomId p member hsession).2 ⟨hm, hsevers⟩) hsession
  · intro hsevered roomId p member hm hsession
    obtain ⟨hm, hsevers⟩ := (hholds roomId p member hsession).1 hm
    exact hsevers (hsevered roomId p member hm hsession)

/-- Discarding a session leaves, beside registry, index and links, what invalidating its credentials
leaves. -/
theorem discarded_rest (env : ServerEnv) (id : SessionId) :
    st.discarded env id = { st.withoutCredentials env id with
      objects := (st.discarded env id).objects
      registry := (st.discarded env id).registry
      logicalSessions := (st.discarded env id).logicalSessions
      connections := (st.discarded env id).connections } := by
  unfold ServerState.discarded
  rw [unbound_rest]

theorem revoked_discarded_iff {st₁ : ServerState} {n : Nat} (hnodup : st₁.registry.Nodup)
    (hfiles : st₁.mediaGrantFiles = st.mediaGrantFiles) (hrevocable : st₁.revocable env id = true) :
    Revoked st { st₁.discarded env id with dbWrites := n } id ↔ st₁.call.toRegistry.Free id := by
  have hcall : (st₁.discarded env id).call = st₁.call := by
    rw [discarded_rest]
    rfl
  have htokens : (st₁.discarded env id).tokens = st₁.tokens.invalidate id := by
    rw [discarded_rest]
    rfl
  have hgrants : ∀ token ∈ st.mediaGrantFiles id, (st₁.discarded env id).grantFiles token = none := by
    intro token htoken
    have hunlinks := List.all_eq_true.1 (of_decide_eq_true hrevocable).1 token (hfiles ▸ htoken)
    rw [discarded_rest]
    simp [ServerState.withoutCredentials, hfiles, htoken, hunlinks]
  constructor
  · intro h
    have hfree : (st₁.discarded env id).call.toRegistry.Free id := h.noRoom
    rwa [hcall] at hfree
  · intro hfree
    constructor
    · simp [ServerState.discarded, ServerState.unbound, ServerState.withoutCredentials,
        hnodup.mem_erase_iff]
    · intro token grant hgrant hid
      simp only [htokens, TokenAuthority.invalidate, Dict.get?_filter, Option.filter_eq_some_iff] at hgrant
      simp [hid] at hgrant
    · exact hgrants
    · simp [ServerState.discarded, ServerState.unbound, ServerState.withoutCredentials]
    · rw [show ServerState.call { st₁.discarded env id with dbWrites := n } = st₁.call from hcall]
      exact hfree

/-- A session that has proved an address stays registered when its link is cleaned up. -/
theorem closeLink_registered (hst : st.Wellformed) (hregistered : id ∈ st.registry)
    (hproved : (st.objects id).provisional = false) (c : ConnId) :
    wp (closeLink setup c) env st (fun _ st' => id ∈ st'.registry) fun _ st' => id ∈ st'.registry := by
  have hkept : ∀ st', (∃ trace, Clearance st.views trace ∧ Run setup env False trace st st') →
      id ∈ st'.registry := by
    rintro st' ⟨trace, htrace, hrun⟩
    have hviews : (st'.views id).registered = (st.views id).registered := by
      rw [show st'.views = st'.world.views from rfl, hrun.world hst]
      exact (Clearance.after htrace id).2 hproved
    exact of_decide_eq_true (hviews.trans (decide_eq_true hregistered))
  exact wp_mono (run_closeLink hst c) (fun _ => hkept) fun _ => hkept

/-- In every state the server can reach, and however sending the notice, closing the transport and
writing to disk go: a revocation of a registered session takes effect if nothing hinders it, and if
the session has proved an address, only then. -/
theorem revocation_takes_effect_iff {fault : Option SendFault}
    (hreach : (server setup).Reachable System.anyStep st) (hregistered : id ∈ st.registry) :
    (Unhindered setup env st id fault → Revoked st (revoke setup id fault env st).2 id) ∧
      ((st.objects id).provisional = false → Revoked st (revoke setup id fault env st).2 id →
        Unhindered setup env st id fault) := by
  have hst := reachable_wellformed hreach
  have hkeyed := (Call.reachable_covered (reachable_world hreach)).keyed
  -- A session that stays registered is not revoked.
  have hstays : ∀ st' : ServerState, ((st.objects id).provisional = false → id ∈ st'.registry) →
      ¬Unhindered setup env st id fault → (Unhindered setup env st id fault → Revoked st st' id) ∧
        ((st.objects id).provisional = false → Revoked st st' id → Unhindered setup env st id fault) :=
    fun st' hregistry hhindered => ⟨fun h => absurd h hhindered,
      fun hproved h => absurd (hregistry hproved) h.unregistered⟩
  refine wp_final (p := fun st' => (Unhindered setup env st id fault → Revoked st st' id) ∧
    ((st.objects id).provisional = false → Revoked st st' id → Unhindered setup env st id fault)) ?_
  apply wp_revoke
  · intro hnotified
    apply wp_revokeSession
    · intro habsent
      exact absurd hregistered habsent
    · intro _
      have hfreed : (st.called setup env (.disconnected id)).revocable env id = true → ∀ n,
          (Revoked st { ServerState.discarded (st.called setup env (.disconnected id)) env id with
            dbWrites := n } id ↔ Unhindered setup env st id fault) := by
        intro hrevocable n
        have hnodup : (st.called setup env (.disconnected id)).registry.Nodup := hst.nodup
        have hfiles : (st.called setup env (.disconnected id)).mediaGrantFiles = st.mediaGrantFiles := rfl
        refine (revoked_discarded_iff hnodup hfiles hrevocable).trans ((free_called_iff hkeyed).trans ?_)
        exact ⟨fun h => ⟨hnotified, hrevocable, h⟩, fun h => h.severed⟩
      apply wp_discardSession
      · exact fun hrevocable n _ => ⟨(hfreed hrevocable n).2, fun _ => (hfreed hrevocable n).1⟩
      · intro hstuck
        refine hstays _ (fun _ => hregistered) fun h => ?_
        exact absurd (hstuck.symm.trans h.revocable) Bool.false_ne_true
      · exact fun hrevocable n => ⟨(hfreed hrevocable n).2, fun _ => (hfreed hrevocable n).1⟩
  · intro hlinked hnamed cause hfault
    have hhindered : ¬Unhindered setup env st id fault := by
      intro h
      have hnone := h.notified hlinked hnamed
      rw [hfault] at hnone
      cases hnone
    refine ⟨hstays st (fun _ => hregistered) hhindered, fun c => ?_⟩
    by_cases hproved : (st.objects id).provisional = false
    · exact wp_mono (closeLink_registered hst hregistered hproved c) (fun _ st' h => hstays st' (fun _ => h) hhindered)
        fun _ st' h => hstays st' (fun _ => h) hhindered
    · exact wp_mono (wp_true _) (fun _ st' _ => hstays st' (fun h => absurd h hproved) hhindered)
        fun _ st' _ => hstays st' (fun h => absurd h hproved) hhindered

end Revoking

open Sample in
/-- A session that has logged in is revoked, unless the link refuses its notice. -/
theorem revocation_takes_effect_alice :
    let st := start.after setup (login 0 1 "tab" "alice" "alice-1")
    "alice-1" ∈ st.registry ∧
      Revoked st (revoke setup "alice-1" none (clock 1) st).2 "alice-1" ∧
      ¬Revoked st (revoke setup "alice-1" (some .queueFull) (clock 1) st).2 "alice-1" := by
  intro st
  have hregistered : "alice-1" ∈ st.registry := by decide +kernel
  have hreach : (server setup).Reachable System.anyStep st :=
    reachable_after started_start (by decide +kernel)
  have hempty : st.call.rooms.entries = [] := by decide +kernel
  refine ⟨hregistered, (revocation_takes_effect_iff hreach hregistered).1 ?_, fun h => ?_⟩
  · refine ⟨fun _ _ => rfl, by decide +kernel, fun roomId p member hm => ?_⟩
    obtain ⟨room, hroom, -⟩ := hm
    rw [← Dict.mem_entries_iff, hempty] at hroom
    cases hroom
  · have hfault := ((revocation_takes_effect_iff hreach hregistered).2 (by decide +kernel) h).notified
      (by decide +kernel) (by decide +kernel)
    cases hfault

open Sample in
/-- A peer that withholds its acknowledgements keeps its session: the notice raises
`BackpressureError`, and the session stays registered. -/
theorem revocation_stopped_by_backpressure :
    let st := start.after setup (login 0 1 "tab" "alice" "alice-1")
    (server setup).Reachable System.anyStep st ∧ "alice-1" ∈ st.registry ∧
      "alice-1" ∈ (revoke setup "alice-1" (some .backpressure) (clock 1) st).2.registry := by
  intro st
  exact ⟨reachable_after started_start (by decide +kernel), by decide +kernel, by decide +kernel⟩

end CallBackend.Server
