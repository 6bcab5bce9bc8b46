import CallBackend.Call.Presence
import CallBackend.Server.Run

/-!
# No member without a session

A session leaves the session manager when its link closes before it has proved an address, by
revocation, and by expiry. The first cannot be in a call, and revocation runs the disconnect
handlers of the call service first. Expiry does not: a session that expires while it is in a room
stays behind as a member nobody can remove.

So members have sessions as long as expiry finds none of them, departures are clean, and nobody
enters a room through a session that has already left.
-/

namespace CallBackend.Server

open Exec

/-- The rooms and their members are in order: the registry is linked, and every member's session is
registered. -/
structure Present (setup : Call.Setup) (w : Call.World) : Prop where
  linked : w.Linked setup
  attended : w.Attended

section Worlds

variable {setup : Call.Setup} {w : Call.World} {env : ServerEnv}

theorem Present.next {event : Call.Event} (h : Present setup w) (hclean : Call.Cleanly setup w event)
    (hattends : Call.Attends w event.action)
    (hrestart : ∀ views metadata, event.action ≠ .restart views metadata) :
    Present setup (w.next setup event) :=
  ⟨Call.linked_next h.linked hclean,
    Call.attended_next h.attended h.linked.covered.keyed hrestart hattends⟩

theorem Present.changed {id : SessionId} {change : Call.SessionChange} (h : Present setup w)
    (hfree : change = .removed → w.call.toRegistry.Free id) :
    Present setup (w.next setup (env.event (.changed id change))) := by
  apply h.next (Call.cleanly_changed rfl)
  · constructor
    · intro session haction
      cases haction
      exact hfree rfl
    · intro session content haction
      cases haction
  · intro views metadata haction
    cases haction

theorem Present.removals {ids : List SessionId} (h : Present setup w)
    (hfree : ∀ id ∈ ids, w.call.toRegistry.Free id) :
    Present setup (w.after setup ((Server.removals ids).map env.event)) := by
  induction ids generalizing w with
  | nil => exact h
  | cons id rest ih =>
    have hnext : Present setup (w.next setup (env.event (.changed id .removed))) :=
      h.changed fun _ => hfree id (.head _)
    exact ih hnext fun other hother => hfree other (.tail id hother)

theorem Present.handled {action : Call.Action} (h : Present setup w) (haction : IsHandler action)
    (hclean : Call.Cleanly setup w (env.event action))
    (henters : ∀ session content, action = .message session content → Call.enters content = true →
      (w.views session).registered = true) :
    Present setup (w.next setup (env.event action)) := by
  apply h.next hclean
  · constructor
    · intro session hremoved
      rw [show action = _ from hremoved] at haction
      exact haction.elim
    · exact henters
  · intro views metadata hrestart
    rw [show action = _ from hrestart] at haction
    exact haction.elim

/-- A provisional session is no member of a room. -/
theorem Present.provisional {id : SessionId} (h : Present setup w)
    (hprovisional : (w.views id).provisional = true) : w.call.toRegistry.Free id := by
  intro roomId p member hm hsession
  have hproved := (h.attended roomId p member hm).2
  rw [hsession, hprovisional] at hproved
  cases hproved

theorem Present.disconnected {id : SessionId} (h : Present setup w)
    (hclean : Call.Cleanly setup w (env.event (.disconnected id))) :
    Present setup (w.next setup (env.event (.disconnected id))) ∧
      (w.next setup (env.event (.disconnected id))).call.toRegistry.Free id := by
  refine ⟨h.handled trivial hclean fun _ _ haction => (nomatch haction), ?_⟩
  exact (Call.departed_next h.linked hclean (.inl rfl)).1.1

end Worlds

/-! ### Steps of the server -/

def Action.checksExpiry (action : Action) (st : ServerState) (now : Nanos) : Bool :=
  match action with
  | .receive _ logicalId _ _ _ => st.vacant now logicalId
  | .expireSessions => true
  | _ => false

/-- The departures of the step are clean, a check for expired sessions finds no member's session,
and rooms are entered through registered sessions. -/
structure Attentive (setup : Setup) (st : ServerState) (event : Event) : Prop where
  clean : ∀ before action after, event.action.Possible st event.env.now (before ++ action :: after) →
    Call.Cleanly setup.call (st.world.after setup.call (before.map event.env.event))
      (event.env.event action)
  current : event.action.checksExpiry st event.env.now = true → ∀ roomId p member,
    st.call.toRegistry.Holds roomId p member → event.env.now < (st.objects member.session).expiresAt
  entering : ∀ n verified invocation, event.action = .serve n verified →
    st.inflight[n]? = some invocation → Call.enters invocation.message = true →
    invocation.session ∈ st.registry

section Steps

variable {setup : Setup} {st : ServerState} {event : Event} {trace : List Call.Action}

theorem Attentive.free (h : Attentive setup st event)
    (hchecks : event.action.checksExpiry st event.env.now = true) {ids : List SessionId}
    (hlapsed : st.Lapsed event.env.now ids) : ∀ id ∈ ids, st.call.toRegistry.Free id := by
  intro id hid roomId p member hm hsession
  have hcurrent := h.current hchecks roomId p member hm
  have hexpired := hlapsed id hid
  rw [hsession] at hcurrent
  exact absurd hexpired (Nat.not_le.2 hcurrent)

end Steps

namespace Sample

/-- Steps that are attentive at a glance: no session is opened while there are rooms, and only
registered sessions are served, and neither leave nor moderate. -/
def calm (st : ServerState) (event : Event) : Bool :=
  match event.action with
  | .receive _ logicalId _ _ _ => !st.vacant event.env.now logicalId || st.call.rooms.entries.isEmpty
  | .serve n _ => (st.inflight[n]?).all fun invocation =>
    decide (invocation.session ∈ st.registry) &&
      decide (Call.handlerFor invocation.message ≠ some .leave) &&
      decide (Call.handlerFor invocation.message ≠ some .moderate)
  | _ => false

def opening : List Event :=
  login 0 1 "tab" "alice" "host" ++ message 1 1 "tab" (Call.Sample.request "call_create"
    (("inviteTokenHash", .str Call.Sample.zeros) :: Call.Sample.keys)) "unused"

end Sample

end CallBackend.Server
