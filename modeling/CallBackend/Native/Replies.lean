import CallBackend.Basic
import CallBackend.Lib.Dict
import CallBackend.Lib.System

/-!
# Replies to native requests

The native data plane numbers its calls, and the client numbers its messages. While a message is with
its handler, `NativeTransport.pending` keeps the number of the call under the lane and the number of
the message; `send_json` takes the entry out and answers that call. An answer that does not fit into a
line, or that the socket does not take, is lost with its entry.

A dispatch runs in a worker: it checks the session, enters the message into the table, calls the
handler, and returns. If anything raises on the way, the `finally` clause removes what the table has
under the lane and the number, whether or not it was this dispatch that put it there. So a second
message with the lane and the number of one that is still pending is refused, and takes the entry of
the first one away.
-/

namespace CallBackend.Native

/-- The number of a call of the native data plane. -/
abbrev CallId : Type := Nat

/-- The key of `pending`. -/
structure Route where
  lane : String
  messageId : String
  deriving DecidableEq

def maxPending : Nat := 128

/-- `MAX_IPC_LINE`. -/
def maxIpcLine : Nat := 128 * 1024

inductive DispatchPhase where
  /-- Up to the table of pending messages. -/
  | checking
  /-- The message is in the table, and `handle_application_message` runs. -/
  | handling
  /-- An exception is on its way to the `finally` clause. -/
  | refusing
  /-- The dispatch has returned, and the handler replies by itself. -/
  | delegated
  /-- The dispatch has failed, and the `finally` clause has run. -/
  | refused
  deriving DecidableEq

structure Dispatch where
  route : Route
  phase : DispatchPhase
  /-- The dispatch has come to its handler. -/
  handled : Bool
  deriving DecidableEq

/-- A reply of the handler of one call, and the call that was answered with it, if any. -/
structure Delivery where
  handlerOf : CallId
  answered : Option CallId
  deriving DecidableEq

/-- An attached transport, the dispatches of its messages, and the replies so far. -/
structure Transport where
  pending : Dict Route CallId := ∅
  dispatches : Dict CallId Dispatch := ∅
  deliveries : List Delivery := []

inductive DispatchAction where
  /-- A worker takes the message up. -/
  | receive (route : Route)
  /-- The session is not authorized, or something else raises before the table. -/
  | reject
  /-- The part of `_dispatch` under the transport's lock. -/
  | accept
  /-- `handle_application_message` raises. -/
  | fail
  | delegate
  /-- The `finally` clause of a dispatch that has not been delegated. -/
  | cleanUp
  /-- The handler calls `send_json`: the length of the line, and whether the socket takes it. -/
  | reply (length : Nat) (written : Bool)
  deriving DecidableEq

structure DispatchEvent where
  call : CallId
  action : DispatchAction

def Dispatch.at (d : Dispatch) (phase : DispatchPhase) : Dispatch := { d with phase }

namespace Transport

def put (t : Transport) (call : CallId) (d : Dispatch) : Transport :=
  { t with dispatches := t.dispatches.set call d }

/-- A dispatch goes on from this phase to that one. -/
def pass (t : Transport) (call : CallId) (d : Dispatch) (old new : DispatchPhase) : Option Transport :=
  if d.phase = old then some (t.put call (d.at new)) else none

def accept (t : Transport) (call : CallId) (d : Dispatch) : Transport :=
  if maxPending ≤ t.pending.size ∨ (t.pending.get? d.route).isSome then t.put call (d.at .refusing)
  else { t.put call ⟨d.route, .handling, true⟩ with pending := t.pending.set d.route call }

/-- `send_json`, where `sent` says whether `bridge.send` returns: the entry is taken out before. -/
def sendJson (t : Transport) (call : CallId) (route : Route) (sent : Bool) : Transport :=
  { t with
    pending := t.pending.erase route
    deliveries := t.deliveries ++ [⟨call, if sent then t.pending.get? route else none⟩] }

def next (t : Transport) (event : DispatchEvent) : Option Transport :=
  match t.dispatches.get? event.call, event.action with
  | none, .receive route => some (t.put event.call ⟨route, .checking, false⟩)
  | some d, .reject => t.pass event.call d .checking .refusing
  | some d, .accept => if d.phase = .checking then some (t.accept event.call d) else none
  | some d, .fail => t.pass event.call d .handling .refusing
  | some d, .delegate => t.pass event.call d .handling .delegated
  | some d, .cleanUp =>
    if d.phase = .refusing then
      some { t.put event.call (d.at .refused) with pending := t.pending.erase d.route }
    else none
  | some d, .reply length written =>
    if d.handled then some (t.sendJson event.call d.route (length ≤ maxIpcLine && written)) else none
  | _, _ => none

end Transport

/-- Messages on one transport. The native data plane never uses a number twice. -/
def messages : System Transport DispatchEvent where
  init t := t = {}
  step t event t' := t.next event = some t'

/-- When the `finally` clause of a failed dispatch runs, the table has no other call under its lane
and number; and a handler replies once, not after its dispatch has failed, and with a line that fits and
that the socket takes. -/
def Dispatch.Orderly (d : Dispatch) (t : Transport) (call : CallId) : DispatchAction → Prop
  | .cleanUp => ∀ other ∈ t.pending.get? d.route, other = call
  | .reply length written => (d.phase ≠ .refused ∧ length ≤ maxIpcLine ∧ written = true) ∧
      ∀ delivery ∈ t.deliveries, delivery.handlerOf ≠ call
  | _ => True

def Orderly (t : Transport) (event : DispatchEvent) : Prop :=
  ∀ d ∈ t.dispatches.get? event.call, d.Orderly t event.call event.action

instance (d : Dispatch) (t : Transport) (call : CallId) (action : DispatchAction) :
    Decidable (d.Orderly t call action) :=
  match action with
  | .cleanUp => inferInstanceAs (Decidable (∀ other ∈ t.pending.get? d.route, other = call))
  | .reply _ _ => inferInstanceAs (Decidable (_ ∧ ∀ delivery ∈ t.deliveries, delivery.handlerOf ≠ call))
  | .receive _ | .reject | .accept | .fail | .delegate => isTrue trivial

instance (t : Transport) (event : DispatchEvent) : Decidable (Orderly t event) :=
  inferInstanceAs (Decidable (∀ d ∈ t.dispatches.get? event.call, d.Orderly t event.call event.action))

/-! ### The table -/

structure Dispatch.Open (d : Dispatch) (route : Route) : Prop where
  route : d.route = route
  handled : d.handled = true
  phase : d.phase ≠ .refused

structure Transport.Awaits (t : Transport) (call : CallId) (route : Route) : Prop where
  opened : ∃ d, t.dispatches.get? call = some d ∧ d.Open route
  silent : ∀ delivery ∈ t.deliveries, delivery.handlerOf ≠ call

/-- The table has the calls whose handlers have yet to reply, and every reply has answered its own
call. -/
structure Transport.Tidy (t : Transport) : Prop where
  pending : ∀ route call, t.pending.get? route = some call ↔ t.Awaits call route
  checking : ∀ call d, t.dispatches.get? call = some d → d.phase = .checking → d.handled = false
  replied : ∀ delivery ∈ t.deliveries, ∃ d, t.dispatches.get? delivery.handlerOf = some d ∧ d.handled = true
  answered : ∀ delivery ∈ t.deliveries, delivery.answered = some delivery.handlerOf

section Table

variable {t t' : Transport} {call other : CallId} {d d' : Dispatch} {route : Route}

theorem awaits_of_ne (hset : t'.dispatches = t.dispatches.set call d)
    (hdeliveries : t'.deliveries = t.deliveries) (h : other ≠ call) :
    t'.Awaits other route ↔ t.Awaits other route := by
  have hget : t'.dispatches.get? other = t.dispatches.get? other := by
    rw [hset, Dict.get?_set_of_ne _ _ (Ne.symm h)]
  refine ⟨fun hawaits => ⟨hget ▸ hawaits.opened, hdeliveries ▸ hawaits.silent⟩,
    fun hawaits => ⟨hget.symm ▸ hawaits.opened, hdeliveries.symm ▸ hawaits.silent⟩⟩

theorem awaits_self (hset : t'.dispatches = t.dispatches.set call d)
    (hdeliveries : t'.deliveries = t.deliveries) :
    t'.Awaits call route ↔ d.Open route ∧ ∀ delivery ∈ t.deliveries, delivery.handlerOf ≠ call := by
  have hget : t'.dispatches.get? call = some d := by rw [hset, Dict.get?_set_self]
  refine ⟨fun ⟨⟨d', hd', hopen⟩, hsilent⟩ => ⟨?_, hdeliveries ▸ hsilent⟩,
    fun ⟨hopen, hsilent⟩ => ⟨⟨d, hget, hopen⟩, hdeliveries.symm ▸ hsilent⟩⟩
  rw [hget, Option.some.injEq] at hd'
  exact hd' ▸ hopen

theorem Transport.Tidy.checking_set (h : t.Tidy) (hset : t'.dispatches = t.dispatches.set call d)
    (hd : d.phase = .checking → d.handled = false) (hget : t'.dispatches.get? other = some d')
    (hphase : d'.phase = .checking) : d'.handled = false := by
  rw [hset, Dict.get?_set] at hget
  split_ifs at hget
  · rw [Option.some.injEq] at hget
    subst hget
    exact hd hphase
  · exact h.checking other d' hget hphase

theorem Transport.Tidy.replied_set (h : t.Tidy) (hset : t'.dispatches = t.dispatches.set call d)
    (hd : ∀ old, t.dispatches.get? call = some old → old.handled = true → d.handled = true)
    {delivery : Delivery} (hmem : delivery ∈ t.deliveries) :
    ∃ d', t'.dispatches.get? delivery.handlerOf = some d' ∧ d'.handled = true := by
  obtain ⟨d', hget, hhandled⟩ := h.replied delivery hmem
  rw [hset, Dict.get?_set]
  split_ifs with heq
  · exact ⟨d, rfl, hd d' (heq ▸ hget) hhandled⟩
  · exact ⟨d', hget, hhandled⟩

theorem Transport.Tidy.not_awaits (h : t.Tidy) (hget : t.dispatches.get? call = some d)
    (hphase : d.phase = .checking) (route : Route) : ¬t.Awaits call route := by
  rintro ⟨⟨d', hd', hopen⟩, -⟩
  rw [hget, Option.some.injEq] at hd'
  subst hd'
  cases (h.checking call d hget hphase).symm.trans hopen.handled

section Stored

variable (hset : t'.dispatches = t.dispatches.set call d') (hdeliveries : t'.deliveries = t.deliveries)
include hset hdeliveries

theorem Transport.Tidy.pass (h : t.Tidy) (hpending : t'.pending = t.pending)
    (hget : t.dispatches.get? call = some d) (hopen : ∀ route, d'.Open route ↔ d.Open route)
    (hhandled : d'.handled = d.handled) (hphase : d'.phase ≠ .checking) : t'.Tidy := by
  refine ⟨fun route other => ?_, fun other d'' hd'' hchecking => ?_, fun delivery hmem => ?_, ?_⟩
  · rw [hpending, h.pending]
    by_cases heq : other = call
    · subst heq
      rw [awaits_self hset hdeliveries, hopen]
      refine ⟨fun ⟨⟨old, hold, hopened⟩, hsilent⟩ => ⟨?_, hsilent⟩, fun ⟨hopened, hsilent⟩ =>
        ⟨⟨d, hget, hopened⟩, hsilent⟩⟩
      rw [hget, Option.some.injEq] at hold
      exact hold ▸ hopened
    · rw [awaits_of_ne hset hdeliveries heq]
  · exact h.checking_set hset (fun hc => absurd hc hphase) hd'' hchecking
  · refine h.replied_set hset (fun old hold htrue => ?_) (hdeliveries ▸ hmem)
    rw [hget, Option.some.injEq] at hold
    rw [hhandled, hold, htrue]
  · rw [hdeliveries]
    exact h.answered

theorem Transport.Tidy.receive (h : t.Tidy) (hpending : t'.pending = t.pending)
    (hnew : t.dispatches.get? call = none) (hunhandled : d'.handled = false) : t'.Tidy := by
  refine ⟨fun route other => ?_, fun other d hd hchecking => ?_, fun delivery hmem => ?_, ?_⟩
  · rw [hpending, h.pending]
    by_cases heq : other = call
    · subst heq
      rw [awaits_self hset hdeliveries]
      refine iff_of_false ?_ fun hopen => nomatch hunhandled.symm.trans hopen.1.handled
      rintro ⟨⟨d, hd, -⟩, -⟩
      rw [hnew] at hd
      cases hd
    · rw [awaits_of_ne hset hdeliveries heq]
  · exact h.checking_set hset (fun _ => hunhandled) hd hchecking
  · refine h.replied_set hset (fun old hold => ?_) (hdeliveries ▸ hmem)
    rw [hnew] at hold
    cases hold
  · rw [hdeliveries]
    exact h.answered

/-- A message that is entered into the table is the only one under its lane and number. -/
theorem Transport.Tidy.enter (h : t.Tidy) (hpending : t'.pending = t.pending.set d.route call)
    (hget : t.dispatches.get? call = some d) (hphase : d.phase = .checking)
    (hfree : t.pending.get? d.route = none) (hd' : d' = ⟨d.route, .handling, true⟩) : t'.Tidy := by
  subst hd'
  have hsilent : ∀ delivery ∈ t.deliveries, delivery.handlerOf ≠ call := by
    rintro delivery hmem rfl
    obtain ⟨d', hd', hhandled⟩ := h.replied delivery hmem
    rw [hget, Option.some.injEq] at hd'
    subst hd'
    cases (h.checking _ _ hget hphase).symm.trans hhandled
  refine ⟨fun route other => ?_, fun other d' hd' hchecking => ?_, fun delivery hmem => ?_, ?_⟩
  · rw [hpending, Dict.get?_set]
    by_cases heq : other = call
    · subst heq
      rw [awaits_self hset hdeliveries]
      split_ifs with hroute
      · exact iff_of_true rfl ⟨⟨hroute, rfl, (fun h => by cases h)⟩, hsilent⟩
      · refine iff_of_false (fun hold => ?_) fun hopen => hroute hopen.1.route
        exact h.not_awaits hget hphase route ((h.pending route _).mp hold)
    · rw [awaits_of_ne hset hdeliveries heq]
      split_ifs with hroute
      · refine iff_of_false (fun hcall => heq (Option.some.inj hcall).symm) fun hawaits => ?_
        rw [← h.pending, ← hroute, hfree] at hawaits
        cases hawaits
      · exact h.pending route other
  · exact h.checking_set hset (fun h => by cases h) hd' hchecking
  · exact h.replied_set hset (fun _ _ _ => rfl) (hdeliveries ▸ hmem)
  · rw [hdeliveries]
    exact h.answered

/-- The `finally` clause takes out what the failed dispatch has put into the table. -/
theorem Transport.Tidy.cleanUp (h : t.Tidy) (hpending : t'.pending = t.pending.erase d.route)
    (hget : t.dispatches.get? call = some d) (hd' : d' = d.at .refused)
    (hown : ∀ other, t.pending.get? d.route = some other → other = call) : t'.Tidy := by
  subst hd'
  refine ⟨fun route other => ?_, fun other d' hd' hchecking => ?_, fun delivery hmem => ?_, ?_⟩
  · rw [hpending, Dict.get?_erase]
    by_cases heq : other = call
    · subst heq
      rw [awaits_self hset hdeliveries]
      refine iff_of_false (fun hold => ?_) fun hopen => hopen.1.phase rfl
      split_ifs at hold with hroute
      obtain ⟨⟨d', hd', hopen⟩, -⟩ := (h.pending route _).mp hold
      rw [hget, Option.some.injEq] at hd'
      exact hroute (hd' ▸ hopen.route)
    · rw [awaits_of_ne hset hdeliveries heq]
      split_ifs with hroute
      · refine iff_of_false (fun h => by cases h) fun hawaits => heq (hown other ?_)
        rw [hroute]
        exact (h.pending route other).mpr hawaits
      · exact h.pending route other
  · exact h.checking_set hset (fun h => by cases h) hd' hchecking
  · refine h.replied_set hset (fun old hold htrue => ?_) (hdeliveries ▸ hmem)
    rw [hget, Option.some.injEq] at hold
    exact hold ▸ htrue
  · rw [hdeliveries]
    exact h.answered

end Stored

theorem Transport.Tidy.sendJson (h : t.Tidy) (hawaits : t.Awaits call route) :
    (t.sendJson call route true).Tidy := by
  have hentry := (h.pending route call).mpr hawaits
  obtain ⟨⟨d, hget, hopen⟩, hsilent⟩ := hawaits
  refine ⟨fun route' other => ?_, h.checking, fun delivery hmem => ?_, fun delivery hmem => ?_⟩
  · change (t.pending.erase route).get? route' = some other ↔ _
    rw [Dict.get?_erase]
    refine ⟨fun hold => ?_, fun hother => ?_⟩
    · split_ifs at hold with hroute
      obtain ⟨hopened, hquiet⟩ := (h.pending route' other).mp hold
      refine ⟨hopened, fun delivery hmem => ?_⟩
      rcases List.mem_append.mp hmem with hmem | hmem
      · exact hquiet delivery hmem
      · obtain rfl := List.mem_singleton.mp hmem
        rintro rfl
        obtain ⟨d', hd', hopen'⟩ := hopened
        rw [hget, Option.some.injEq] at hd'
        subst hd'
        exact hroute (hopen.route.symm.trans hopen'.route)
    · have hbefore : t.Awaits other route' :=
        ⟨hother.opened, fun delivery hmem => hother.silent delivery (List.mem_append_left _ hmem)⟩
      have hold := (h.pending route' other).mpr hbefore
      rw [if_neg ?_, hold]
      rintro rfl
      rw [hentry, Option.some.injEq] at hold
      subst hold
      exact hother.silent ⟨_, t.pending.get? route⟩ (List.mem_append_right _ (List.mem_singleton.mpr rfl)) rfl
  · rcases List.mem_append.mp hmem with hmem | hmem
    · exact h.replied delivery hmem
    · obtain rfl := List.mem_singleton.mp hmem
      exact ⟨d, hget, hopen.handled⟩
  · rcases List.mem_append.mp hmem with hmem | hmem
    · exact h.answered delivery hmem
    · obtain rfl := List.mem_singleton.mp hmem
      exact hentry

end Table

/-! ### Runs -/

section Runs

variable {t t' : Transport} {event : DispatchEvent}

theorem pass_eq {call : CallId} {d : Dispatch} {old new : DispatchPhase}
    (h : t.pass call d old new = some t') : d.phase = old ∧ t' = t.put call (d.at new) := by
  unfold Transport.pass at h
  split_ifs at h with hphase
  exact ⟨hphase, (Option.some.inj h).symm⟩

theorem tidy_next (h : t.Tidy) (hok : Orderly t event) (hstep : t.next event = some t') : t'.Tidy := by
  obtain ⟨call, action⟩ := event
  unfold Transport.next at hstep
  cases hget : t.dispatches.get? call with
  | none =>
    cases action with
    | receive route =>
      simp only [hget, Option.some.injEq] at hstep
      rw [← hstep]
      exact h.receive rfl rfl rfl hget rfl
    | _ => simp [hget] at hstep
  | some d =>
    have hok := hok d hget
    have hpass : ∀ {old new : DispatchPhase}, t.pass call d old new = some t' → old ≠ .refused →
        new ≠ .refused → new ≠ .checking → t'.Tidy := by
      intro old new hpass hold hnew hchecking
      obtain ⟨hphase, rfl⟩ := pass_eq hpass
      refine h.pass rfl rfl rfl hget (fun route => ?_) rfl hchecking
      exact ⟨fun hopen => ⟨hopen.route, hopen.handled, hphase ▸ hold⟩,
        fun hopen => ⟨hopen.route, hopen.handled, hnew⟩⟩
    cases action with
    | receive route => simp [hget] at hstep
    | reject =>
      simp only [hget] at hstep
      exact hpass hstep (fun h => by cases h) (fun h => by cases h) (fun h => by cases h)
    | accept =>
      simp only [hget] at hstep
      split_ifs at hstep with hphase
      rw [← Option.some.inj hstep, Transport.accept]
      split_ifs with hbusy
      · refine h.pass rfl rfl rfl hget (fun route => ?_) rfl (fun h => by cases h)
        exact ⟨fun hopen => ⟨hopen.route, hopen.handled, hphase ▸ (fun h => by cases h)⟩,
          fun hopen => ⟨hopen.route, hopen.handled, (fun h => by cases h)⟩⟩
      · push Not at hbusy
        exact h.enter rfl rfl rfl hget hphase (by simpa using hbusy.2) rfl
    | fail =>
      simp only [hget] at hstep
      exact hpass hstep (fun h => by cases h) (fun h => by cases h) (fun h => by cases h)
    | delegate =>
      simp only [hget] at hstep
      exact hpass hstep (fun h => by cases h) (fun h => by cases h) (fun h => by cases h)
    | cleanUp =>
      simp only [hget] at hstep
      split_ifs at hstep with hphase
      cases hstep
      exact h.cleanUp rfl rfl rfl hget rfl hok
    | reply length written =>
      simp only [hget] at hstep
      split_ifs at hstep with hhandled
      obtain ⟨⟨hphase, hfits, hwritten⟩, hsilent⟩ := hok
      rw [← Option.some.inj hstep, hwritten, decide_eq_true hfits]
      exact h.sendJson ⟨⟨d, hget, rfl, hhandled, hphase⟩, hsilent⟩

theorem reachable_tidy (h : messages.Reachable Orderly t) : t.Tidy := by
  refine h.invariant (I := Transport.Tidy) (fun t ht => ?_) fun t event t' hI hok hstep => tidy_next hI hok hstep
  rw [ht]
  refine ⟨fun route call => iff_of_false nofun ?_, nofun, nofun, nofun⟩
  rintro ⟨⟨d, hd, -⟩, -⟩
  cases hd

theorem pending_next (h : Orderly t event) (hstep : t.next event = some t')
    (hreply : ∀ length written, event.action ≠ .reply length written) (route : Route) {other : CallId} (hother : other ≠ event.call) :
    t'.pending.get? route = some other ↔ t.pending.get? route = some other := by
  obtain ⟨call, action⟩ := event
  unfold Transport.next at hstep
  cases hget : t.dispatches.get? call with
  | none =>
    cases action with
    | receive route =>
      simp only [hget, Option.some.injEq] at hstep
      rw [← hstep]
      rfl
    | _ => simp [hget] at hstep
  | some d =>
    have hok := h d hget
    have hpass : ∀ {old new : DispatchPhase}, t.pass call d old new = some t' →
        (t'.pending.get? route = some other ↔ t.pending.get? route = some other) := by
      intro old new hpass
      rw [(pass_eq hpass).2]
      rfl
    cases action with
    | receive route => simp [hget] at hstep
    | reject =>
      simp only [hget] at hstep
      exact hpass hstep
    | accept =>
      simp only [hget] at hstep
      split_ifs at hstep with hphase
      rw [← Option.some.inj hstep, Transport.accept]
      split_ifs with hbusy
      · rfl
      · push Not at hbusy
        change (t.pending.set d.route call).get? route = some other ↔ _
        rw [Dict.get?_set]
        split_ifs with hroute
        · have hfree : t.pending.get? route = none := by simpa [← hroute] using hbusy.2
          rw [hfree]
          exact iff_of_false (fun heq => hother (Option.some.inj heq).symm) (fun h => by cases h)
        · rfl
    | fail =>
      simp only [hget] at hstep
      exact hpass hstep
    | delegate =>
      simp only [hget] at hstep
      exact hpass hstep
    | cleanUp =>
      simp only [hget] at hstep
      split_ifs at hstep with hphase
      cases hstep
      change (t.pending.erase d.route).get? route = some other ↔ _
      rw [Dict.get?_erase]
      split_ifs with hroute
      · exact iff_of_false (fun h => by cases h) fun hentry => hother (hok other (hroute ▸ hentry))
      · rfl
    | reply length written => exact absurd rfl (hreply length written)

/-- In every orderly run every reply answers the call it is for, and no step of a dispatch, however
it ends, touches the entries of other calls. -/
theorem replies_reach_requests (h : messages.Reachable Orderly t) :
    (∀ delivery ∈ t.deliveries, delivery.answered = some delivery.handlerOf) ∧
      ∀ event t', Orderly t event → messages.step t event t' →
        (∀ length written, event.action ≠ .reply length written) → ∀ route other, other ≠ event.call →
          (t'.pending.get? route = some other ↔ t.pending.get? route = some other) :=
  ⟨(reachable_tidy h).answered, fun _ _ hok hstep hreply route _ hother =>
    pending_next hok hstep hreply route hother⟩

end Runs

namespace Sample

def follow (t : Transport) (event : DispatchEvent) : Transport := (t.next event).getD t

def route : Route := ⟨"reliable", "message-1"⟩

/-- The message of the first call is with its handler. -/
def handing : List DispatchEvent := [⟨1, .receive route⟩, ⟨1, .accept⟩, ⟨1, .delegate⟩]

/-- Before the handler replies, two more messages come with the same number: the first is refused,
and the second is admitted. -/
def repeating : List DispatchEvent :=
  [⟨2, .receive route⟩, ⟨2, .accept⟩, ⟨2, .cleanUp⟩, ⟨3, .receive route⟩, ⟨3, .accept⟩]

def firstReply : DispatchEvent := ⟨1, .reply 200 true⟩

def longReply : DispatchEvent := ⟨1, .reply 132114 true⟩

theorem reachable_follow {ok : Transport → DispatchEvent → Prop} {events : List DispatchEvent}
    (h : System.Meets follow (fun t event => (t.next event).isSome = true ∧ ok t event) {} events) :
    messages.Reachable ok (events.foldl follow {}) :=
  (System.Path.of_meets (System.step_getD fun _ _ _ hnext => hnext) .refl h).reachable (.init rfl)

end Sample

open Sample in
theorem replies_reach_requests_handed :
    ((handing ++ [firstReply]).foldl follow {}).deliveries = [⟨1, some 1⟩] ∧
      ∀ delivery ∈ ((handing ++ [firstReply]).foldl follow {}).deliveries,
        delivery.answered = some delivery.handlerOf :=
  ⟨by decide +kernel, (replies_reach_requests (reachable_follow (by decide +kernel))).1⟩

open Sample in
/-- The reply to the first message answers the call of the third; and a reply whose line is too long
answers no call. -/
theorem reply_answers_other_call :
    messages.Reachable System.anyStep ((handing ++ repeating ++ [firstReply]).foldl follow {}) ∧
      ((handing ++ repeating ++ [firstReply]).foldl follow {}).deliveries = [⟨1, some 3⟩] ∧
      ((handing ++ [longReply]).foldl follow {}).deliveries = [⟨1, none⟩] :=
  ⟨reachable_follow (by decide +kernel), by decide +kernel, by decide +kernel⟩

end CallBackend.Native
