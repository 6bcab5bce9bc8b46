import CallBackend.Basic
import CallBackend.Lib.Dict
import CallBackend.Lib.System

/-!
# Attaching and detaching native connections

The thread that reads the control connection and the workers of `_dispatch` share `connections`,
`attaching` and, with the rest of the server, `private_transport` of the sessions. The reader makes an
event for every attach it reads, before a worker takes it up; a detach that overtakes the attach sets
the event, so that the worker gives up. A transport belongs to one connection, so the id of the
connection stands for it.

The steps are the sections under one lock each. `_detach` takes the transport out of `connections`
under the lock of the server and clears `private_transport` under the lock of the sessions, and
between the two anything can happen. `_authorized` compares `private_transport` first and asks
`require_authorized` afterwards, which can take as long as the node it asks.
-/

namespace CallBackend.Native

abbrev ConnectionId : Type := Nat

def maxConnections : Nat := 256

inductive AttachPhase where
  /-- The reader has made the event. -/
  | announced
  /-- A worker has the request, or it is in the queue of the pool. -/
  | queued
  /-- The transport is attached, and its access is to be checked again. -/
  | attached
  /-- An exception of the first `except` clause is on its way to `_detach`. -/
  | refusing
  /-- `_detach` has left the lock with the session of the transport it has found. -/
  | releasing (found : Option SessionId)
  /-- Before the `finally` clause. -/
  | closing
  | done
  deriving DecidableEq

inductive DetachPhase where
  | begun
  | done
  deriving DecidableEq

inductive ReaderPhase where
  | reading
  /-- The event of the attach has been made. -/
  | admitting (id : ConnectionId)
  /-- There is no slot for the attach. -/
  | refusing (id : ConnectionId)
  /-- `_detach`, for a detach of the data plane, after its part under the lock. -/
  | detaching (id : ConnectionId) (found : Option SessionId)
  /-- The `finally` clause, before it lists the connections. -/
  | stopping
  | sweeping (rest : List ConnectionId)
  /-- `_detach`, in the `finally` clause, after its part under the lock. -/
  | sweepingOne (id : ConnectionId) (found : Option SessionId) (rest : List ConnectionId)
  deriving DecidableEq

inductive OperationPhase where
  /-- The transport has been looked up. -/
  | found
  /-- The first part of `_authorized` has found the transport to be the session's. -/
  | compared
  /-- `_authorized` has returned. -/
  | passed
  | failed
  deriving DecidableEq

/-- A file operation, a message or a validation. -/
structure Operation where
  connection : ConnectionId
  session : SessionId
  phase : OperationPhase
  deriving DecidableEq

structure Bridge where
  attaching : Dict ConnectionId Bool := ∅
  connections : Dict ConnectionId SessionId := ∅
  /-- `private_transport` of a session. -/
  privateTransport : Dict SessionId ConnectionId := ∅
  attaches : Dict ConnectionId AttachPhase := ∅
  detaches : Dict ConnectionId DetachPhase := ∅
  reader : ReaderPhase := .reading
  stopping : Bool := false
  operations : List Operation := []

/-- What `service.attach` comes to. -/
inductive AttachOutcome where
  | session (session : SessionId)
  /-- It is rejected, or another exception of the first `except` clause is raised. -/
  | rejected
  | raised
  deriving DecidableEq

/-- What `_authorized` comes to for a transport that is being attached. -/
inductive RecheckOutcome where
  | passed
  | rejected
  | raised
  deriving DecidableEq

inductive BridgeAction where
  | readAttach (id : ConnectionId)
  | submit
  | noSlot
  | popRefused
  /-- A request for the connection other than an attach finds no slot. -/
  | refuseOther (id : ConnectionId)
  | readDetach (id : ConnectionId)
  | endDetach
  | stop
  | readerEnds
  | listConnections
  | sweep
  | endSweep
  | attach (id : ConnectionId) (outcome : AttachOutcome)
  | recheck (id : ConnectionId) (outcome : RecheckOutcome)
  | detachRefused (id : ConnectionId)
  | endRefused (id : ConnectionId)
  | close (id : ConnectionId)
  | invalidate (session : SessionId)
  | lookUp (id : ConnectionId)
  /-- The first part of `_authorized`, where the session is otherwise in order or not. -/
  | compare (n : Nat) (inOrder : Bool)
  /-- `require_authorized` returns or raises. -/
  | authorize (n : Nat) (granted : Bool)
  deriving DecidableEq

namespace Bridge

def setAttach (b : Bridge) (id : ConnectionId) (phase : AttachPhase) : Bridge :=
  { b with attaches := b.attaches.set id phase }

def setOperation (b : Bridge) (n : Nat) (op : Operation) : Bridge :=
  { b with operations := b.operations.set n op }

/-- `_detach` under the lock: sets the event and takes the transport out. -/
def takeOut (b : Bridge) (id : ConnectionId) : Bridge :=
  { b with
    attaching := if (b.attaching.get? id).isSome then b.attaching.set id true else b.attaching
    connections := b.connections.erase id }

def detach (b : Bridge) (id : ConnectionId) (found : Option SessionId) : Bridge :=
  match found with
  | some session =>
    if b.privateTransport.get? session = some id then
      { b with privateTransport := b.privateTransport.erase session }
    else b
  | none => b

def attach (b : Bridge) (id : ConnectionId) (outcome : AttachOutcome) : Option Bridge :=
  if b.attaching.get? id = some false ∧ b.connections.get? id = none ∧
      b.connections.size < maxConnections ∧ b.stopping = false then
    match outcome with
    | .session session =>
      if b.privateTransport.get? session = none then
        some { b.setAttach id .attached with
          privateTransport := b.privateTransport.set session id
          connections := b.connections.set id session }
      else none
    | .rejected => some (b.setAttach id .refusing)
    | .raised => some (b.setAttach id .closing)
  else some (b.setAttach id .refusing)

def next (b : Bridge) (action : BridgeAction) : Option Bridge :=
  match action with
  | .readAttach id =>
    if b.reader = .reading ∧ b.attaches.get? id = none then
      some { b.setAttach id .announced with
        attaching := b.attaching.set id false, reader := .admitting id }
    else none
  | .submit =>
    match b.reader with
    | .admitting id => some { b.setAttach id .queued with reader := .reading }
    | _ => none
  | .noSlot =>
    match b.reader with
    | .admitting id => some { b with reader := .refusing id }
    | _ => none
  | .popRefused =>
    match b.reader with
    | .refusing id =>
      some { b.setAttach id .done with attaching := b.attaching.erase id, reader := .reading }
    | _ => none
  | .refuseOther id =>
    if b.reader = .reading then some { b with attaching := b.attaching.erase id } else none
  | .readDetach id =>
    if b.reader = .reading ∧ b.attaches.get? id ≠ none ∧ b.detaches.get? id = none then
      some { b.takeOut id with
        detaches := b.detaches.set id .begun
        reader := .detaching id (b.connections.get? id) }
    else none
  | .endDetach =>
    match b.reader with
    | .detaching id found =>
      some { b.detach id found with
        detaches := b.detaches.set id .done, reader := .reading }
    | _ => none
  | .stop => some { b with stopping := true }
  | .readerEnds =>
    if b.reader = .reading then some { b with stopping := true, reader := .stopping } else none
  | .listConnections =>
    if b.reader = .stopping then some { b with reader := .sweeping b.connections.keys } else none
  | .sweep =>
    match b.reader with
    | .sweeping (id :: rest) =>
      some { b.takeOut id with reader := .sweepingOne id (b.connections.get? id) rest }
    | _ => none
  | .endSweep =>
    match b.reader with
    | .sweepingOne id found rest => some { b.detach id found with reader := .sweeping rest }
    | _ => none
  | .attach id outcome => if b.attaches.get? id = some .queued then b.attach id outcome else none
  | .recheck id outcome =>
    if b.attaches.get? id = some .attached then
      some (b.setAttach id (if outcome = .rejected then .refusing else .closing))
    else none
  | .detachRefused id =>
    if b.attaches.get? id = some .refusing then
      some ((b.takeOut id).setAttach id (.releasing (b.connections.get? id)))
    else none
  | .endRefused id =>
    match b.attaches.get? id with
    | some (.releasing found) => some ((b.detach id found).setAttach id .closing)
    | _ => none
  | .close id =>
    if b.attaches.get? id = some .closing then
      some { b.setAttach id .done with attaching := b.attaching.erase id }
    else none
  | .invalidate session =>
    some { b with privateTransport := b.privateTransport.erase session }
  | .lookUp id =>
    match b.connections.get? id with
    | some session => some { b with operations := b.operations ++ [⟨id, session, .found⟩] }
    | none => none
  | .compare n inOrder =>
    match b.operations[n]? with
    | some ⟨id, session, .found⟩ =>
      some (b.setOperation n ⟨id, session,
        if inOrder ∧ b.privateTransport.get? session = some id then .compared else .failed⟩)
    | _ => none
  | .authorize n granted =>
    match b.operations[n]? with
    | some ⟨id, session, .compared⟩ =>
      some (b.setOperation n ⟨id, session, if granted then .passed else .failed⟩)
    | _ => none

end Bridge

def bridge : System Bridge BridgeAction where
  init b := b = {}
  step b action b' := b.next action = some b'

/-- The connection with which the reader has left the lock of `_detach`, and its session. -/
def ReaderPhase.taken : ReaderPhase → Option (ConnectionId × Option SessionId)
  | .detaching id found => some (id, found)
  | .sweepingOne id found _ => some (id, found)
  | _ => none

def Bridge.Held (b : Bridge) (id : ConnectionId) (session : SessionId) : Prop :=
  b.reader.taken = some (id, some session) ∨ b.attaches.get? id = some (.releasing (some session))

def Bridge.Reading (b : Bridge) : Prop :=
  match b.reader with
  | .admitting id | .refusing id => b.attaches.get? id = some .announced
  | .detaching id _ => b.detaches.get? id = some .begun
  | .sweepingOne id found _ => found ≠ none → b.detaches.get? id = none
  | _ => True

structure Bridge.Sound (b : Bridge) : Prop where
  owned : ∀ session id, b.privateTransport.get? session = some id →
    b.connections.get? id = some session ∨ b.Held id session
  overtaken : ∀ id, b.detaches.get? id ≠ none → b.attaching.get? id ≠ some false ∧
    b.connections.get? id = none ∧ b.attaches.get? id ≠ none
  reading : b.Reading
  cleared : ∀ id, b.attaches.get? id = some .done → b.attaching.get? id = none

section Steps

variable {b b' : Bridge} {action : BridgeAction} {id id' : ConnectionId} {session : SessionId}
  {found : Option SessionId} {reader : ReaderPhase} {detaches : Dict ConnectionId DetachPhase}

theorem detach_eq (b : Bridge) (id : ConnectionId) (found : Option SessionId) :
    b.detach id found = { b with privateTransport := (b.detach id found).privateTransport } := by
  unfold Bridge.detach
  split
  · split_ifs <;> rfl
  · rfl

theorem privateTransport_detach : (b.detach id found).privateTransport.get? session = some id' ↔
    b.privateTransport.get? session = some id' ∧ ¬(id = id' ∧ found = some session) := by
  unfold Bridge.detach
  split <;> grind [Dict.get?_erase]

/-- An attach is given up, or it enters a connection that has not been detached. -/
theorem attach_eq_some {outcome : AttachOutcome} (h : b.attach id outcome = some b') :
    b' = b.setAttach id .refusing ∨ b' = b.setAttach id .closing ∨
      ∃ session, b.attaching.get? id = some false ∧ b.connections.get? id = none ∧
        b.privateTransport.get? session = none ∧
        b' = { b.setAttach id .attached with
          privateTransport := b.privateTransport.set session id
          connections := b.connections.set id session } := by
  unfold Bridge.attach at h
  split_ifs at h with hfree
  · cases outcome with
    | session session =>
      dsimp only at h
      split_ifs at h with hnone
      exact .inr (.inr ⟨session, hfree.1, hfree.2.1, hnone, (Option.some.inj h).symm⟩)
    | rejected => exact .inl (Option.some.inj h).symm
    | raised => exact .inr (.inl (Option.some.inj h).symm)
  · exact .inl (Option.some.inj h).symm

namespace Bridge.Sound

/-- The reader goes on, and has no transport before nor after. -/
theorem turn {stopping : Bool} (h : b.Sound) (hfree : b.reader.taken = none)
    (hreading : Reading { b with reader }) : Sound { b with reader, stopping } := by
  obtain ⟨howned, hovertaken, -, hcleared⟩ := h
  exact ⟨by grind [Held], hovertaken, hreading, hcleared⟩

theorem setAttach {phase : AttachPhase} (h : b.Sound)
    (hheld : ∀ found, b.attaches.get? id ≠ some (.releasing found))
    (hreader : b.attaches.get? id = some .announced → b.reader = .reading)
    (hdone : phase = .done → b.attaching.get? id = none) : (b.setAttach id phase).Sound := by
  obtain ⟨howned, hovertaken, hreading, hcleared⟩ := h
  constructor <;> grind [Bridge.setAttach, Held, Reading, Dict.get?_set]

theorem forget (h : b.Sound) (id : ConnectionId) : Sound { b with attaching := b.attaching.erase id } := by
  obtain ⟨howned, hovertaken, hreading, hcleared⟩ := h
  exact ⟨howned, by grind [Dict.get?_erase], hreading, by grind [Dict.get?_erase]⟩

/-- The event is made for a connection that nobody knows yet, so none is set or gone. -/
theorem announce (h : b.Sound) (hnew : b.attaches.get? id = none) :
    Sound { b with attaching := b.attaching.set id false } := by
  obtain ⟨howned, hovertaken, hreading, hcleared⟩ := h
  exact ⟨howned, by grind [Dict.get?_set], hreading, by grind [Dict.get?_set]⟩

/-- A connection whose event is not set has not been detached. -/
theorem enter (h : b.Sound) (hunset : b.attaching.get? id = some false)
    (habsent : b.connections.get? id = none) : Sound { b with
      privateTransport := b.privateTransport.set session id
      connections := b.connections.set id session } := by
  obtain ⟨howned, hovertaken, hreading, hcleared⟩ := h
  exact ⟨by grind [Held, Dict.get?_set], by grind [Dict.get?_set], hreading, hcleared⟩

/-- The reader holds what it takes out. -/
theorem takeOut (h : b.Sound) (hfree : b.reader.taken = none)
    (htaken : reader.taken = some (id, b.connections.get? id))
    (hdetach : ∀ other, detaches.get? other ≠ none →
      b.detaches.get? other ≠ none ∨ id = other ∧ b.attaches.get? id ≠ none)
    (hreading : Reading { b with reader, detaches }) : Sound { b.takeOut id with reader, detaches } := by
  obtain ⟨howned, hovertaken, -, hcleared⟩ := h
  constructor
  · grind [Bridge.takeOut, Held, Dict.get?_erase]
  · grind [Bridge.takeOut, Dict.get?_set, Dict.get?_erase]
  · exact hreading
  · grind [Bridge.takeOut, Dict.get?_set]

/-- What the reader has held is cleared. -/
theorem detach (h : b.Sound) (htaken : b.reader.taken = some (id, found))
    (hdetach : ∀ other, detaches.get? other ≠ none → b.detaches.get? other ≠ none)
    (hreading : Reading { b with reader, detaches }) :
    Sound { b with privateTransport := (b.detach id found).privateTransport, reader, detaches } := by
  obtain ⟨howned, hovertaken, -, hcleared⟩ := h
  refine ⟨fun session other howner => ?_, fun other hother => hovertaken other (hdetach other hother),
    hreading, hcleared⟩
  obtain ⟨howner, hother⟩ := privateTransport_detach.mp howner
  grind [Held]

/-- The worker of an attach that is given up holds what it takes out. -/
theorem detachRefused (h : b.Sound) (hrefusing : b.attaches.get? id = some .refusing) :
    ((b.takeOut id).setAttach id (.releasing (b.connections.get? id))).Sound := by
  obtain ⟨howned, hovertaken, hreading, hcleared⟩ := h
  constructor <;>
    grind [Bridge.takeOut, Bridge.setAttach, Held, Reading, Dict.get?_set, Dict.get?_erase]

/-- It clears what it has held. -/
theorem endRefused (h : b.Sound) (hreleasing : b.attaches.get? id = some (.releasing found)) :
    ((b.detach id found).setAttach id .closing).Sound := by
  obtain ⟨howned, hovertaken, hreading, hcleared⟩ := h
  rw [detach_eq]
  constructor
  · intro session other howner
    obtain ⟨howner, hother⟩ := privateTransport_detach.mp howner
    grind [Bridge.setAttach, Held, Dict.get?_set]
  all_goals grind [Bridge.setAttach, Reading, Dict.get?_set]

end Bridge.Sound

theorem sound_next (h : b.Sound) (hstep : b.next action = some b') : b'.Sound := by
  have hreading := h.reading
  unfold Bridge.Reading at hreading
  cases action with
  | readAttach id =>
    simp only [Bridge.next] at hstep
    split_ifs at hstep with hnew
    cases hstep
    have hset : Bridge.Sound { b.setAttach id .announced with attaching := b.attaching.set id false } :=
      (h.announce hnew.2).setAttach (by simp [hnew.2]) (by simp [hnew.2]) (by simp)
    exact hset.turn (congrArg _ hnew.1) (Dict.get?_set_self ..)
  | submit =>
    simp only [Bridge.next] at hstep
    split at hstep
    · rename_i id hreader
      rw [hreader] at hreading
      cases hstep
      have hread : Bridge.Sound { b with reader := .reading } := h.turn (congrArg _ hreader) trivial
      exact hread.setAttach (by simp [hreading]) (fun _ => rfl) (by simp)
    · cases hstep
  | noSlot =>
    simp only [Bridge.next] at hstep
    split at hstep
    · rename_i id hreader
      rw [hreader] at hreading
      cases hstep
      exact h.turn (congrArg _ hreader) hreading
    · cases hstep
  | popRefused =>
    simp only [Bridge.next] at hstep
    split at hstep
    · rename_i id hreader
      rw [hreader] at hreading
      cases hstep
      have hread : Bridge.Sound { b with reader := .reading } := h.turn (congrArg _ hreader) trivial
      exact (hread.forget id).setAttach (by simp [hreading]) (fun _ => rfl) fun _ => Dict.get?_erase_self ..
    · cases hstep
  | refuseOther id =>
    simp only [Bridge.next] at hstep
    split_ifs at hstep
    cases hstep
    exact h.forget id
  | readDetach id =>
    simp only [Bridge.next] at hstep
    split_ifs at hstep with hfirst
    cases hstep
    refine h.takeOut (congrArg _ hfirst.1) rfl (fun other hother => ?_) (Dict.get?_set_self ..)
    by_cases heq : id = other
    · exact .inr ⟨heq, hfirst.2.1⟩
    · rw [Dict.get?_set_of_ne _ _ heq] at hother
      exact .inl hother
  | endDetach =>
    simp only [Bridge.next] at hstep
    split at hstep
    · rename_i id found hreader
      rw [hreader] at hreading
      cases hstep
      rw [detach_eq]
      refine h.detach (congrArg _ hreader) (fun other hother => ?_) trivial
      by_cases heq : id = other
      · simp [← heq, hreading]
      · rwa [Dict.get?_set_of_ne _ _ heq] at hother
    · cases hstep
  | stop =>
    cases hstep
    exact ⟨h.owned, h.overtaken, h.reading, h.cleared⟩
  | readerEnds =>
    simp only [Bridge.next] at hstep
    split_ifs at hstep with hreader
    cases hstep
    exact h.turn (congrArg _ hreader) trivial
  | listConnections =>
    simp only [Bridge.next] at hstep
    split_ifs at hstep with hreader
    cases hstep
    exact h.turn (congrArg _ hreader) trivial
  | sweep =>
    simp only [Bridge.next] at hstep
    split at hstep
    · rename_i id rest hreader
      cases hstep
      refine h.takeOut (congrArg _ hreader) rfl (fun other hother => .inl hother) fun hfound => ?_
      exact not_not.mp fun hdetach => hfound (h.overtaken id hdetach).2.1
    · cases hstep
  | endSweep =>
    simp only [Bridge.next] at hstep
    split at hstep
    · rename_i id found rest hreader
      cases hstep
      rw [detach_eq]
      exact h.detach (congrArg _ hreader) (fun _ hother => hother) trivial
    · cases hstep
  | attach id outcome =>
    simp only [Bridge.next] at hstep
    split_ifs at hstep with hqueued
    have hset : ∀ phase, phase ≠ .done → (b.setAttach id phase).Sound := by
      intro phase hphase
      exact h.setAttach (by simp [hqueued]) (by simp [hqueued]) fun hdone => absurd hdone hphase
    rcases attach_eq_some hstep with rfl | rfl | ⟨session, hunset, habsent, -, rfl⟩
    · exact hset _ (by simp)
    · exact hset _ (by simp)
    · exact (hset .attached (by simp)).enter hunset habsent
  | recheck id outcome =>
    simp only [Bridge.next] at hstep
    split at hstep
    · rename_i hattached
      cases hstep
      refine h.setAttach (by simp [hattached]) (by simp [hattached]) fun hdone => ?_
      split_ifs at hdone
    · cases hstep
  | detachRefused id =>
    simp only [Bridge.next] at hstep
    split_ifs at hstep with hrefusing
    cases hstep
    exact h.detachRefused hrefusing
  | endRefused id =>
    simp only [Bridge.next] at hstep
    split at hstep
    · rename_i found hreleasing
      cases hstep
      exact h.endRefused hreleasing
    · cases hstep
  | close id =>
    simp only [Bridge.next] at hstep
    split_ifs at hstep with hclosing
    cases hstep
    exact (h.forget id).setAttach (by simp [hclosing]) (by simp [hclosing]) fun _ => Dict.get?_erase_self ..
  | invalidate session =>
    cases hstep
    exact ⟨fun other id howner => h.owned other id (Dict.get?_erase_eq_some howner).2, h.overtaken,
      h.reading, h.cleared⟩
  | lookUp | compare | authorize =>
    simp only [Bridge.next] at hstep
    split at hstep
    · cases hstep
      exact ⟨h.owned, h.overtaken, h.reading, h.cleared⟩
    · cases hstep

theorem reachable_sound {ok : Bridge → BridgeAction → Prop} (h : bridge.Reachable ok b) : b.Sound := by
  refine h.invariant (I := Bridge.Sound) (fun b hb => ?_) fun b action b' hI _ hstep => sound_next hI hstep
  rw [hb]
  exact ⟨nofun, fun id hid => absurd rfl hid, trivial, nofun⟩

end Steps

/-! ### Operations -/

def Bridge.clears (b : Bridge) (op : Operation) : BridgeAction → Bool
  | .invalidate session => session = op.session
  | .endDetach =>
    match b.reader with
    | .detaching id found => id = op.connection ∧ found = some op.session
    | _ => false
  | .endSweep =>
    match b.reader with
    | .sweepingOne id found _ => id = op.connection ∧ found = some op.session
    | _ => false
  | .endRefused id =>
    id = op.connection ∧ b.attaches.get? id = some (.releasing (some op.session))
  | _ => false

/-- No attachment ends while an operation that has found it there waits for `require_authorized`. -/
def Undisturbed (b : Bridge) (action : BridgeAction) : Prop :=
  ∀ op ∈ b.operations, op.phase = .compared → b.clears op action = false

instance (b : Bridge) (action : BridgeAction) : Decidable (Undisturbed b action) :=
  inferInstanceAs (Decidable (∀ op ∈ b.operations, op.phase = .compared → b.clears op action = false))

section Operations

variable {b b' : Bridge} {action : BridgeAction}

theorem privateTransport_next (hstep : b.next action = some b') {op : Operation}
    (hcurrent : b.privateTransport.get? op.session = some op.connection)
    (hclears : b.clears op action = false) : b'.privateTransport.get? op.session = some op.connection := by
  cases action with
  | readAttach | submit | noSlot | popRefused | refuseOther | readDetach | readerEnds | listConnections |
    sweep | recheck | detachRefused | close | lookUp | compare | authorize =>
    simp only [Bridge.next] at hstep
    split at hstep
    · cases hstep
      exact hcurrent
    · cases hstep
  | stop =>
    cases hstep
    exact hcurrent
  | attach id outcome =>
    simp only [Bridge.next] at hstep
    split_ifs at hstep
    rcases attach_eq_some hstep with rfl | rfl | ⟨session, -, -, hnone, rfl⟩
    · exact hcurrent
    · exact hcurrent
    · have hne : session ≠ op.session := fun heq => by cases hnone.symm.trans (heq ▸ hcurrent)
      exact (Dict.get?_set_of_ne _ _ hne).trans hcurrent
  | endDetach | endSweep =>
    simp only [Bridge.next] at hstep
    split at hstep
    · rename_i hreader
      cases hstep
      exact privateTransport_detach.mpr ⟨hcurrent, by simpa [Bridge.clears, hreader] using hclears⟩
    · cases hstep
  | endRefused id =>
    simp only [Bridge.next] at hstep
    split at hstep
    · rename_i found hreleasing
      cases hstep
      exact privateTransport_detach.mpr ⟨hcurrent, by simpa [Bridge.clears, hreleasing] using hclears⟩
    · cases hstep
  | invalidate session =>
    cases hstep
    exact (Dict.get?_erase_of_ne _ (by simpa [Bridge.clears] using hclears)).trans hcurrent

def Bridge.Current (b : Bridge) : Prop :=
  ∀ op ∈ b.operations, op.phase = .compared → b.privateTransport.get? op.session = some op.connection

theorem operations_next (hstep : b.next action = some b') {op : Operation} (hop : op ∈ b'.operations)
    (hphase : op.phase = .compared) :
    op ∈ b.operations ∨ b'.privateTransport.get? op.session = some op.connection := by
  cases action with
  | readAttach | submit | noSlot | popRefused | refuseOther | readDetach | readerEnds | listConnections |
    sweep | recheck | detachRefused | close =>
    simp only [Bridge.next] at hstep
    split at hstep
    · rw [← Option.some.inj hstep] at hop
      exact .inl hop
    · cases hstep
  | stop | invalidate =>
    rw [← Option.some.inj hstep] at hop
    exact .inl hop
  | endDetach | endSweep | endRefused =>
    simp only [Bridge.next] at hstep
    split at hstep
    · rw [← Option.some.inj hstep, detach_eq] at hop
      exact .inl hop
    · cases hstep
  | attach id outcome =>
    simp only [Bridge.next] at hstep
    split_ifs at hstep
    rcases attach_eq_some hstep with rfl | rfl | ⟨_, _, _, _, rfl⟩ <;> exact .inl hop
  | lookUp id =>
    simp only [Bridge.next] at hstep
    split at hstep
    · rw [← Option.some.inj hstep] at hop
      rcases List.mem_append.mp hop with hop | hnew
      · exact .inl hop
      · rw [List.mem_singleton.mp hnew] at hphase
        cases hphase
    · cases hstep
  | compare n inOrder =>
    simp only [Bridge.next, Bridge.setOperation] at hstep
    split at hstep
    · cases hstep
      rcases List.mem_or_eq_of_mem_set hop with hop | rfl
      · exact .inl hop
      · dsimp only at hphase
        split_ifs at hphase with hcurrent
        exact .inr hcurrent.2
    · cases hstep
  | authorize n granted =>
    simp only [Bridge.next, Bridge.setOperation] at hstep
    split at hstep
    · cases hstep
      rcases List.mem_or_eq_of_mem_set hop with hop | rfl
      · exact .inl hop
      · dsimp only at hphase
        split_ifs at hphase
    · cases hstep

theorem reachable_current (h : bridge.Reachable Undisturbed b) : b.Current := by
  refine h.invariant (I := Bridge.Current) (fun b hb => ?_) fun b action b' hI hok hstep op hop hphase => ?_
  · rw [hb]
    exact nofun
  · rcases operations_next hstep hop hphase with hop | hcurrent
    · exact privateTransport_next hstep (hI op hop hphase) (hok op hop hphase)
    · exact hcurrent

/-- Once the attach and the detach of a connection are done, nothing is left of it, in any run; a
session has at most one transport; and if no attachment ends while an operation that has found it
waits for `require_authorized`, every operation that passes has the transport of its session. -/
theorem attachments_settle (h : bridge.Reachable System.anyStep b) :
    (∀ id, b.attaches.get? id = some .done → b.detaches.get? id = some .done →
      b.connections.get? id = none ∧ b.attaching.get? id = none ∧
        ∀ session, b.privateTransport.get? session ≠ some id) ∧
    (∀ session id id', b.privateTransport.get? session = some id →
      b.privateTransport.get? session = some id' → id = id') ∧
    (bridge.Reachable Undisturbed b → ∀ n b', bridge.step b (.authorize n true) b' →
      ∃ op, b.operations[n]? = some op ∧ b.privateTransport.get? op.session = some op.connection) := by
  have hsound := reachable_sound h
  refine ⟨fun id hattach hdetach => ?_, fun session id id' hid hid' => ?_, fun hquiet n b' hstep => ?_⟩
  · have hdetached : b.detaches.get? id ≠ none := by
      rw [hdetach]
      nofun
    obtain ⟨-, hconnection, -⟩ := hsound.overtaken id hdetached
    refine ⟨hconnection, hsound.cleared id hattach, fun session howner => ?_⟩
    -- nobody holds the transport: the attach and the detach are done
    have hreading := hsound.reading
    unfold Bridge.Reading at hreading
    rcases hsound.owned session id howner with hheld | htaken | hreleasing
    · cases hconnection.symm.trans hheld
    · cases hreader : b.reader with
      | detaching other found =>
        rw [hreader] at htaken hreading
        cases htaken
        cases hdetach.symm.trans hreading
      | sweepingOne other found rest =>
        rw [hreader] at htaken hreading
        cases htaken
        exact hdetached (hreading (by simp))
      | _ =>
        rw [hreader] at htaken
        cases htaken
    · cases hattach.symm.trans hreleasing
  · exact Option.some.inj (hid.symm.trans hid')
  · have hstep : b.next (.authorize n true) = some b' := hstep
    simp only [Bridge.next] at hstep
    split at hstep
    · rename_i id session hop
      exact ⟨_, hop, reachable_current hquiet _ (List.mem_of_getElem? hop) rfl⟩
    · cases hstep

end Operations

namespace Sample

def act (b : Bridge) (action : BridgeAction) : Bridge := (b.next action).getD b

def attaching : List BridgeAction :=
  [.readAttach 1, .submit, .attach 1 (.session "session"), .recheck 1 .passed, .close 1, .lookUp 1,
    .compare 0 true]

def detaching : List BridgeAction := [.readDetach 1, .endDetach]

theorem reachable_act {ok : Bridge → BridgeAction → Prop} {actions : List BridgeAction}
    (h : System.Meets act (fun b action => (b.next action).isSome = true ∧ ok b action) {} actions) :
    bridge.Reachable ok (actions.foldl act {}) :=
  (System.Path.of_meets (System.step_getD fun _ _ _ hnext => hnext) .refl h).reachable (.init rfl)

end Sample

open Sample in
theorem attachments_settle_detached :
    (let b := (attaching ++ BridgeAction.authorize 0 true :: detaching).foldl act {}
     b.attaches.get? 1 = some .done ∧ b.detaches.get? 1 = some .done ∧ b.connections.get? 1 = none ∧
       b.attaching.get? 1 = none ∧ ∀ session, b.privateTransport.get? session ≠ some 1) ∧
    (let b := attaching.foldl act {}
     (∀ id, b.privateTransport.get? "session" = some id → id = 1) ∧
       (b.next (.authorize 0 true)).isSome = true ∧
       ∃ op, b.operations[0]? = some op ∧ b.privateTransport.get? op.session = some op.connection) := by
  refine ⟨?_, ?_⟩
  · intro b
    have hattach : b.attaches.get? 1 = some .done := by decide +kernel
    have hdetach : b.detaches.get? 1 = some .done := by decide +kernel
    exact ⟨hattach, hdetach, (attachments_settle (reachable_act (by decide +kernel))).1 1 hattach hdetach⟩
  · intro b
    obtain ⟨-, hsingle, hpassed⟩ := attachments_settle (b := b) (reachable_act (by decide +kernel))
    have hsome : (b.next (.authorize 0 true)).isSome = true := by decide +kernel
    obtain ⟨b', hstep⟩ := Option.isSome_iff_exists.mp hsome
    exact ⟨fun id hid => hsingle "session" id 1 hid (by decide +kernel), hsome,
      hpassed (reachable_act (by decide +kernel)) 0 b' hstep⟩

open Sample in
/-- The connection is detached while the request waits for `require_authorized`, and the request
passes. -/
theorem detached_transport_passes :
    let b := (attaching ++ detaching).foldl act {}
    bridge.Reachable System.anyStep b ∧ b.privateTransport.get? "session" = none ∧
      b.detaches.get? 1 = some .done ∧ ∃ b', bridge.step b (.authorize 0 true) b' ∧
        b'.operations = [⟨1, "session", .passed⟩] := by
  intro b
  have hpassed : (b.next (.authorize 0 true)).any (fun b' => b'.operations = [⟨1, "session", .passed⟩]) = true := by
    decide +kernel
  obtain ⟨b', hstep, hoperations⟩ := (Option.any_eq_true _ _).mp hpassed
  exact ⟨reachable_act (by decide +kernel), by decide +kernel, by decide +kernel, b', hstep,
    of_decide_eq_true hoperations⟩

end CallBackend.Native
