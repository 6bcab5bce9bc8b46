import CallBackend.Lib.System
import CallBackend.Server.MediaGrants

/-!
# The media service and its subscriptions

A connection to the media service has a handler, which knows the principal of the connection once
`handleConnection` has authenticated it. Every subscribe request runs in a goroutine of its own:
`HandleSubscribe` looks at `ready`, checks the track that is asked for, counts, answers the request,
enters a subscription into the broker and starts its forward loop. When the connection ends,
`handleConnection` removes the subscriptions of its handler from the broker, closes the session and
waits for the goroutines of the session.

The steps are single operations on what goroutines share: a load or store of `ready`, an addition to
the counter, a section under the lock of the broker, the start of a forward loop. Handlers and
requests are named by the order of their creation.
-/

namespace CallBackend.Media

open Server

/-- How far `handleConnection` has come. -/
inductive HandlerPhase where
  | serving
  /-- After `removeOwner`; the session is being closed. -/
  | removed
  | returned
  deriving DecidableEq

/-- `connectionHandler`, and the call of `handleConnection` it belongs to. -/
structure Handler where
  principal : Option GrantDocument := none
  ready : Bool := false
  subscriptionCount : UInt32 := 0
  phase : HandlerPhase := .serving

/-- How far `HandleSubscribe` has come. -/
inductive RequestPhase where
  | called
  | checked
  | counted
  /-- The request has been answered. -/
  | accepted
  /-- The subscription is in the broker, and its forward loop is to be started. -/
  | inserted
  | finished
  deriving DecidableEq

structure Request where
  owner : Nat
  namespaces : List String
  name : String
  phase : RequestPhase := .called

structure Relay where
  handlers : List Handler := []
  requests : List Request := []
  /-- `broker.subscriptions`; a subscription is named by its request. -/
  subscriptions : Dict String (List Nat) := ∅
  /-- The forward loops that have been started. -/
  forwards : List Nat := []
  /-- The subscriptions whose channel `done` has been closed. -/
  stopped : List Nat := []
  /-- The subscriptions that were entered after `removeOwner` had run for their handler. -/
  late : List Nat := []

inductive RelayAction where
  | connect
  /-- The principal is set, and `ready` with it. -/
  | authenticate (n : Nat) (principal : GrantDocument)
  /-- `ready` is taken back. -/
  | revoke (n : Nat)
  /-- The session calls `HandleSubscribe`. -/
  | request (n : Nat) (namespaces : List String) (name : String)
  | check (r : Nat)
  | count (r : Nat)
  | accept (r : Nat)
  | insert (r : Nat)
  | forward (r : Nat)
  | removeOwner (n : Nat)
  /-- `CloseWithError` returns, and with it `handleConnection`. -/
  | close (n : Nat)

def trackKey (room participant track : String) : String :=
  room ++ "\x00" ++ participant ++ "\x00" ++ track

def allowedTrack (track : String) : Bool := track = "audio" || track = "screen" || track = "feedback"

def maxSubscriptions : UInt32 := 128

/-- The participant whose track is asked for, if the handler may ask for it. -/
def Handler.participant (handler : Handler) (request : Request) : Option String :=
  match handler.principal, request.namespaces with
  | some principal, [first, second, room, participant] =>
    if first = "qortal" ∧ second = "call" ∧ room = principal.roomId ∧ safeId participant = true ∧
        allowedTrack request.name = true then
      some participant
    else none
  | _, _ => none

namespace Relay

def setHandler (s : Relay) (n : Nat) (handler : Handler) : Relay :=
  { s with handlers := s.handlers.set n handler }

def setRequest (s : Relay) (r : Nat) (request : Request) : Relay :=
  { s with requests := s.requests.set r request }

/-- A handler and its request. -/
def lookup (s : Relay) (r : Nat) : Option (Request × Handler) := do
  let request ← s.requests[r]?
  let handler ← s.handlers[request.owner]?
  return (request, handler)

/-- The subscription belongs to the handler. -/
def ownedBy (s : Relay) (n : Nat) (r : Nat) : Bool := (s.requests[r]?).any fun request => request.owner = n

/-- `broker.add` under the lock. -/
def insertSubscription (s : Relay) (r : Nat) (key : String) : Dict String (List Nat) :=
  s.subscriptions.set key (((s.subscriptions.get? key).getD []).insert r)

def removeOwner (s : Relay) (n : Nat) : Relay :=
  { s with
    subscriptions := (s.subscriptions.mapValues fun set => set.filter fun r => !s.ownedBy n r).filter
      fun _ set => !set.isEmpty
    stopped := s.stopped ++ s.subscriptions.values.flatten.filter fun r => s.ownedBy n r }

def next (s : Relay) : RelayAction → Option Relay
  | .connect => some { s with handlers := s.handlers ++ [{}] }
  | .authenticate n principal => do
    let handler ← s.handlers[n]?
    if handler.phase = .serving ∧ handler.principal.isNone then
      return s.setHandler n { handler with principal := some principal, ready := true }
    else none
  | .revoke n => do
    let handler ← s.handlers[n]?
    if handler.phase = .serving then return s.setHandler n { handler with ready := false } else none
  | .request n namespaces name => do
    let handler ← s.handlers[n]?
    if handler.phase ≠ .returned then
      return { s with requests := s.requests ++ [{ owner := n, namespaces, name }] }
    else none
  | .check r => do
    let (request, handler) ← s.lookup r
    if request.phase = .called then
      let accepted := handler.ready && (handler.participant request).isSome
      return s.setRequest r { request with phase := if accepted then .checked else .finished }
    else none
  | .count r => do
    let (request, handler) ← s.lookup r
    if request.phase = .checked then
      let count := handler.subscriptionCount + 1
      return (s.setHandler request.owner { handler with subscriptionCount := count }).setRequest r
        { request with phase := if count > maxSubscriptions then .finished else .counted }
    else none
  | .accept r => do
    let (request, _) ← s.lookup r
    if request.phase = .counted then return s.setRequest r { request with phase := .accepted } else none
  | .insert r => do
    let (request, handler) ← s.lookup r
    let principal ← handler.principal
    let participant ← handler.participant request
    if request.phase = .accepted then
      return { s.setRequest r { request with phase := .inserted } with
        subscriptions := s.insertSubscription r (trackKey principal.roomId participant request.name)
        late := if handler.phase = .serving then s.late else s.late ++ [r] }
    else none
  | .forward r => do
    let (request, _) ← s.lookup r
    if request.phase = .inserted then
      return { s.setRequest r { request with phase := .finished } with forwards := s.forwards ++ [r] }
    else none
  | .removeOwner n => do
    let handler ← s.handlers[n]?
    if handler.phase = .serving then
      return (s.removeOwner n).setHandler n { handler with phase := .removed }
    else none
  | .close n => do
    let handler ← s.handlers[n]?
    if handler.phase = .removed ∧
        s.requests.all (fun request => request.owner ≠ n || request.phase = .finished) = true then
      return s.setHandler n { handler with phase := .returned }
    else none

end Relay

def relay : System Relay RelayAction where
  init s := s = {}
  step s action s' := s.next action = some s'

end CallBackend.Media
