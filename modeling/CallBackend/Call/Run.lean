import CallBackend.Lib.System
import CallBackend.Call.Effect

/-!
# Runs of the call service

The service as a transition system. A step is one invocation of a handler on behalf of a session, a
disconnect notification, a timer that fires, a restart of the process, or a change of a session
outside the service: a new provisional session, an accepted identity proof, or removal from the
session manager. A session may prove any address at any time. Every step brings its own clock
readings and its own outcomes of the file and database writes.

The sends of a handler come after its locked part and change nothing here, so a step is the locked
part.
-/

namespace CallBackend.Call

open Exec

/-- What happens to a session outside the call service. -/
inductive SessionChange where
  | opened
  | authenticated (address : String)
  | removed

/-- `SessionManager.create`, `promote` and `discard`. -/
def SessionView.change (view : SessionView) : SessionChange → SessionView
  | .opened =>
    if view.provisional ∧ view.authenticatedUser = none then { view with registered := true } else view
  | .authenticated address =>
    if view.registered then { view with provisional := false, authenticatedUser := some address }
    else view
  | .removed => { view with registered := false }

inductive Action where
  | message (session : SessionId) (content : Json)
  | disconnected (session : SessionId)
  | expireRoom (roomId : RoomId)
  | expireScreen (roomId : RoomId) (shareId : String)
  | changed (session : SessionId) (change : SessionChange)
  /-- A new process: it finds whatever sessions the database holds. -/
  | restart (views : SessionId → SessionView) (metadata : SessionId → Option RoomId)

structure Event where
  action : Action
  now : Nanos := 0
  monotonic : Nanos := 0
  writeSucceeds : Nat → Bool := fun _ => true

structure World where
  views : SessionId → SessionView := fun _ => {}
  call : CallState := {}
  /-- The session whose `call_create` opened the room that has this id now. -/
  creators : RoomId → Option SessionId := fun _ => none

inductive Handler where
  | create
  | join
  | leave
  | groupKey
  | moderate
  | screen
  deriving DecidableEq

/-- The handlers `CallService.__init__` registers, by message type. -/
def handlerFor (message : Json) : Option Handler :=
  match message.get "type" with
  | .str "call_create" => some .create
  | .str "call_join" => some .join
  | .str "call_leave" => some .leave
  | .str "call_group_key" => some .groupKey
  | .str "call_moderate" => some .moderate
  | .str "call_screen_start" => some .screen
  | .str "call_screen_stop" => some .screen
  | .str "call_screen_renew" => some .screen
  | _ => none

def dispatch (setup : Setup) (session : SessionId) (message : Json) : CallM Plan :=
  match handlerFor message with
  | some .create => create setup session message
  | some .join => join setup session message
  | some .leave => leave setup session message
  | some .groupKey => forwardGroupKey session message
  | some .moderate => moderate setup session message
  | some .screen => screenControl session message
  | none => return {}

def Action.run (setup : Setup) : Action → CallM Plan
  | .message session content => dispatch setup session content
  | .disconnected session => Call.disconnected setup session
  | .expireRoom roomId => Call.expireRoom setup roomId
  | .expireScreen roomId shareId => Call.expireScreen roomId shareId
  | .changed _ _ => return {}
  | .restart _ metadata => do
    modify (Call.restart setup metadata)
    return {}

def Action.views (views : SessionId → SessionView) : Action → SessionId → SessionView
  | .changed session change => Function.update views session ((views session).change change)
  | .restart loaded _ => loaded
  | _ => views

/-- The creators of the rooms, when a message of this session may have opened one. -/
def Action.creators (before after : CallState) (creators : RoomId → Option SessionId) :
    Action → RoomId → Option SessionId
  | .message session _ => fun roomId =>
    if before.rooms.get? roomId = none ∧ (after.rooms.get? roomId).isSome then some session
    else creators roomId
  | _ => creators

namespace World

def env (w : World) (event : Event) : CallEnv :=
  ⟨w.views, event.now, event.monotonic, event.writeSucceeds⟩

/-- What the service answers to an event: the plan of sends, or the exception of the handler. -/
def outcome (setup : Setup) (w : World) (event : Event) : Except Exn Plan :=
  (event.action.run setup (w.env event) w.call).1

def next (setup : Setup) (w : World) (event : Event) : World where
  views := event.action.views w.views
  call := (event.action.run setup (w.env event) w.call).2
  creators := event.action.creators w.call (event.action.run setup (w.env event) w.call).2 w.creators

end World

/-- The call service from the first start of a deployment. -/
def service (setup : Setup) : System World Event where
  init w := w = {}
  step w event w' := w' = w.next setup event

def World.after (setup : Setup) (w : World) (events : List Event) : World :=
  events.foldl (World.next setup) w

theorem reachable_after {setup : Setup} {w : World}
    (h : (service setup).Reachable System.anyStep w) (events : List Event) :
    (service setup).Reachable System.anyStep (w.after setup events) := by
  induction events generalizing w with
  | nil => exact h
  | cons event rest ih => exact ih (.step h trivial rfl)

/-- Every event of the sequence meets the condition where it happens. -/
def World.Meets (setup : Setup) (ok : World → Event → Prop) : World → List Event → Prop
  | _, [] => True
  | w, event :: rest => ok w event ∧ Meets setup ok (w.next setup event) rest

theorem reachable_after_of_meets {setup : Setup} {ok : World → Event → Prop} {w : World}
    {events : List Event} (h : (service setup).Reachable ok w) (hmeets : w.Meets setup ok events) :
    (service setup).Reachable ok (w.after setup events) := by
  induction events generalizing w with
  | nil => exact h
  | cons event rest ih => exact ih (.step h hmeets.1 rfl) hmeets.2

/-- The operation a message asks for, once it has been checked. -/
def requestedOperation (setup : Setup) (view : SessionView) (session : SessionId) (message : Json) :
    Option Operation :=
  match handlerFor message with
  | some .create => (CreateRequest.parse setup view message).toOption.map (.create session)
  | some .join => (JoinRequest.parse setup view message).toOption.map (.join session)
  | some .leave => (LeaveRequest.parse view message).toOption.map fun _ => .depart session
  | some .groupKey => none
  | some .moderate => (ModerateRequest.parse view message).toOption.map (.moderate session)
  | some .screen => some .screen
  | none => none

def Action.operation (setup : Setup) (views : SessionId → SessionView) : Action → Option Operation
  | .message session content => requestedOperation setup (views session) session content
  | .disconnected session => some (.depart session)
  | .expireRoom roomId => some (.expire roomId)
  | .expireScreen _ _ => some .screen
  | _ => none

def Action.Advances (setup : Setup) (env : CallEnv) (action : Action) (c c' : Registry) : Prop :=
  c' = c ∨ ∃ op, action.operation setup env.sessions = some op ∧ Effects setup env op c c'

section Steps

variable {setup : Setup} {env : CallEnv} {st : CallState}

/-- However it ends, the computation advances the registry as the action may. -/
def Performs (setup : Setup) (env : CallEnv) (st : CallState) (action : Action) (m : CallM Plan) :
    Prop :=
  wp m env st (fun _ st' => action.Advances setup env st.toRegistry st'.toRegistry)
    (fun _ st' => action.Advances setup env st.toRegistry st'.toRegistry)

variable {action : Action}

theorem performs_of_moves {op : Operation} {m : CallM Plan}
    (hop : action.operation setup env.sessions = some op) (h : Moves setup env op st m) :
    Performs setup env st action m :=
  wp_mono h (fun _ _ he => .inr ⟨op, hop, he⟩) fun _ _ he => .inr ⟨op, hop, he⟩

variable {session : SessionId}

theorem performs_parsed {α : Type} {parse : SessionView → Except Exn α} {m : α → CallM Plan}
    (h : ∀ request, parse (env.sessions session) = .ok request →
      ∃ op, action.operation setup env.sessions = some op ∧ Moves setup env op st (m request)) :
    Performs setup env st action (parsed session parse >>= m) := by
  unfold Performs parsed
  simp only [wp_do, wp_lift]
  refine ⟨fun request hrequest => ?_, fun _ _ => .inl rfl⟩
  obtain ⟨op, hop, hmoves⟩ := h request hrequest
  exact performs_of_moves hop hmoves

theorem performs_forwardGroupKey (action : Action) (session : SessionId) (message : Json) :
    Performs setup env st action (forwardGroupKey session message) := by
  unfold Performs forwardGroupKey parsed
  simp only [wp_do, wp_lift, wp_require, wp_ensure]
  exact ⟨fun _ _ => ⟨fun _ _ => ⟨fun _ => ⟨fun _ _ => ⟨fun _ => ⟨fun _ _ => .inl rfl, fun _ => .inl rfl⟩,
    fun _ => .inl rfl⟩, fun _ => .inl rfl⟩, fun _ => .inl rfl⟩, fun _ => .inl rfl⟩, fun _ _ => .inl rfl⟩

theorem performs_dispatch (hkeyed : st.toRegistry.Keyed) (session : SessionId) (message : Json) :
    Performs setup env st (.message session message) (dispatch setup session message) := by
  unfold dispatch
  cases hhandler : handlerFor message with
  | none => exact .inl rfl
  | some handler =>
    cases handler with
    | create =>
      refine performs_parsed fun request hrequest => ⟨.create session request, ?_, ?_⟩
      · simp [Action.operation, requestedOperation, hhandler, hrequest, Except.toOption]
      · exact moves_createLocked session request
    | join =>
      refine performs_parsed fun request hrequest => ⟨.join session request, ?_, ?_⟩
      · simp [Action.operation, requestedOperation, hhandler, hrequest, Except.toOption]
      · exact moves_joinLocked hkeyed session request
    | leave =>
      refine performs_parsed fun request hrequest => ⟨.depart session, ?_, ?_⟩
      · simp [Action.operation, requestedOperation, hhandler, hrequest, Except.toOption]
      · exact moves_leaveLocked hkeyed (LeaveRequest.parse_ok hrequest).1
    | groupKey => exact performs_forwardGroupKey _ session message
    | moderate =>
      refine performs_parsed fun request hrequest => ⟨.moderate session request, ?_, ?_⟩
      · simp [Action.operation, requestedOperation, hhandler, hrequest, Except.toOption]
      · exact moves_moderateLocked hkeyed session request
    | screen =>
      refine performs_parsed fun request _ => ⟨.screen, ?_, ?_⟩
      · simp [Action.operation, requestedOperation, hhandler]
      · exact moves_screenControlLocked hkeyed session request

theorem performs_run (hkeyed : st.toRegistry.Keyed)
    (haction : ∀ views metadata, action ≠ .restart views metadata) :
    Performs setup env st action (action.run setup) := by
  cases action with
  | message session content => exact performs_dispatch hkeyed session content
  | disconnected session => exact performs_of_moves rfl (moves_disconnected hkeyed session)
  | expireRoom roomId => exact performs_of_moves rfl (moves_expireRoom hkeyed roomId)
  | expireScreen roomId shareId => exact performs_of_moves rfl (moves_expireScreen hkeyed roomId shareId)
  | changed session change => exact .inl rfl
  | restart views metadata => exact absurd rfl (haction views metadata)

theorem parsed_eq {α : Type} {parse : SessionView → Except Exn α} {request : α}
    (h : parse (env.sessions session) = .ok request) :
    parsed session parse env st = (.ok request, st) := by
  change (lift (parse (env.sessions session)) : CallM α) env st = _
  rw [h]
  rfl

variable {views : SessionId → SessionView}

/-- The message or the disconnection an operation on the registry comes from. -/
def Operation.ComesFrom (setup : Setup) (views : SessionId → SessionView) (action : Action) :
    Operation → Prop
  | .create session request => ∃ content, action = .message session content ∧
      handlerFor content = some .create ∧ CreateRequest.parse setup (views session) content = .ok request
  | .join session request => ∃ content, action = .message session content ∧
      handlerFor content = some .join ∧ JoinRequest.parse setup (views session) content = .ok request
  | .moderate session request => ∃ content, action = .message session content ∧
      handlerFor content = some .moderate ∧ ModerateRequest.parse (views session) content = .ok request
  | .depart session => action = .disconnected session ∨ ∃ content request,
      action = .message session content ∧ handlerFor content = some .leave ∧
        LeaveRequest.parse (views session) content = .ok request
  | _ => True

theorem comesFrom_of_operation {op : Operation} (h : action.operation setup views = some op) :
    op.ComesFrom setup views action := by
  cases action with
  | message session content =>
    simp only [Action.operation, requestedOperation] at h
    split at h <;> rename_i hhandler
    · obtain ⟨request, hrequest, rfl⟩ := Option.map_eq_some_iff.1 h
      exact ⟨content, rfl, hhandler, except_toOption_eq_some.1 hrequest⟩
    · obtain ⟨request, hrequest, rfl⟩ := Option.map_eq_some_iff.1 h
      exact ⟨content, rfl, hhandler, except_toOption_eq_some.1 hrequest⟩
    · obtain ⟨request, hrequest, rfl⟩ := Option.map_eq_some_iff.1 h
      exact .inr ⟨content, request, rfl, hhandler, except_toOption_eq_some.1 hrequest⟩
    · cases h
    · obtain ⟨request, hrequest, rfl⟩ := Option.map_eq_some_iff.1 h
      exact ⟨content, rfl, hhandler, except_toOption_eq_some.1 hrequest⟩
    · cases h
      exact trivial
    · cases h
  | disconnected session =>
    cases h
    exact .inl rfl
  | expireRoom roomId | expireScreen roomId shareId =>
    cases h
    exact trivial
  | changed session change | restart views metadata => cases h

theorem run_create {request : CreateRequest}
    (h : action.operation setup env.sessions = some (.create session request)) :
    action.run setup env st = createLocked setup session request env st := by
  obtain ⟨content, rfl, hhandler, hparse⟩ := comesFrom_of_operation h
  simp only [Action.run, dispatch, hhandler]
  exact bind_ok (parsed_eq hparse)

theorem run_join {request : JoinRequest}
    (h : action.operation setup env.sessions = some (.join session request)) :
    action.run setup env st = joinLocked setup session request env st := by
  obtain ⟨content, rfl, hhandler, hparse⟩ := comesFrom_of_operation h
  simp only [Action.run, dispatch, hhandler]
  exact bind_ok (parsed_eq hparse)

theorem run_moderate {request : ModerateRequest}
    (h : action.operation setup env.sessions = some (.moderate session request)) :
    action.run setup env st = moderateLocked setup session request env st := by
  obtain ⟨content, rfl, hhandler, hparse⟩ := comesFrom_of_operation h
  simp only [Action.run, dispatch, hhandler]
  exact bind_ok (parsed_eq hparse)

theorem creators_of_exists {before after : CallState} {creators : RoomId → Option SessionId}
    (action : Action) {roomId : RoomId} (h : before.rooms.get? roomId ≠ none) :
    action.creators before after creators roomId = creators roomId := by
  cases action <;> simp [Action.creators, h]

theorem creators_of_create {before after : CallState} {creators : RoomId → Option SessionId}
    {request : CreateRequest} {roomId : RoomId}
    (h : action.operation setup views = some (.create session request))
    (hbefore : before.rooms.get? roomId = none) (hafter : after.rooms.get? roomId ≠ none) :
    action.creators before after creators roomId = some session := by
  obtain ⟨content, rfl, -⟩ := comesFrom_of_operation h
  simp [Action.creators, hbefore, Option.isSome_iff_ne_none, hafter]

/-- What a computation does, an event does that runs it. -/
theorem served {w : World} {event : Event} {m : CallM Plan} {post : Plan → CallState → Prop}
    {fail : Exn → CallState → Prop}
    (hrun : event.action.run setup (w.env event) w.call = m (w.env event) w.call)
    (h : wp m (w.env event) w.call post fail) :
    (∃ plan, w.outcome setup event = .ok plan ∧ post plan (w.next setup event).call) ∨
      ∃ e, w.outcome setup event = .error e ∧ fail e (w.next setup event).call := by
  have houtcome : w.outcome setup event = (m (w.env event) w.call).1 := congrArg Prod.fst hrun
  have hcall : (w.next setup event).call = (m (w.env event) w.call).2 := congrArg Prod.snd hrun
  rw [houtcome, hcall]
  unfold wp at h
  split at h <;> rename_i hm <;> rw [hm]
  · exact .inl ⟨_, rfl, h⟩
  · exact .inr ⟨_, rfl, h⟩

theorem next_registry {w : World} (hkeyed : w.call.toRegistry.Keyed) (event : Event) :
    (∃ views metadata, event.action = .restart views metadata ∧
      (w.next setup event).call = restart setup metadata w.call) ∨
    event.action.Advances setup (w.env event) w.call.toRegistry
      (w.next setup event).call.toRegistry := by
  by_cases hrestart : ∃ views metadata, event.action = .restart views metadata
  · obtain ⟨views, metadata, haction⟩ := hrestart
    refine .inl ⟨views, metadata, haction, ?_⟩
    simp only [World.next, haction]
    rfl
  · push Not at hrestart
    exact .inr (wp_final (p := fun st' : CallState =>
      event.action.Advances setup (w.env event) w.call.toRegistry st'.toRegistry)
      (performs_run hkeyed hrestart))

end Steps

/-! ### A sample deployment

The texts and settings of the runs that later modules exhibit.
-/

namespace Sample

def setup : Setup where
  sha256 _ := List.replicate 32 0
  isP256Point _ := true
  policyDirectory := true

/-- Thirty-two zero bytes in base64url. -/
def zeros : String := "AAAAAAAAAAAAAAAAAAAAAAAAAAAAAAAAAAAAAAAAAAA"

/-- An uncompressed point in base64url. -/
def point : String :=
  "BAAAAAAAAAAAAAAAAAAAAAAAAAAAAAAAAAAAAAAAAAAAAAAAAAAAAAAAAAAAAAAAAAAAAAAAAAAAAAAAAAAAAAA"

def request (kind : String) (fields : List (String × Json)) : Json :=
  .obj ([("type", .str kind), ("requestId", .str "request-1"), ("roomId", .str "room")] ++ fields)

def keys : List (String × Json) :=
  [("keyAgreementPublicKey", .str point), ("signingPublicKey", .str zeros)]

def create (session : SessionId) : Event :=
  { action := .message session (request "call_create" (("inviteTokenHash", .str zeros) :: keys)) }

def join (session : SessionId) : Event :=
  { action := .message session (request "call_join" (("inviteToken", .str zeros) :: keys)) }

def leave (session : SessionId) : Event := { action := .message session (request "call_leave" []) }

def remove (session : SessionId) (target : ParticipantId) : Event :=
  { action := .message session (request "call_moderate"
      [("targetParticipantId", .str target), ("operation", .str "remove")]) }

def opened (session : SessionId) : Event := { action := .changed session .opened }

def authenticated (session : SessionId) (address : String) : Event :=
  { action := .changed session (.authenticated address) }

/-- Alice opens a call in the session `host`. -/
def opening : List Event := [opened "host", authenticated "host" "alice", create "host"]

/-- Bob joins it in the session `guest`. -/
def joining : List Event := [opened "guest", authenticated "guest" "bob", join "guest"]

end Sample

end CallBackend.Call
