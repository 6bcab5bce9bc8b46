import CallBackend.Call.Policy

/-!
# Broadcasts and failing recipients

A handler sends after it has released the lock: its reply, then one payload to every recipient it
computed under the lock, then, for a moderation, the result. `_safe_send` swallows a `RuntimeError`
and lets every other exception of `ApplicationSession.send` through, so a peer that withholds its
acknowledgements ends the loop. `broadcast_attempted_iff` says exactly which outcomes of the sends
leave somebody out; `Plan.Addressed` is for whom a broadcast is.
-/

namespace CallBackend.Call

open Exec

/-! ### Sending -/

/-- Sending: the environment says what the n-th call of `ApplicationSession.send` raises, and the
state lists the calls made so far. -/
abbrev SendM : Type → Type := Exec (Nat → Option Exn) (List Send) Exn

def send (s : Send) : SendM Unit := do
  let attempts ← get
  modify (· ++ [s])
  match (← ask) attempts.length with
  | none => pure ()
  | some error => raise error

def safeSend (s : Send) : SendM Bool :=
  rescue (do
    send s
    return true) fun error => if error.isRuntimeError then return false else raise error

def broadcast (sessions : List SessionId) (payload : Payload) : SendM Unit :=
  forEach (fun session => do let _ ← safeSend (session, payload)) sessions

/-- What a handler does after its locked part. -/
def Plan.perform (plan : Plan) : SendM Unit := do
  forEach (fun s => do let _ ← safeSend s) plan.before
  match plan.payload with
  | some payload => Call.broadcast plan.recipients payload
  | none => pure ()
  forEach (fun s => do let _ ← safeSend s) plan.after

/-- The calls of `ApplicationSession.send` an event leads to. -/
def World.attempts (setup : Setup) (w : World) (event : Event) (raises : Nat → Option Exn) : List Send :=
  match w.outcome setup event with
  | .ok plan => (plan.perform raises []).2
  | .error _ => []

/-- The n-th send returns, or raises what `_safe_send` catches. -/
def Tolerated (raises : Nat → Option Exn) (n : Nat) : Prop := (raises n).all Exn.isRuntimeError = true

def Plan.Attempted (plan : Plan) (attempts : List Send) : Prop :=
  ∀ i, i < plan.broadcast.length → attempts[plan.before.length + i]? = plan.broadcast[i]?

instance (raises : Nat → Option Exn) (n : Nat) : Decidable (Tolerated raises n) :=
  inferInstanceAs (Decidable (_ = true))

/-- The sends made when the first is the n-th: up to the first failure that is not tolerated. -/
def reached (raises : Nat → Option Exn) : Nat → List Send → List Send
  | _, [] => []
  | n, s :: rest => s :: if Tolerated raises n then reached raises (n + 1) rest else []

section Sending

variable {raises : Nat → Option Exn}

theorem getElem?_reached_iff (n : Nat) (sends : List Send) (i : Nat) (h : i < sends.length) :
    (reached raises n sends)[i]? = sends[i]? ↔ ∀ j < i, Tolerated raises (n + j) := by
  induction sends generalizing n i with
  | nil => cases h
  | cons s rest ih =>
    cases i with
    | zero => simp [reached]
    | succ i =>
      have hi : i < rest.length := Nat.lt_of_succ_lt_succ h
      simp only [reached, List.getElem?_cons_succ]
      split_ifs with hn
      · rw [ih (n + 1) i hi]
        refine ⟨fun hall j hj => ?_, fun hall j hj => ?_⟩
        · cases j with
          | zero => exact hn
          | succ j =>
            have hj := hall j (Nat.lt_of_succ_lt_succ hj)
            rwa [Nat.add_assoc, Nat.add_comm 1] at hj
        · have hj := hall (j + 1) (Nat.succ_lt_succ hj)
          rwa [Nat.add_comm j, ← Nat.add_assoc] at hj
      · refine ⟨fun hsome => ?_, fun hall => absurd (hall 0 (Nat.succ_pos i)) hn⟩
        rw [List.getElem?_eq_getElem hi] at hsome
        cases hsome

theorem wp_safeSend {s : Send} {attempts : List Send} {post : Bool → List Send → Prop}
    {fail : Exn → List Send → Prop}
    (hpost : Tolerated raises attempts.length → ∀ sent, post sent (attempts ++ [s]))
    (hfail : ¬Tolerated raises attempts.length → ∀ error, fail error (attempts ++ [s])) :
    wp (safeSend s) raises attempts post fail := by
  unfold safeSend send
  simp only [wp_rescue, wp_do]
  cases hraises : raises attempts.length with
  | none =>
    simp only [wp_pure]
    exact hpost (by simp [Tolerated, hraises]) true
  | some error =>
    simp only [wp_do, wp_ite]
    exact ⟨fun h => hpost (by simpa [Tolerated, hraises] using h) false,
      fun h => hfail (by simpa [Tolerated, hraises] using h) error⟩

theorem forEach_safeSend (sends attempts : List Send) :
    (forEach (fun s => do let _ ← safeSend s) sends raises attempts).2 =
      attempts ++ reached raises attempts.length sends := by
  refine wp_final (p := fun log => log = attempts ++ reached raises attempts.length sends) ?_
  induction sends generalizing attempts with
  | nil => simp [forEach, reached]
  | cons s rest ih =>
    simp only [forEach, wp_do]
    refine wp_safeSend (fun h _ => ?_) fun h _ => ?_
    · have hrest := ih (attempts ++ [s])
      simpa [reached, h] using hrest
    · simp [reached, h]

theorem Plan.perform_eq (plan : Plan) :
    plan.perform = forEach (fun s => do let _ ← safeSend s) plan.sends := by
  unfold Plan.perform Plan.sends Plan.broadcast
  rw [forEach_append, forEach_append]
  cases plan.payload with
  | none => simp [forEach]
  | some payload => simp [forEach_map, Call.broadcast]

theorem World.attempts_of_ok {setup : Setup} {w : World} {event : Event} {plan : Plan}
    (h : w.outcome setup event = .ok plan) :
    w.attempts setup event raises = reached raises 0 plan.sends := by
  rw [World.attempts, h]
  change (plan.perform raises []).2 = _
  rw [plan.perform_eq, forEach_safeSend]
  rfl

end Sending

/-! ### Recipients -/

/-- The broadcast is for the members of the room as the operation leaves it; when the room has
ended, for the members it had, except its creator. -/
def Plan.Addressed (c c' : Registry) (plan : Plan) : Prop :=
  match plan.payload with
  | none => True
  | some (.callMembership snapshot) => ∃ room, c'.rooms.get? room.roomId = some room ∧
      snapshot = room.snapshot ∧ plan.recipients = room.sessions
  | some (.callScreenState roomId screen) => ∃ room, c'.rooms.get? roomId = some room ∧
      screen = room.screenSnapshot ∧ plan.recipients = room.sessions
  | some (.callEnded roomId _) => ∃ room, c.rooms.get? roomId = some room ∧
      c'.rooms.get? roomId = none ∧ plan.recipients = room.guestSessions
  | some _ => False

/-- After an operation that completed under the lock, its payload is attempted for every recipient
exactly if no send before the last recipient's raises anything but a `RuntimeError`. -/
theorem broadcast_attempted_iff (setup : Setup) (w : World) (event : Event) (plan : Plan)
    (hplan : w.outcome setup event = .ok plan) (raises : Nat → Option Exn) :
    plan.Attempted (w.attempts setup event raises) ↔
      (plan.broadcast ≠ [] → ∀ n, n + 1 < plan.before.length + plan.broadcast.length →
        Tolerated raises n) := by
  have hturn : ∀ i, i < plan.broadcast.length →
      ((w.attempts setup event raises)[plan.before.length + i]? = plan.broadcast[i]? ↔
        ∀ n < plan.before.length + i, Tolerated raises n) := by
    intro i hi
    have hsend : plan.sends[plan.before.length + i]? = plan.broadcast[i]? := by
      rw [Plan.sends, List.append_assoc, List.getElem?_append_right (Nat.le_add_right _ _),
        Nat.add_sub_cancel_left, List.getElem?_append_left hi]
    have hlength : plan.before.length + i < plan.sends.length := by
      simp only [Plan.sends, List.length_append]
      omega
    rw [World.attempts_of_ok hplan, ← hsend, getElem?_reached_iff 0 plan.sends _ hlength]
    simp only [Nat.zero_add]
  constructor
  · intro hall hne n hn
    have hpos : 0 < plan.broadcast.length := List.length_pos_iff.2 hne
    have hlast : plan.broadcast.length - 1 < plan.broadcast.length := by omega
    exact (hturn _ hlast).1 (hall _ hlast) n (by omega)
  · intro htolerated i hi
    have hne : plan.broadcast ≠ [] := List.length_pos_iff.1 (Nat.zero_lt_of_lt hi)
    exact (hturn i hi).2 fun n hn => htolerated hne n (by omega)

open Sample in
theorem broadcast_attempted_iff_leave :
    let w := World.after setup {} (opening ++ joining)
    ∃ plan, w.outcome setup (Sample.leave "guest") = .ok plan ∧ plan.recipients = ["host"] ∧
      plan.Attempted (w.attempts setup (Sample.leave "guest") fun _ => none) := by
  intro w
  have hplan : ((w.outcome setup (Sample.leave "guest")).toOption.any fun plan =>
      plan.recipients = ["host"]) = true := by decide +kernel
  cases houtcome : w.outcome setup (Sample.leave "guest") with
  | error e => simp [houtcome, Except.toOption] at hplan
  | ok plan =>
    have hrecipients : plan.recipients = ["host"] := by
      simpa [houtcome, Except.toOption] using hplan
    exact ⟨plan, rfl, hrecipients, (broadcast_attempted_iff _ _ _ plan houtcome _).2 fun _ _ _ => rfl⟩

open Sample in
/-- The divergence: Bob leaves, the reply to Bob meets a full queue, and Alice is not told. -/
theorem broadcast_lost_after_failed_reply :
    let w := World.after setup {} (opening ++ joining)
    let raises : Nat → Option Exn := fun n =>
      if n = 0 then some (.backpressureError "maximum unacknowledged message count reached") else none
    (service setup).Reachable System.anyStep w ∧
    ∃ plan, w.outcome setup (Sample.leave "guest") = .ok plan ∧ plan.recipients = ["host"] ∧
      plan.payload.isSome ∧
      ∀ payload, ("host", payload) ∉ w.attempts setup (Sample.leave "guest") raises := by
  intro w raises
  have hplan : ((w.outcome setup (Sample.leave "guest")).toOption.any fun plan =>
      plan.recipients = ["host"] ∧ plan.payload.isSome) = true := by decide +kernel
  have hattempts : (w.attempts setup (Sample.leave "guest") raises).map Prod.fst = ["guest"] := by
    decide +kernel
  refine ⟨reachable_after (.init rfl) _, ?_⟩
  cases houtcome : w.outcome setup (Sample.leave "guest") with
  | error e => simp [houtcome, Except.toOption] at hplan
  | ok plan =>
    obtain ⟨hrecipients, hpayload⟩ : plan.recipients = ["host"] ∧ plan.payload.isSome := by
      simpa [houtcome, Except.toOption] using hplan
    refine ⟨plan, rfl, hrecipients, hpayload, fun payload hmem => ?_⟩
    have hhost := List.mem_map_of_mem (f := Prod.fst) hmem
    rw [hattempts] at hhost
    simp at hhost

end CallBackend.Call
