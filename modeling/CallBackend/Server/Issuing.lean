import CallBackend.Lib.System
import CallBackend.Lib.Window
import CallBackend.Server.Custody

/-!
# How many attach tokens there can be

The token authority by itself, under any sequence of calls whose times do not go back. A ledger adds
to the authority's tables the history they only remember in part: when tokens were issued to each
user, and when they were issued to each session since the session was last invalidated. The tables
lag behind, because queues are pruned and grants expire only when somebody calls; invalidation drops
the queue of a session and leaves that of its user. The four limits hold all the same.
-/

namespace CallBackend.Server

open Function

/-! ### Calls -/

inductive AuthorityCall where
  /-- `issue`; the expiry of the grant is set by the call. -/
  | issue (token : Token) (grant : AttachGrant)
  /-- `consume`, as far as it concerns the authority. -/
  | consume (token : Token)
  | release (token : Token)
  | invalidateSession (id : SessionId)
  | outstanding

/-- The grant with the expiry `issue` gives it. -/
def AttachGrant.issuedAt (grant : AttachGrant) (config : Config) (now : Nanos) : AttachGrant :=
  { grant with expiresAt := now + config.privateTransportAttachTtl }

/-- The call is an `issue` that the limits allow. -/
def AuthorityCall.admitted (config : Config) (tokens : TokenAuthority) (now : Nanos) :
    AuthorityCall → Option AttachGrant
  | .issue _ grant =>
    if (tokens.swept now).admits config (grant.issuedAt config now) then
      some (grant.issuedAt config now)
    else none
  | _ => none

/-- The authority's tables after a call. -/
def TokenAuthority.call (config : Config) (tokens : TokenAuthority) (now : Nanos) :
    AuthorityCall → TokenAuthority
  | .issue token grant =>
    if (tokens.swept now).admits config (grant.issuedAt config now) then
      (tokens.swept now).record now token (grant.issuedAt config now)
    else tokens.swept now
  | .consume token =>
    { tokens.expireGrants now with grants := (tokens.expireGrants now).grants.erase token }
  | .release token => { tokens with grants := tokens.grants.erase token }
  | .invalidateSession id => tokens.invalidate id
  | .outstanding => tokens.expireGrants now

theorem issue_tokens (setup : Setup) (env : ServerEnv) (st : ServerState) (token : Token)
    (grant : AttachGrant) : ((issue setup token (grant.issuedAt setup.config env.now)) env st).2.tokens =
      st.tokens.call setup.config env.now (.issue token grant) := by
  have hwp : Exec.wp (issue setup token (grant.issuedAt setup.config env.now)) env st
      (fun _ st' => st'.tokens = st.tokens.call setup.config env.now (.issue token grant))
      fun _ _ => False := by
    simp only [issue, Exec.wp_bind, Exec.wp_ask, Exec.wp_modify, Exec.wp_get, Exec.wp_ite, Exec.wp_pure]
    refine ⟨fun hadmits => ?_, fun hlimited => ?_⟩
    · exact (if_pos hadmits).symm
    · exact (if_neg hlimited).symm
  exact Exec.wp_final (p := fun st' => st'.tokens = st.tokens.call setup.config env.now (.issue token grant))
    (Exec.wp_mono hwp (fun _ _ h => h) fun _ _ h => h.elim)

/-! ### Histories -/

structure Ledger where
  tokens : TokenAuthority := {}
  clock : Nanos := 0
  /-- When tokens were issued to a user. -/
  users : String → List Nanos := fun _ => []
  /-- When tokens were issued to a session since it was last invalidated. -/
  sessions : SessionId → List Nanos := fun _ => []

/-- The history after a token has been issued or a session invalidated. -/
def Ledger.noted (ledger : Ledger) (config : Config) (now : Nanos) (call : AuthorityCall) : Ledger :=
  match call, call.admitted config ledger.tokens now with
  | _, some grant => { ledger with
      users := update ledger.users grant.authenticatedUser
        (ledger.users grant.authenticatedUser ++ [now])
      sessions := update ledger.sessions grant.logicalSessionId
        (ledger.sessions grant.logicalSessionId ++ [now]) }
  | .invalidateSession id, none => { ledger with
      sessions := update ledger.sessions id [] }
  | _, none => ledger

def Ledger.next (config : Config) (ledger : Ledger) (now : Nanos) (call : AuthorityCall) : Ledger :=
  { ledger.noted config now call with
    tokens := ledger.tokens.call config now call
    clock := now }

def authority (config : Config) : System Ledger (Nanos × AuthorityCall) where
  init ledger := ledger = {}
  step ledger event ledger' :=
    ledger.clock ≤ event.1 ∧ ledger' = ledger.next config event.1 event.2

/-! ### What the tables still know -/

/-- The queue of a key; a key without an entry has an empty queue. -/
def queueOf {κ : Type} [DecidableEq κ] (queues : Dict κ (List Nanos)) (key : κ) : List Nanos :=
  (queues.get? key).getD []

structure Ledger.Sound (config : Config) (ledger : Ledger) : Prop where
  unused : ∀ id, ledger.tokens.unused id ≤ config.privateTransportMaxUnusedPerSession
  total : ledger.tokens.grants.size ≤ config.privateTransportMaxUnusedGlobal
  userKept : ∀ user, Window.Kept (seconds 60) ledger.clock (ledger.users user)
    (queueOf ledger.tokens.issuedUsers user)
  userBounded : ∀ user, Window.Bounded (seconds 60)
    config.privateTransportBootstrapsPerUserPerMinute (ledger.users user)
  sessionKept : ∀ id, Window.Kept (seconds 60) ledger.clock (ledger.sessions id)
    (queueOf ledger.tokens.issued id)
  sessionBounded : ∀ id, Window.Bounded (seconds 60) config.privateTransportBootstrapsPerMinute
    (ledger.sessions id)

section Queues

variable {κ : Type} [DecidableEq κ] {queues : Dict κ (List Nanos)} {now : Nanos}

theorem queueOf_pruned (key : κ) :
    queueOf (pruned now queues) key = Window.prune (seconds 60) now (queueOf queues key) := by
  rw [queueOf, pruned, Dict.get?_filter, Dict.get?_mapValues, queueOf]
  cases queues.get? key with
  | none => rfl
  | some queue =>
    have hprune : recentTimes now queue = Window.prune (seconds 60) now queue := rfl
    rw [Option.map_some, Option.getD_some, hprune]
    cases hqueue : Window.prune (seconds 60) now queue with
    | nil => rfl
    | cons time rest => rfl

theorem queueOf_set (key other : κ) (queue : List Nanos) :
    queueOf (queues.set key queue) other = update (queueOf queues) key queue other := by
  rw [queueOf, Dict.get?_set]
  by_cases h : key = other
  · rw [if_pos h, h, update_self, Option.getD_some]
  · rw [if_neg h, update_of_ne (Ne.symm h), queueOf]

theorem queueOf_erase (key other : κ) :
    queueOf (queues.erase key) other = update (queueOf queues) key [] other := by
  rw [queueOf, Dict.get?_erase]
  by_cases h : key = other
  · rw [if_pos h, h, update_self, Option.getD_none]
  · rw [if_neg h, update_of_ne (Ne.symm h), queueOf]

end Queues

/-! ### The limits -/

section Limits

variable {config : Config} {tokens : TokenAuthority} {ledger ledger' : Ledger} {now : Nanos}

theorem unused_eq_countP (tokens : TokenAuthority) (id : SessionId) :
    tokens.unused id =
      tokens.grants.values.countP fun grant => decide (grant.logicalSessionId = id) := by
  rw [TokenAuthority.unused, List.countP_eq_length_filter]

theorem admits_iff {grant : AttachGrant} : tokens.admits config grant = true ↔
    (queueOf tokens.issued grant.logicalSessionId).length <
        config.privateTransportBootstrapsPerMinute ∧
      (queueOf tokens.issuedUsers grant.authenticatedUser).length <
        config.privateTransportBootstrapsPerUserPerMinute ∧
      tokens.unused grant.logicalSessionId < config.privateTransportMaxUnusedPerSession ∧
      tokens.grants.size < config.privateTransportMaxUnusedGlobal := by
  simp only [TokenAuthority.admits, queueOf, Bool.and_eq_true, decide_eq_true_eq, and_assoc]

theorem Ledger.Sound.fewer (h : ledger.Sound config) (hclock : ledger.clock ≤ now)
    {grants : Dict Token AttachGrant}
    (hunused : ∀ p, grants.values.countP p ≤ ledger.tokens.grants.values.countP p)
    (hsize : grants.size ≤ ledger.tokens.grants.size) :
    Ledger.Sound config { ledger with
      tokens := { ledger.tokens with grants := grants }
      clock := now } := by
  refine ⟨fun id => ?_, hsize.trans h.total, fun user => (h.userKept user).mono hclock, h.userBounded,
    fun id => (h.sessionKept id).mono hclock, h.sessionBounded⟩
  have hle := h.unused id
  rw [unused_eq_countP] at hle ⊢
  exact (hunused _).trans hle

theorem Ledger.Sound.swept (h : ledger.Sound config) (hclock : ledger.clock ≤ now) :
    Ledger.Sound config { ledger with tokens := ledger.tokens.swept now, clock := now } := by
  have hfewer := h.fewer hclock
    (Dict.countP_filter_le (fun _ grant => decide (now < grant.expiresAt)) ledger.tokens.grants)
    (Dict.size_filter_le _ _)
  refine ⟨hfewer.unused, hfewer.total, fun user => ?_, h.userBounded, fun id => ?_, h.sessionBounded⟩
  · have hkept := (h.userKept user).prune hclock
    rw [← queueOf_pruned] at hkept
    exact hkept
  · have hkept := (h.sessionKept id).prune hclock
    rw [← queueOf_pruned] at hkept
    exact hkept

theorem Ledger.Sound.record (h : ledger.Sound config) (token : Token) {grant : AttachGrant}
    (hadmits : ledger.tokens.admits config grant = true) :
    Ledger.Sound config { ledger with
      tokens := ledger.tokens.record ledger.clock token grant
      users := update ledger.users grant.authenticatedUser
        (ledger.users grant.authenticatedUser ++ [ledger.clock])
      sessions := update ledger.sessions grant.logicalSessionId
        (ledger.sessions grant.logicalSessionId ++ [ledger.clock]) } := by
  obtain ⟨hsession, huser, hunused, htotal⟩ := admits_iff.mp hadmits
  constructor
  · intro id
    have hle := Dict.countP_set_le ledger.tokens.grants token grant
      fun grant => decide (grant.logicalSessionId = id)
    have hold := h.unused id
    rw [unused_eq_countP] at hold ⊢
    refine hle.trans ?_
    by_cases hid : grant.logicalSessionId = id
    · rw [unused_eq_countP, hid] at hunused
      rw [if_pos (decide_eq_true hid)]
      exact hunused
    · rw [if_neg (by simpa using hid)]
      exact hold
  · exact (Dict.size_set_le _ _ _).trans htotal
  · intro user
    simp only [TokenAuthority.record]
    rw [queueOf_set]
    by_cases heq : user = grant.authenticatedUser
    · rw [heq, update_self, update_self]
      exact (h.userKept _).push ledger.clock
    · rw [update_of_ne heq, update_of_ne heq]
      exact h.userKept user
  · intro user
    by_cases heq : user = grant.authenticatedUser
    · simp only [heq, update_self]
      exact (h.userBounded _).push (h.userKept _) huser
    · simp only [update_of_ne heq]
      exact h.userBounded user
  · intro id
    simp only [TokenAuthority.record]
    rw [queueOf_set]
    by_cases heq : id = grant.logicalSessionId
    · rw [heq, update_self, update_self]
      exact (h.sessionKept _).push ledger.clock
    · rw [update_of_ne heq, update_of_ne heq]
      exact h.sessionKept id
  · intro id
    by_cases heq : id = grant.logicalSessionId
    · simp only [heq, update_self]
      exact (h.sessionBounded _).push (h.sessionKept _) hsession
    · simp only [update_of_ne heq]
      exact h.sessionBounded id

theorem Ledger.Sound.invalidate (h : ledger.Sound config) (hclock : ledger.clock ≤ now)
    (id : SessionId) :
    Ledger.Sound config { ledger with
      tokens := ledger.tokens.invalidate id
      clock := now
      sessions := update ledger.sessions id [] } := by
  have hfewer := h.fewer hclock
    (Dict.countP_filter_le (fun _ grant => decide (grant.logicalSessionId ≠ id)) ledger.tokens.grants)
    (Dict.size_filter_le _ _)
  refine ⟨hfewer.unused, hfewer.total, hfewer.userKept, h.userBounded, fun other => ?_, fun other => ?_⟩
  · simp only [TokenAuthority.invalidate]
    rw [queueOf_erase]
    by_cases heq : other = id
    · rw [heq, update_self, update_self]
      exact Window.Kept.nil _ _
    · rw [update_of_ne heq, update_of_ne heq]
      exact hfewer.sessionKept other
  · by_cases heq : other = id
    · simp only [heq, update_self]
      exact Window.Bounded.nil _ _
    · simp only [update_of_ne heq]
      exact h.sessionBounded other

theorem Ledger.Sound.next (h : ledger.Sound config) (hclock : ledger.clock ≤ now)
    (call : AuthorityCall) : (ledger.next config now call).Sound config := by
  cases call with
  | issue token grant =>
    have hswept := h.swept hclock
    by_cases hadmits : (ledger.tokens.swept now).admits config (grant.issuedAt config now) = true
    · have hrecord := hswept.record token hadmits
      simpa only [Ledger.next, Ledger.noted, AuthorityCall.admitted, TokenAuthority.call,
        if_pos hadmits] using hrecord
    · simpa only [Ledger.next, Ledger.noted, AuthorityCall.admitted, TokenAuthority.call,
        if_neg hadmits] using hswept
  | consume token =>
    refine h.fewer hclock (fun p => ?_) ((Dict.size_erase_le _ _).trans (Dict.size_filter_le _ _))
    exact (Dict.countP_erase_le _ _ p).trans (Dict.countP_filter_le _ _ p)
  | release token =>
    exact h.fewer hclock (Dict.countP_erase_le ledger.tokens.grants token) (Dict.size_erase_le _ _)
  | invalidateSession id => exact h.invalidate hclock id
  | outstanding =>
    exact h.fewer hclock (Dict.countP_filter_le _ ledger.tokens.grants) (Dict.size_filter_le _ _)

theorem reachable_sound (h : (authority config).Reachable System.anyStep ledger) :
    ledger.Sound config := by
  refine h.invariant (fun ledger hinit => ?_) fun ledger event ledger' hsound _ hstep => ?_
  · rw [show ledger = {} from hinit]
    exact ⟨fun _ => Nat.zero_le _, Nat.zero_le _, fun _ => Window.Kept.nil _ _,
      fun _ => Window.Bounded.nil _ _, fun _ => Window.Kept.nil _ _, fun _ => Window.Bounded.nil _ _⟩
  · rw [hstep.2]
    exact hsound.next hstep.1 event.2

/-! ### A refused call -/

theorem get?_swept {token : Token} {grant : AttachGrant} (hlive : now < grant.expiresAt) :
    (tokens.swept now).grants.get? token = some grant ↔ tokens.grants.get? token = some grant := by
  change (tokens.grants.filter _).get? token = some grant ↔ _
  rw [Dict.get?_filter, Option.filter_eq_some_iff]
  exact ⟨fun h => h.1, fun h => ⟨h, decide_eq_true hlive⟩⟩

/-- The limits of the token authority, after any calls whose times do not go back. Whether or not
they have expired, a session has no more grants than it may, and neither have all sessions together.
No window of a minute holds more tokens issued to a user than the limit, whatever invalidations
happen, and none more tokens issued to a session between two invalidations of it. An `issue` that is
refused changes no unexpired grant, no time of issue inside the window, and no history. -/
theorem token_limits_hold (h : (authority config).Reachable System.anyStep ledger) :
    (∀ id, ledger.tokens.unused id ≤ config.privateTransportMaxUnusedPerSession) ∧
    ledger.tokens.grants.size ≤ config.privateTransportMaxUnusedGlobal ∧
    (∀ user, Window.Bounded (seconds 60) config.privateTransportBootstrapsPerUserPerMinute
      (ledger.users user)) ∧
    (∀ id, Window.Bounded (seconds 60) config.privateTransportBootstrapsPerMinute
      (ledger.sessions id)) ∧
    ∀ now token grant, (AuthorityCall.issue token grant).admitted config ledger.tokens now = none →
      let refused := ledger.next config now (.issue token grant)
      (∀ other live, now < live.expiresAt → (refused.tokens.grants.get? other = some live ↔
        ledger.tokens.grants.get? other = some live)) ∧
      (∀ time, now < time + seconds 60 →
        (∀ user, (queueOf refused.tokens.issuedUsers user).count time =
          (queueOf ledger.tokens.issuedUsers user).count time) ∧
        ∀ id, (queueOf refused.tokens.issued id).count time =
          (queueOf ledger.tokens.issued id).count time) ∧
      refused.users = ledger.users ∧ refused.sessions = ledger.sessions := by
  have hsound := reachable_sound h
  refine ⟨hsound.unused, hsound.total, hsound.userBounded, hsound.sessionBounded,
    fun now token grant hrefused => ?_⟩
  have hlimited : ¬(ledger.tokens.swept now).admits config (grant.issuedAt config now) = true := by
    intro hadmits
    simp only [AuthorityCall.admitted, if_pos hadmits] at hrefused
    exact nomatch hrefused
  have hnext : ledger.next config now (.issue token grant) =
      { ledger with tokens := ledger.tokens.swept now, clock := now } := by
    simp only [Ledger.next, Ledger.noted, AuthorityCall.admitted, TokenAuthority.call, if_neg hlimited]
  dsimp only
  rw [hnext]
  refine ⟨fun other live hlive => get?_swept hlive, fun time htime => ⟨fun user => ?_, fun id => ?_⟩, ?_⟩
  · change (queueOf (pruned now ledger.tokens.issuedUsers) user).count time = _
    rw [queueOf_pruned, Window.count_prune htime]
  · change (queueOf (pruned now ledger.tokens.issued) id).count time = _
    rw [queueOf_pruned, Window.count_prune htime]
  · exact ⟨rfl, rfl⟩

end Limits

def Sample.issuedLedger : Ledger :=
  Ledger.next {} {} (seconds 10) (.issue "token" {
    logicalSessionId := "alice-1", logicalConnectionId := "tab", authenticatedUser := "alice"
    qappIdentity := ("app", "APP"), purpose := .game, ownerBindingHash := "hash", nonce := "nonce"
    expiresAt := 0 })

open Sample in
theorem token_limits_hold_issued :
    issuedLedger.users "alice" = [seconds 10] ∧
      issuedLedger.tokens.unused "alice-1" ≤ 4 ∧
      Window.Bounded (seconds 60) 8 (issuedLedger.users "alice") := by
  have hstep : (authority {}).step {} (seconds 10, .issue "token" {
      logicalSessionId := "alice-1", logicalConnectionId := "tab", authenticatedUser := "alice"
      qappIdentity := ("app", "APP"), purpose := .game, ownerBindingHash := "hash", nonce := "nonce"
      expiresAt := 0 }) issuedLedger := ⟨Nat.zero_le _, rfl⟩
  have hlimits := token_limits_hold (.step (.init rfl) trivial hstep)
  exact ⟨by decide +kernel, hlimits.1 "alice-1", hlimits.2.2.1 "alice"⟩

end CallBackend.Server
