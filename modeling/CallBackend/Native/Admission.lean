import CallBackend.Basic
import CallBackend.Lib.Dict
import CallBackend.Lib.System
import CallBackend.Lib.Tally

/-!
# Admission to the private transport

`admissionGate` counts connections with two channels: a token in `active` for every connection, and a
token in `pending` until the connection has attached. A connection gives its pending token back once,
when it attaches or when it closes, whichever comes first. The windows of all connections may grow by a
common budget, of which each lease notes its share and gives it back when it closes.

The steps are the sections under a lock, and each operation on a channel. The callback that runs when
the context of a connection is done takes three steps: the section under the lock, `release` and the
receive from `active`. A receive that finds its channel empty is not a step: it waits.

The diagnostics are left out; they change nothing here.
-/

namespace CallBackend.Native

namespace Gate

abbrev Conn : Type := Nat

def capacity : Nat := 256

/-- The windows may grow by 256 MiB. -/
def growthBudget : UInt64 := 256 * 1024 * 1024

def attachTimeout : Nanos := seconds 10

inductive Closing where
  | waiting
  /-- After the section under the lock. -/
  | unlocked
  /-- After `release`. -/
  | released
  | done
  deriving DecidableEq

/-- `admissionLease`, with its context. -/
structure Lease where
  started : Nanos
  /-- `release` has been called. -/
  released : Bool := false
  conn : Option Conn := none
  extra : UInt64 := 0
  closed : Bool := false
  accepted : Bool := false
  /-- The context is done. -/
  cancelled : Bool := false
  closing : Closing := .waiting
  /-- The connection has attached. -/
  attached : Bool := false
  deriving DecidableEq

inductive Timer where
  | armed
  | stopped
  /-- The time has come; the function of the timer is on its way. -/
  | fired
  deriving DecidableEq

/-- The variables of a call of `guardAttachment`. -/
structure Guard where
  lease : Nat
  deadline : Nanos
  expired : Bool := false
  timer : Timer := .armed
  /-- The checks have been passed, and `release` is next. -/
  attaching : Bool := false
  deriving DecidableEq

end Gate

open Gate

/-- `admissionGate`, with the leases it has handed out. -/
structure Gate where
  pending : Nat := 0
  active : Nat := 0
  extra : UInt64 := 0
  connections : Dict Conn Nat := ∅
  leases : List Lease := []
  guards : List Guard := []
  /-- Calls of `admit` between the two channels. -/
  admitting : Nat := 0
  /-- Calls of `admit` that have found `pending` full. -/
  retreating : Nat := 0

inductive GateAction where
  /-- `admit` tries to send to `active`. -/
  | admitActive
  /-- `admit` tries to send to `pending`. -/
  | admitPending (now : Nanos)
  /-- `admit` takes its token back from `active`. -/
  | retreat
  /-- The context of a connection is done. -/
  | cancel (n : Nat)
  | close (n : Nat)
  | release (n : Nat)
  | leave (n : Nat)
  | bind (conn : Conn)
  | grow (conn : Conn) (delta : UInt64)
  /-- `guardAttachment` is called. -/
  | guard (n : Nat)
  | fire (k : Nat) (now : Nanos)
  | expire (k : Nat)
  /-- The timer is stopped because the context is done. -/
  | stop (k : Nat)
  /-- The function that `guardAttachment` returns makes its checks. -/
  | attach (k : Nat) (now : Nanos)
  /-- It calls `release`. -/
  | attached (k : Nat)

namespace Gate

def setLease (g : Gate) (n : Nat) (lease : Lease) : Gate := { g with leases := g.leases.set n lease }

def setGuard (g : Gate) (k : Nat) (guard : Guard) : Gate := { g with guards := g.guards.set k guard }

def grow (g : Gate) (conn : Conn) (delta : UInt64) : Bool × Gate :=
  match g.connections.get? conn with
  | none => (false, g)
  | some n =>
    match g.leases[n]? with
    | none => (false, g)
    | some lease =>
      if lease.closed ∨ delta > growthBudget - g.extra then (false, g)
      else (true, { g.setLease n { lease with extra := lease.extra + delta } with
        extra := g.extra + delta })

def bind (g : Gate) (n : Nat) (lease : Lease) (conn : Conn) : Gate :=
  if lease.closed then g.setLease n { lease with accepted := true }
  else { g.setLease n { lease with accepted := true, conn := some conn } with
    connections := g.connections.set conn n }

/-- The section of the callback under the lock. -/
def close (g : Gate) (n : Nat) (lease : Lease) : Gate :=
  { g.setLease n { lease with closed := true, closing := .unlocked } with
    extra := g.extra - lease.extra
    connections :=
      match lease.conn with
      | some conn => g.connections.erase conn
      | none => g.connections }

/-- `release`, and what else changes in the lease with it. The receive waits for a token. -/
def release (g : Gate) (n : Nat) (lease : Lease) : Option Gate :=
  if lease.released then some (g.setLease n lease)
  else if g.pending = 0 then none
  else some { g.setLease n { lease with released := true } with pending := g.pending - 1 }

def next (context : Conn → Nat) (g : Gate) : GateAction → Option Gate
  | .admitActive =>
    if g.active < capacity then
      some { g with active := g.active + 1, admitting := g.admitting + 1 }
    else some g
  | .admitPending now =>
    if g.admitting = 0 then none
    else if g.pending < capacity then
      some { g with
        pending := g.pending + 1
        admitting := g.admitting - 1
        leases := g.leases ++ [{ started := now }] }
    else some { g with admitting := g.admitting - 1, retreating := g.retreating + 1 }
  | .retreat =>
    if g.retreating = 0 ∨ g.active = 0 then none
    else some { g with active := g.active - 1, retreating := g.retreating - 1 }
  | .cancel n =>
    match g.leases[n]? with
    | some lease => some (g.setLease n { lease with cancelled := true })
    | none => none
  | .close n =>
    match g.leases[n]? with
    | some lease =>
      if lease.cancelled ∧ lease.closing = .waiting then some (g.close n lease) else none
    | none => none
  | .release n =>
    match g.leases[n]? with
    | some lease =>
      if lease.closing = .unlocked then g.release n { lease with closing := .released } else none
    | none => none
  | .leave n =>
    match g.leases[n]? with
    | some lease =>
      if lease.closing = .released ∧ g.active ≠ 0 then
        some { g.setLease n { lease with closing := .done } with active := g.active - 1 }
      else none
    | none => none
  | .bind conn =>
    match g.leases[context conn]? with
    | some lease => some (g.bind (context conn) lease conn)
    | none => none
  | .grow conn delta => some (g.grow conn delta).2
  | .guard n =>
    match g.leases[n]? with
    | some lease =>
      some { g with guards := g.guards ++ [{ lease := n, deadline := lease.started + attachTimeout }] }
    | none => none
  | .fire k now =>
    match g.guards[k]? with
    | some guard =>
      if guard.timer = .armed ∧ guard.deadline ≤ now then
        some (g.setGuard k { guard with timer := .fired })
      else none
    | none => none
  | .expire k =>
    match g.guards[k]? with
    | some guard =>
      if guard.timer = .fired then some (g.setGuard k { guard with expired := true }) else none
    | none => none
  | .stop k =>
    match g.guards[k]? with
    | some guard =>
      if guard.timer = .armed ∧ ((g.leases[guard.lease]?).any (·.cancelled)) = true then
        some (g.setGuard k { guard with timer := .stopped })
      else none
    | none => none
  | .attach k now =>
    match g.guards[k]? with
    | some guard =>
      if guard.expired ∨ ((g.leases[guard.lease]?).any (·.cancelled)) = true ∨ guard.deadline ≤ now ∨
          guard.timer ≠ .armed then
        some g
      else some (g.setGuard k { guard with timer := .stopped, attaching := true })
    | none => none
  | .attached k =>
    match g.guards[k]? with
    | some guard =>
      match g.leases[guard.lease]? with
      | some lease =>
        if guard.attaching then
          (g.setGuard k { guard with attaching := false }).release guard.lease
            { lease with attached := true }
        else none
      | none => none
    | none => none

end Gate

def gate (context : Conn → Nat) : System Gate GateAction where
  init g := g = {}
  step g action g' := g.next context action = some g'

namespace Gate

/-! ### What a step does -/

def Guarded (g : Gate) (guards : List Guard) : Prop :=
  ∀ guard ∈ guards, guard.lease < g.leases.length ∨ ∃ old ∈ g.guards, guard.lease = old.lease

/-- The effect of a step, whichever action it belongs to. -/
inductive Effect (context : Conn → Nat) (g : Gate) : Gate → Prop
  | idle (guards : List Guard) : g.Guarded guards → Effect context g { g with guards }
  | entered : g.active < capacity →
      Effect context g { g with active := g.active + 1, admitting := g.admitting + 1 }
  | admitted (now : Nanos) : g.admitting ≠ 0 → g.pending < capacity →
      Effect context g { g with
        pending := g.pending + 1
        admitting := g.admitting - 1
        leases := g.leases ++ [{ started := now }] }
  | turned : g.admitting ≠ 0 → ¬g.pending < capacity →
      Effect context g { g with admitting := g.admitting - 1, retreating := g.retreating + 1 }
  | retreated : g.retreating ≠ 0 → g.active ≠ 0 →
      Effect context g { g with active := g.active - 1, retreating := g.retreating - 1 }
  | noted {n : Nat} {lease : Lease} (conn : Option Conn) (accepted cancelled : Bool)
      (connections : Dict Conn Nat) : g.leases[n]? = some lease →
      (connections = g.connections ∨ ∃ conn, context conn = n ∧ connections = g.connections.set conn n) →
      Effect context g { g with
        connections
        leases := g.leases.set n { lease with conn, accepted, cancelled } }
  | grown {n : Nat} {lease : Lease} {delta : UInt64} : g.leases[n]? = some lease →
      lease.closed = false → delta ≤ growthBudget - g.extra →
      Effect context g { g with
        extra := g.extra + delta
        leases := g.leases.set n { lease with extra := lease.extra + delta } }
  | closed {n : Nat} {lease : Lease} (connections : Dict Conn Nat) : g.leases[n]? = some lease →
      lease.closing = .waiting →
      (connections = g.connections ∨ ∃ conn, connections = g.connections.erase conn) →
      Effect context g { g with
        extra := g.extra - lease.extra
        connections
        leases := g.leases.set n { lease with closed := true, closing := .unlocked } }
  | released {n : Nat} {lease : Lease} (guards : List Guard) (closing : Closing) (attached : Bool) :
      g.leases[n]? = some lease → g.Guarded guards →
      (lease.closing = .unlocked ∧ closing = .released ∧ attached = lease.attached ∨
        closing = lease.closing ∧ attached = true) →
      Effect context g { g with
        pending := if lease.released then g.pending else g.pending - 1
        guards
        leases := g.leases.set n { lease with released := true, closing, attached } }
  | left {n : Nat} {lease : Lease} : g.leases[n]? = some lease → lease.closing = .released →
      Effect context g { g with
        active := g.active - 1
        leases := g.leases.set n { lease with closing := .done } }

section Steps

variable {context : Conn → Nat} {g g' : Gate} {n : Nat} {lease : Lease}

theorem guarded_self (g : Gate) : g.Guarded g.guards := fun guard hmem => .inr ⟨guard, hmem, rfl⟩

theorem guarded_set {k : Nat} {guard guard' : Guard} (hguard : g.guards[k]? = some guard)
    (hlease : guard'.lease = guard.lease) : g.Guarded (g.guards.set k guard') := by
  intro other hmem
  rcases List.mem_or_eq_of_mem_set hmem with hold | heq
  · exact .inr ⟨other, hold, rfl⟩
  · exact .inr ⟨guard, List.mem_of_getElem? hguard, heq ▸ hlease⟩

theorem effect_grow (conn : Conn) (delta : UInt64) : Effect context g (g.grow conn delta).2 := by
  unfold grow
  cases g.connections.get? conn with
  | none => exact .idle g.guards g.guarded_self
  | some n =>
    dsimp only
    cases hlease : g.leases[n]? with
    | none => exact .idle g.guards g.guarded_self
    | some lease =>
      dsimp only
      split_ifs with hrefused
      · exact .idle g.guards g.guarded_self
      · rw [not_or, Bool.not_eq_true] at hrefused
        exact .grown hlease hrefused.1 (UInt64.not_lt.1 hrefused.2)

theorem effect_bind (conn : Conn) (hlease : g.leases[context conn]? = some lease) :
    Effect context g (g.bind (context conn) lease conn) := by
  unfold bind
  split_ifs
  · exact .noted lease.conn true lease.cancelled g.connections hlease (.inl rfl)
  · exact .noted (some conn) true lease.cancelled _ hlease (.inr ⟨conn, rfl, rfl⟩)

theorem effect_close (hlease : g.leases[n]? = some lease) (hwaiting : lease.closing = .waiting) :
    Effect context g (g.close n lease) := by
  refine .closed _ hlease hwaiting ?_
  cases lease.conn with
  | none => exact .inl rfl
  | some conn => exact .inr ⟨conn, rfl⟩

theorem effect_release {guards : List Guard} {closing : Closing} {attached : Bool}
    (hlease : g.leases[n]? = some lease) (hguards : g.Guarded guards)
    (hcause : lease.closing = .unlocked ∧ closing = .released ∧ attached = lease.attached ∨
      closing = lease.closing ∧ attached = true)
    (h : Gate.release { g with guards } n { lease with closing, attached } = some g') :
    Effect context g g' := by
  unfold release at h
  cases hreleased : lease.released with
  | true =>
    have heffect : Effect context g _ := .released guards closing attached hlease hguards hcause
    simp only [hreleased, if_true, Option.some.injEq] at h heffect
    rw [← h]
    exact heffect
  | false =>
    simp only [hreleased, Bool.false_eq_true, if_false] at h
    split_ifs at h
    have heffect : Effect context g _ := .released guards closing attached hlease hguards hcause
    simp only [hreleased, Bool.false_eq_true, if_false] at heffect
    cases h
    exact heffect

theorem effect_of_next {action : GateAction} (h : g.next context action = some g') :
    Effect context g g' := by
  cases action with
  | admitActive =>
    simp only [next] at h
    split_ifs at h with hroom <;> rw [← Option.some.inj h]
    · exact .entered hroom
    · exact .idle g.guards g.guarded_self
  | admitPending now =>
    simp only [next] at h
    split_ifs at h with hnone hroom <;> rw [← Option.some.inj h]
    · exact .admitted now hnone hroom
    · exact .turned hnone hroom
  | retreat =>
    simp only [next] at h
    split_ifs at h with hnone
    rw [not_or] at hnone
    cases h
    exact .retreated hnone.1 hnone.2
  | cancel n =>
    cases hlease : g.leases[n]? with
    | none => simp [next, hlease] at h
    | some lease =>
      simp only [next, hlease, Option.some.injEq] at h
      rw [← h]
      exact .noted lease.conn lease.accepted true g.connections hlease (.inl rfl)
  | close n =>
    cases hlease : g.leases[n]? with
    | none => simp [next, hlease] at h
    | some lease =>
      simp only [next, hlease] at h
      split_ifs at h with hready
      cases h
      exact effect_close hlease hready.2
  | release n =>
    cases hlease : g.leases[n]? with
    | none => simp [next, hlease] at h
    | some lease =>
      simp only [next, hlease] at h
      split_ifs at h with hunlocked
      exact effect_release hlease g.guarded_self (.inl ⟨hunlocked, rfl, rfl⟩) h
  | leave n =>
    cases hlease : g.leases[n]? with
    | none => simp [next, hlease] at h
    | some lease =>
      simp only [next, hlease] at h
      split_ifs at h with hready
      cases h
      exact .left hlease hready.1
  | bind conn =>
    cases hlease : g.leases[context conn]? with
    | none => simp [next, hlease] at h
    | some lease =>
      simp only [next, hlease, Option.some.injEq] at h
      rw [← h]
      exact effect_bind conn hlease
  | grow conn delta =>
    cases h
    exact effect_grow conn delta
  | guard n =>
    cases hlease : g.leases[n]? with
    | none => simp [next, hlease] at h
    | some lease =>
      simp only [next, hlease, Option.some.injEq] at h
      rw [← h]
      refine .idle _ fun guard hmem => ?_
      rcases List.mem_append.1 hmem with hold | hnew
      · exact .inr ⟨guard, hold, rfl⟩
      · rw [List.mem_singleton.1 hnew]
        exact .inl (List.getElem?_eq_some_iff.1 hlease).1
  | fire k now =>
    cases hguard : g.guards[k]? with
    | none => simp [next, hguard] at h
    | some guard =>
      simp only [next, hguard] at h
      split_ifs at h
      cases h
      exact .idle _ (guarded_set hguard rfl)
  | expire k =>
    cases hguard : g.guards[k]? with
    | none => simp [next, hguard] at h
    | some guard =>
      simp only [next, hguard] at h
      split_ifs at h
      cases h
      exact .idle _ (guarded_set hguard rfl)
  | stop k =>
    cases hguard : g.guards[k]? with
    | none => simp [next, hguard] at h
    | some guard =>
      simp only [next, hguard] at h
      split_ifs at h
      cases h
      exact .idle _ (guarded_set hguard rfl)
  | attach k now =>
    cases hguard : g.guards[k]? with
    | none => simp [next, hguard] at h
    | some guard =>
      simp only [next, hguard] at h
      split_ifs at h <;> rw [← Option.some.inj h]
      · exact .idle g.guards g.guarded_self
      · exact .idle _ (guarded_set hguard rfl)
  | attached k =>
    cases hguard : g.guards[k]? with
    | none => simp [next, hguard] at h
    | some guard =>
      cases hlease : g.leases[guard.lease]? with
      | none => simp [next, hguard, hlease] at h
      | some lease =>
        simp only [next, hguard, hlease] at h
        split_ifs at h
        refine effect_release hlease ?_ (.inr ⟨rfl, rfl⟩) h
        exact guarded_set hguard rfl

end Steps

/-! ### What holds between steps -/

open Tally

def Lease.isPending (lease : Lease) : Bool := !lease.released

def Lease.isActive (lease : Lease) : Bool := decide (lease.closing ≠ .done)

/-- The share of the growth budget that is out. -/
def Lease.share (lease : Lease) : Nat := if lease.closed then 0 else lease.extra.toNat

structure Lease.Sound (lease : Lease) : Prop where
  closed : lease.closed = decide (lease.closing ≠ .waiting)
  released : lease.released =
    (lease.attached || decide (lease.closing = .released ∨ lease.closing = .done))

structure Sound (context : Conn → Nat) (g : Gate) : Prop where
  pending : g.pending = tally (fun lease => lease.isPending.toNat) g.leases
  active : g.active = tally (fun lease => lease.isActive.toNat) g.leases + g.admitting
  retreating : g.retreating = 0
  capacity : g.active ≤ capacity
  extra : g.extra.toNat = tally Lease.share g.leases
  budget : g.extra ≤ growthBudget
  leases : ∀ (n : Nat) (lease : Lease), g.leases[n]? = some lease → lease.Sound
  connections : ∀ conn n, g.connections.get? conn = some n → n = context conn
  guards : ∀ guard ∈ g.guards, guard.lease < g.leases.length

section Invariant

variable {context : Conn → Nat} {g g' : Gate} {n : Nat} {lease lease' : Lease}

theorem Lease.Sound.isPending_le (h : lease.Sound) : lease.isPending.toNat ≤ lease.isActive.toNat := by
  by_cases hdone : lease.closing = .done
  · have hreleased : lease.released = true := by simp [h.released, hdone]
    simp [Lease.isPending, hreleased]
  · have hactive : lease.isActive = true := decide_eq_true hdone
    rw [hactive]
    exact Bool.toNat_le _

/-- There is always room in `pending` for a connection that has got into `active`. -/
theorem Sound.pending_le (h : g.Sound context) : g.pending + g.admitting ≤ Gate.capacity := by
  have hle : tally (fun lease => lease.isPending.toNat) g.leases ≤
      tally (fun lease => lease.isActive.toNat) g.leases := by
    refine tally_le_tally fun lease hmem => ?_
    obtain ⟨n, hlease⟩ := List.mem_iff_getElem?.1 hmem
    exact (h.leases n lease hlease).isPending_le
  have hactive := h.active
  have hpending := h.pending
  have hcapacity := h.capacity
  omega

theorem Sound.set_lease (h : ∀ (n : Nat) (lease : Lease), g.leases[n]? = some lease → lease.Sound)
    (hlease : g.leases[n]? = some lease) (hsound : lease'.Sound) (m : Nat) (other : Lease)
    (hother : (g.leases.set n lease')[m]? = some other) : other.Sound := by
  rcases System.lookup_set hlease hother with ⟨-, rfl⟩ | ⟨-, hold⟩
  · exact hsound
  · exact h m other hold

theorem Lease.share_of_open (lease : Lease) (hopen : lease.closed = false) :
    lease.share = lease.extra.toNat := by
  rw [Lease.share, hopen, if_neg Bool.false_ne_true]

theorem Sound.pending_set (h : g.Sound context) (hlease : g.leases[n]? = some lease)
    (hsame : lease'.isPending = lease.isPending) :
    g.pending = tally (fun lease => lease.isPending.toNat) (g.leases.set n lease') :=
  h.pending.trans (tally_set_same hlease (congrArg Bool.toNat hsame)).symm

theorem Sound.active_set (h : g.Sound context) (hlease : g.leases[n]? = some lease)
    (hsame : lease'.isActive = lease.isActive) :
    g.active = tally (fun lease => lease.isActive.toNat) (g.leases.set n lease') + g.admitting := by
  have hset : tally (fun lease => lease.isActive.toNat) (g.leases.set n lease') = _ :=
    tally_set_same hlease (congrArg Bool.toNat hsame)
  rw [hset]
  exact h.active

theorem Sound.extra_set (h : g.Sound context) (hlease : g.leases[n]? = some lease)
    (hsame : lease'.share = lease.share) :
    g.extra.toNat = tally Lease.share (g.leases.set n lease') :=
  h.extra.trans (tally_set_same hlease hsame).symm

theorem Sound.extra_le (h : g.Sound context) (hlease : g.leases[n]? = some lease)
    (hopen : lease.closed = false) : lease.extra.toNat ≤ g.extra.toNat := by
  have hshare : lease.share ≤ tally Lease.share g.leases := weight_le_tally _ hlease
  rwa [h.extra, ← lease.share_of_open hopen]

theorem toNat_add_of_le {extra delta : UInt64} (hbudget : extra ≤ growthBudget)
    (hdelta : delta ≤ growthBudget - extra) :
    (extra + delta).toNat = extra.toNat + delta.toNat ∧ extra + delta ≤ growthBudget := by
  have hbound : growthBudget.toNat = 268435456 := rfl
  have hle := UInt64.le_iff_toNat_le.1 hdelta
  rw [UInt64.toNat_sub_of_le _ _ hbudget] at hle
  have hextra := UInt64.le_iff_toNat_le.1 hbudget
  have hsum : (extra + delta).toNat = extra.toNat + delta.toNat := by
    rw [UInt64.toNat_add]
    exact Nat.mod_eq_of_lt (by omega)
  refine ⟨hsum, UInt64.le_iff_toNat_le.2 ?_⟩
  rw [hsum]
  omega

theorem Sound.guards_set (h : g.Sound context) (lease' : Lease) {guards : List Guard}
    (hguards : g.Guarded guards) : ∀ guard ∈ guards, guard.lease < (g.leases.set n lease').length := by
  intro guard hmem
  rw [List.length_set]
  rcases hguards guard hmem with hlt | ⟨old, hold, heq⟩
  · exact hlt
  · exact heq ▸ h.guards old hold

theorem Sound.noted (h : g.Sound context) (hlease : g.leases[n]? = some lease) (conn : Option Conn)
    (accepted cancelled : Bool) {connections : Dict Conn Nat}
    (hconnections : connections = g.connections ∨
      ∃ conn, context conn = n ∧ connections = g.connections.set conn n) :
    Sound context { g with
      connections, leases := g.leases.set n { lease with conn, accepted, cancelled } } where
  pending := h.pending_set hlease rfl
  active := h.active_set hlease rfl
  retreating := h.retreating
  capacity := h.capacity
  extra := h.extra_set hlease rfl
  budget := h.budget
  leases := Sound.set_lease h.leases hlease
    ⟨(h.leases n lease hlease).closed, (h.leases n lease hlease).released⟩
  connections conn m hget := by
    rcases hconnections with rfl | ⟨conn', hcontext, rfl⟩
    · exact h.connections conn m hget
    · simp only [Dict.get?_set] at hget
      split_ifs at hget with heq
      · rw [← heq, ← Option.some.inj hget, hcontext]
      · exact h.connections conn m hget
  guards := h.guards_set _ g.guarded_self

theorem Sound.grown (h : g.Sound context) (hlease : g.leases[n]? = some lease)
    (hopen : lease.closed = false) {delta : UInt64} (hdelta : delta ≤ growthBudget - g.extra) :
    Sound context { g with
      extra := g.extra + delta
      leases := g.leases.set n { lease with extra := lease.extra + delta } } where
  pending := h.pending_set hlease rfl
  active := h.active_set hlease rfl
  retreating := h.retreating
  capacity := h.capacity
  extra := by
    have hset := tally_set Lease.share { lease with extra := lease.extra + delta } hlease
    have hsum := (toNat_add_of_le h.budget hdelta).1
    have hown : (lease.extra + delta).toNat = lease.extra.toNat + delta.toNat := by
      have hle := h.extra_le hlease hopen
      have hlt := (g.extra + delta).toNat_lt
      rw [UInt64.toNat_add]
      exact Nat.mod_eq_of_lt (by omega)
    have hshare : Lease.share { lease with extra := lease.extra + delta } =
        lease.extra.toNat + delta.toNat := by
      simp only [Lease.share, hopen, Bool.false_eq_true, if_false, hown]
    rw [hshare, lease.share_of_open hopen] at hset
    have hextra := h.extra
    dsimp only
    omega
  budget := (toNat_add_of_le h.budget hdelta).2
  leases := Sound.set_lease h.leases hlease
    ⟨(h.leases n lease hlease).closed, (h.leases n lease hlease).released⟩
  connections := h.connections
  guards := h.guards_set _ g.guarded_self

theorem Sound.closed (h : g.Sound context) (hlease : g.leases[n]? = some lease)
    (hwaiting : lease.closing = .waiting) {connections : Dict Conn Nat}
    (hconnections : connections = g.connections ∨ ∃ conn, connections = g.connections.erase conn) :
    Sound context { g with
      extra := g.extra - lease.extra
      connections
      leases := g.leases.set n { lease with closed := true, closing := .unlocked } } := by
  have hown := h.leases n lease hlease
  have hopen : lease.closed = false := by rw [hown.closed, hwaiting]; rfl
  have hle := h.extra_le hlease hopen
  have hsub : (g.extra - lease.extra).toNat = g.extra.toNat - lease.extra.toNat :=
    UInt64.toNat_sub_of_le _ _ (UInt64.le_iff_toNat_le.2 hle)
  refine ⟨?_, ?_, h.retreating, h.capacity, ?_, ?_, ?_, fun conn m hget => ?_,
    h.guards_set _ g.guarded_self⟩
  · exact h.pending_set hlease rfl
  · have hactive : lease.isActive = true := by rw [Lease.isActive, hwaiting]; rfl
    exact h.active_set hlease hactive.symm
  · have hset := tally_set Lease.share { lease with closed := true, closing := .unlocked } hlease
    have hshare : Lease.share { lease with closed := true, closing := .unlocked } = 0 := rfl
    rw [hshare, lease.share_of_open hopen] at hset
    have hextra := h.extra
    rw [hsub]
    dsimp only
    omega
  · have hbudget := UInt64.le_iff_toNat_le.1 h.budget
    rw [UInt64.le_iff_toNat_le, hsub]
    omega
  · refine Sound.set_lease h.leases hlease ⟨rfl, ?_⟩
    have hreleased := hown.released
    rw [hwaiting] at hreleased
    exact hreleased
  · rcases hconnections with rfl | ⟨conn', rfl⟩
    · exact h.connections conn m hget
    · exact h.connections conn m (Dict.get?_erase_eq_some hget).2

theorem Sound.released (h : g.Sound context) (hlease : g.leases[n]? = some lease)
    {guards : List Guard} (hguards : g.Guarded guards) {closing : Closing} {attached : Bool}
    (hcause : lease.closing = .unlocked ∧ closing = .released ∧ attached = lease.attached ∨
      closing = lease.closing ∧ attached = true) :
    Sound context { g with
      pending := if lease.released then g.pending else g.pending - 1
      guards
      leases := g.leases.set n { lease with released := true, closing, attached } } := by
  have hown := h.leases n lease hlease
  have hactive : decide (closing ≠ .done) = decide (lease.closing ≠ .done) := by
    rcases hcause with ⟨hunlocked, rfl, -⟩ | ⟨rfl, -⟩
    · rw [hunlocked]; rfl
    · rfl
  refine ⟨?_, ?_, h.retreating, h.capacity, ?_, h.budget, ?_, h.connections, h.guards_set _ hguards⟩
  · have hset := tally_set (fun lease => lease.isPending.toNat)
      { lease with released := true, closing, attached } hlease
    have hafter : Lease.isPending { lease with released := true, closing, attached } = false := rfl
    have hbefore := h.pending
    cases hreleased : lease.released with
    | true =>
      have hgone : lease.isPending = false := by rw [Lease.isPending, hreleased]; rfl
      exact h.pending_set hlease (hafter.trans hgone.symm)
    | false =>
      have hout : lease.isPending = true := by rw [Lease.isPending, hreleased]; rfl
      rw [hafter, hout, Bool.toNat_false, Bool.toNat_true] at hset
      rw [if_neg Bool.false_ne_true]
      dsimp only
      omega
  · exact h.active_set hlease hactive
  · exact h.extra_set hlease rfl
  · refine Sound.set_lease h.leases hlease ⟨?_, ?_⟩
    · rcases hcause with ⟨hunlocked, rfl, -⟩ | ⟨rfl, -⟩
      · exact hown.closed.trans (by rw [hunlocked]; rfl)
      · exact hown.closed
    · rcases hcause with ⟨-, rfl, -⟩ | ⟨-, rfl⟩
      · exact (Bool.or_true _).symm
      · exact (Bool.true_or _).symm

theorem Sound.left (h : g.Sound context) (hlease : g.leases[n]? = some lease)
    (hreleased : lease.closing = .released) :
    Sound context { g with
      active := g.active - 1
      leases := g.leases.set n { lease with closing := .done } } := by
  have hown := h.leases n lease hlease
  refine ⟨?_, ?_, h.retreating, ?_, ?_, h.budget, ?_, h.connections, h.guards_set _ g.guarded_self⟩
  · exact h.pending_set hlease rfl
  · have hset := tally_set (fun lease => lease.isActive.toNat) { lease with closing := .done } hlease
    have hbefore : lease.isActive.toNat = 1 := by rw [Lease.isActive, hreleased]; rfl
    have hafter : Lease.isActive { lease with closing := .done } = false := rfl
    have hsum := h.active
    simp only [hbefore, hafter, Bool.toNat_false, Nat.add_zero] at hset
    dsimp only
    omega
  · exact Nat.le_trans (Nat.sub_le ..) h.capacity
  · exact h.extra_set hlease rfl
  · refine Sound.set_lease h.leases hlease ⟨?_, ?_⟩
    · exact hown.closed.trans (by rw [hreleased]; rfl)
    · exact hown.released.trans (by rw [hreleased]; rfl)

theorem Sound.effect (h : g.Sound context) (heffect : Effect context g g') : g'.Sound context := by
  cases heffect with
  | idle guards hguards =>
    refine ⟨h.pending, h.active, h.retreating, h.capacity, h.extra, h.budget, h.leases, h.connections,
      fun guard hmem => ?_⟩
    rcases hguards guard hmem with hlt | ⟨old, hold, heq⟩
    · exact hlt
    · exact heq ▸ h.guards old hold
  | entered hroom =>
    refine ⟨h.pending, ?_, h.retreating, hroom, h.extra, h.budget, h.leases, h.connections, h.guards⟩
    have hactive := h.active
    dsimp only
    omega
  | admitted now hadmitting hroom =>
    refine ⟨?_, ?_, h.retreating, h.capacity, ?_, h.budget, fun m other hother => ?_, h.connections,
      fun guard hmem => ?_⟩
    · rw [tally_push, h.pending]
      rfl
    · have hactive := h.active
      have hone : Lease.isActive { started := now } = true := rfl
      rw [tally_push, hone, Bool.toNat_true]
      dsimp only
      omega
    · rw [tally_push, h.extra]
      rfl
    · rcases System.lookup_push hother with ⟨-, rfl⟩ | ⟨-, hold⟩
      · exact ⟨rfl, rfl⟩
      · exact h.leases m other hold
    · rw [List.length_append]
      exact Nat.lt_add_right _ (h.guards guard hmem)
  | turned hadmitting hfull =>
    have hroom := h.pending_le
    omega
  | retreated hretreating hactive => exact absurd h.retreating hretreating
  | noted conn accepted cancelled connections hlease hconnections =>
    exact h.noted hlease conn accepted cancelled hconnections
  | grown hlease hopen hdelta => exact h.grown hlease hopen hdelta
  | closed connections hlease hwaiting hconnections => exact h.closed hlease hwaiting hconnections
  | released guards closing attached hlease hguards hcause => exact h.released hlease hguards hcause
  | left hlease hreleased => exact h.left hlease hreleased

theorem gate_sound (h : (gate context).Reachable System.anyStep g) : g.Sound context := by
  refine h.invariant (fun g hinit => ?_) fun g action g' hsound _ hstep =>
    hsound.effect (effect_of_next hstep)
  rw [hinit]
  exact ⟨rfl, rfl, rfl, by decide, rfl, by decide, nofun, nofun, nofun⟩

theorem pending_has_room (h : (gate context).Reachable System.anyStep g) (hadmitting : g.admitting ≠ 0) :
    g.pending < capacity := by
  have hroom := (gate_sound h).pending_le
  omega

/-- No connection is turned away for want of a place in `pending`. Whoever has got into `active`
finds room there and gets a lease, so the branch that reports `PENDING_CAPACITY` is never taken. -/
theorem pending_never_refuses (h : (gate context).Reachable System.anyStep g) :
    g.retreating = 0 ∧ ∀ now, g.admitting ≠ 0 → ∃ g', g.next context (.admitPending now) = some g' ∧
      g'.pending = g.pending + 1 ∧ g'.leases = g.leases ++ [{ started := now }] := by
  refine ⟨(gate_sound h).retreating, fun now hadmitting => ?_⟩
  rw [next, if_neg hadmitting, if_pos (pending_has_room h hadmitting)]
  exact ⟨_, rfl, rfl, rfl⟩

/-- One connection has a lease, and two more are being admitted. -/
theorem pending_never_refuses_entered : ∃ g g' : Gate, (gate id).Reachable System.anyStep g ∧
    g.admitting = 2 ∧ g.pending = 1 ∧ g.next id (.admitPending 1) = some g' ∧ g'.pending = 2 := by
  let run : List GateAction := [.admitActive, .admitActive, .admitActive, .admitPending 0]
  have hrun : ∃ g : Gate, run.foldlM (next id) {} = some g ∧ g.admitting = 2 ∧ g.pending = 1 :=
    ⟨_, rfl, rfl, rfl⟩
  obtain ⟨g, hrun, hadmitting, hpending⟩ := hrun
  have hreach : (gate id).Reachable System.anyStep g :=
    (System.Path.of_foldlM (fun _ _ _ h => h) (fun _ _ _ => trivial) .refl hrun).reachable (.init rfl)
  obtain ⟨g', hnext, hnext_pending, -⟩ := (pending_never_refuses hreach).2 1 (by rw [hadmitting]; decide)
  exact ⟨g, g', hreach, hadmitting, hpending, hnext, by rw [hnext_pending, hpending]⟩

theorem closed_effect (heffect : Effect context g g') (hlease : g.leases[n]? = some lease)
    (hclosed : lease.closed = true) : ∃ lease', g'.leases[n]? = some lease' ∧ lease'.closed = true := by
  have hset : ∀ {m : Nat} {old new : Lease}, g.leases[m]? = some old →
      (old.closed = true → new.closed = true) →
      ∃ lease', (g.leases.set m new)[n]? = some lease' ∧ lease'.closed = true := by
    intro m old new hold hkeeps
    by_cases heq : m = n
    · subst heq
      rw [hlease] at hold
      refine ⟨new, List.getElem?_set_self (List.getElem?_eq_some_iff.1 hlease).1, ?_⟩
      exact hkeeps (Option.some.inj hold ▸ hclosed)
    · exact ⟨lease, by rw [List.getElem?_set_ne heq, hlease], hclosed⟩
  cases heffect with
  | idle | entered | turned | retreated => exact ⟨lease, hlease, hclosed⟩
  | admitted now =>
    refine ⟨lease, ?_, hclosed⟩
    rw [List.getElem?_append_left (List.getElem?_eq_some_iff.1 hlease).1, hlease]
  | noted conn accepted cancelled connections hold => exact hset hold fun h => h
  | grown hold => exact hset hold fun h => h
  | closed connections hold => exact hset hold fun _ => rfl
  | released guards closing attached hold => exact hset hold fun h => h
  | left hold => exact hset hold fun h => h

theorem closed_path (hpath : (gate context).Path System.anyStep g g') (hlease : g.leases[n]? = some lease)
    (hclosed : lease.closed = true) : ∃ lease', g'.leases[n]? = some lease' ∧ lease'.closed = true := by
  induction hpath with
  | refl => exact ⟨lease, hlease, hclosed⟩
  | step _ _ hstep ih =>
    obtain ⟨lease', hlease', hclosed'⟩ := ih
    exact closed_effect (effect_of_next hstep) hlease' hclosed'

/-- Whatever is registered for a connection is its own lease, so a closed one does not grow. -/
theorem Sound.grow_refused (h : g.Sound context) {conn : Conn} (hlease : g.leases[context conn]? = some lease)
    (hclosed : lease.closed = true) (delta : UInt64) : (g.grow conn delta).1 = false := by
  unfold grow
  cases hget : g.connections.get? conn with
  | none => rfl
  | some n =>
    rw [h.connections conn n hget]
    simp only [hlease, hclosed, true_or, if_true]

def AtReceive (g : Gate) : GateAction → Prop
  | .retreat => g.retreating ≠ 0
  | .release n => ∃ lease, g.leases[n]? = some lease ∧ lease.closing = .unlocked
  | .leave n => ∃ lease, g.leases[n]? = some lease ∧ lease.closing = .released
  | .attached k => ∃ guard, g.guards[k]? = some guard ∧ guard.attaching = true
  | _ => False

theorem Sound.release_isSome (h : g.Sound context) (hlease : g.leases[n]? = some lease)
    {guards : List Guard} {closing : Closing} {attached : Bool} :
    (Gate.release { g with guards } n { lease with closing, attached }).isSome = true := by
  unfold release
  cases hreleased : lease.released with
  | true => simp only [if_true, Option.isSome_some]
  | false =>
    have hout : lease.isPending.toNat = 1 := by rw [Lease.isPending, hreleased]; rfl
    have hle := weight_le_tally (fun lease => lease.isPending.toNat) hlease
    have hpending : g.pending ≠ 0 := by
      have hsum := h.pending
      omega
    simp only [Bool.false_eq_true, if_false, if_neg hpending, Option.isSome_some]

theorem Sound.receives (h : g.Sound context) {action : GateAction} (hat : g.AtReceive action) :
    (g.next context action).isSome = true := by
  cases action with
  | retreat => exact absurd h.retreating hat
  | release n =>
    obtain ⟨lease, hlease, hunlocked⟩ := hat
    simp only [next, hlease, if_pos hunlocked]
    exact h.release_isSome hlease
  | leave n =>
    obtain ⟨lease, hlease, hreleased⟩ := hat
    have hout : lease.isActive.toNat = 1 := by rw [Lease.isActive, hreleased]; rfl
    have hle := weight_le_tally (fun lease => lease.isActive.toNat) hlease
    have hactive : g.active ≠ 0 := by
      have hsum := h.active
      omega
    simp only [next, hlease, if_pos (And.intro hreleased hactive), Option.isSome_some]
  | attached k =>
    obtain ⟨guard, hguard, hattaching⟩ := hat
    have hlt := h.guards guard (List.mem_of_getElem? hguard)
    have hlease : g.leases[guard.lease]? = some (g.leases[guard.lease]) := List.getElem?_eq_getElem hlt
    simp only [next, hguard, hlease, if_pos hattaching]
    exact h.release_isSome hlease
  | _ => exact hat.elim

def Resting (g : Gate) : Prop :=
  g.admitting = 0 ∧ ∀ lease ∈ g.leases, lease.closing = .waiting ∨ lease.closing = .done

/-- A token is out exactly until the connection attaches or its callback has come to `release`. -/
theorem Lease.Sound.isPending_eq (h : lease.Sound) : lease.isPending =
    (!lease.attached && decide (lease.closing = .waiting ∨ lease.closing = .unlocked)) := by
  rw [Lease.isPending, h.released]
  cases lease.attached <;> cases lease.closing <;> rfl

theorem share_sum (leases : List Lease) : tally Lease.share leases =
    ((leases.filter fun lease => !lease.closed).map fun lease => lease.extra.toNat).sum := by
  induction leases with
  | nil => rfl
  | cons lease rest ih =>
    rw [tally, List.map_cons, List.sum_cons, ← tally, ih, Lease.share]
    cases hclosed : lease.closed with
    | true => simp [hclosed]
    | false => simp [hclosed]

/-- The accounts of the gate are exact, whatever the order of events. The channels hold one token for
every connection that has not given it back, never more than they can hold, and every receive finds its
token there; when no call is under way these are the connections that have neither attached nor closed,
and those that have not closed. The growth that is out is the sum over the open leases and within the
budget, so no subtraction wraps. A connection that has closed never grows again. -/
theorem admission_accounting (hreach : (gate context).Reachable System.anyStep g) :
    (g.pending = g.leases.countP Lease.isPending ∧
      g.active = g.leases.countP Lease.isActive + g.admitting ∧
      ∀ lease ∈ g.leases, lease.isPending =
        (!lease.attached && decide (lease.closing = .waiting ∨ lease.closing = .unlocked))) ∧
    (g.Resting → g.pending = g.leases.countP (fun lease => !lease.attached && !lease.closed) ∧
      g.active = g.leases.countP fun lease => !lease.closed) ∧
    g.pending ≤ 256 ∧ g.active ≤ 256 ∧
    (∀ action, g.AtReceive action → (g.next context action).isSome = true) ∧
    (g.extra.toNat =
        ((g.leases.filter fun lease => !lease.closed).map fun lease => lease.extra.toNat).sum ∧
      g.extra ≤ 256 * 1024 * 1024 ∧
      ∀ lease ∈ g.leases, lease.closed = false → lease.extra ≤ g.extra) ∧
    ∀ g' conn delta lease, (gate context).Path System.anyStep g g' →
      g.leases[context conn]? = some lease → lease.closed = true → (g'.grow conn delta).1 = false := by
  have h := gate_sound hreach
  have hlease : ∀ lease ∈ g.leases, lease.Sound := by
    intro lease hmem
    obtain ⟨n, hn⟩ := List.mem_iff_getElem?.1 hmem
    exact h.leases n lease hn
  have hpending : g.pending = g.leases.countP Lease.isPending := by rw [h.pending, tally_toNat]
  have hactive : g.active = g.leases.countP Lease.isActive + g.admitting := by rw [h.active, tally_toNat]
  refine ⟨⟨hpending, hactive, fun lease hmem => (hlease lease hmem).isPending_eq⟩, fun hresting => ?_,
    ?_, h.capacity, fun _ => h.receives, ⟨?_, h.budget, fun lease hmem hopen => ?_⟩, ?_⟩
  · constructor
    · rw [hpending]
      refine List.countP_congr fun lease hmem => ?_
      rw [(hlease lease hmem).isPending_eq, (hlease lease hmem).closed]
      rcases hresting.2 lease hmem with hphase | hphase <;> simp [hphase]
    · rw [hactive, hresting.1, Nat.add_zero]
      refine List.countP_congr fun lease hmem => ?_
      rw [Lease.isActive, (hlease lease hmem).closed]
      rcases hresting.2 lease hmem with hphase | hphase <;> simp [hphase]
  · have hroom := h.pending_le
    exact Nat.le_trans (Nat.le_add_right ..) hroom
  · rw [h.extra, share_sum]
  · obtain ⟨n, hn⟩ := List.mem_iff_getElem?.1 hmem
    exact UInt64.le_iff_toNat_le.2 (h.extra_le hn hopen)
  · intro g' conn delta lease hpath hn hclosed
    obtain ⟨lease', hlease', hclosed'⟩ := closed_path hpath hn hclosed
    exact (gate_sound (hpath.reachable hreach)).grow_refused hlease' hclosed' delta

end Invariant

end Gate

namespace Sample

def closingLease : Lease where
  started := 0
  conn := some 0
  extra := 1024
  closed := true
  accepted := true
  cancelled := true
  closing := .unlocked

def closingGate : Gate where
  pending := 1
  active := 1
  leases := [closingLease]

theorem reachable_closingGate : (gate id).Reachable System.anyStep closingGate := by
  have hrun : [GateAction.admitActive, .admitPending 0, .bind 0, .grow 0 1024, .cancel 0, .close 0].foldlM
      (Gate.next id) {} = some closingGate := rfl
  have hpath : (gate id).Path System.anyStep {} closingGate :=
    .of_foldlM (fun _ _ _ h => h) (fun _ _ _ => trivial) .refl hrun
  exact hpath.reachable (.init rfl)

end Sample

open Sample in
theorem admission_accounting_closing : closingGate.pending = 1 ∧
    (closingGate.grow 0 0).1 = false ∧
    (closingGate.next id (.release 0)).isSome = true := by
  have hresult := Gate.admission_accounting reachable_closingGate
  obtain ⟨⟨hpending, -⟩, -, -, -, hreceives, -, hgrow⟩ := hresult
  exact ⟨hpending.trans rfl, hgrow _ 0 0 closingLease .refl rfl rfl,
    hreceives (.release 0) ⟨closingLease, rfl, rfl⟩⟩

end CallBackend.Native
