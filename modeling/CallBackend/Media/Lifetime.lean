import CallBackend.Media.Broker

/-!
# How long subscriptions live

`handleConnection` removes the subscriptions of its handler once, before it closes the session, and
only then waits for the goroutines of the session. A request that passed the check of `ready` before
can enter its subscription in between, where nobody will remove it: after `handleConnection` has
returned the broker still has it, and its forward loop runs on. This is the only way in which a
subscription outlives its connection.
-/

namespace CallBackend.Media

namespace Relay

def Holds (s : Relay) (r : Nat) : Prop := ∃ key set, s.subscriptions.get? key = some set ∧ r ∈ set

/-- `removeOwner` has run for the handler. -/
def Ended (s : Relay) (n : Nat) : Prop := ∃ handler, s.handlers[n]? = some handler ∧ handler.phase ≠ .serving

def Starting (s : Relay) (r : Nat) : Prop := ∃ request, s.requests[r]? = some request ∧ request.phase = .inserted

/-- Nothing of the handler is left: the broker has none of its subscriptions, and every forward loop
started for it has been told to stop. -/
def Clean (s : Relay) (n : Nat) : Prop :=
  (∀ r, s.Holds r → s.ownedBy n r = false) ∧ ∀ r ∈ s.forwards, s.ownedBy n r = true → r ∈ s.stopped

end Relay

/-! ### What a step does -/

open Relay

structure Calm (s s' : Relay) : Prop where
  owned : ∀ n r, s.ownedBy n r = true → s'.ownedBy n r = true
  ended : ∀ n, s'.Ended n ↔ s.Ended n
  starting : ∀ r, s'.Starting r → s.Starting r

inductive Change (s s' : Relay) (action : RelayAction) : Prop
  | quiet : Calm s s' → s'.subscriptions = s.subscriptions → s'.forwards = s.forwards →
      s'.stopped = s.stopped → s'.late = s.late → Change s s' action
  | entered (r n : Nat) (key : String) : action = .insert r → s.ownedBy n r = true →
      (∀ n r, s.ownedBy n r = true → s'.ownedBy n r = true) → (∀ n, s'.Ended n ↔ s.Ended n) →
      (∀ r', s'.Starting r' → s.Starting r' ∨ r' = r) →
      s'.subscriptions = s.insertSubscription r key → s'.forwards = s.forwards →
      s'.stopped = s.stopped → (s.Ended n ∧ s'.late = s.late ++ [r] ∨ ¬s.Ended n ∧ s'.late = s.late) →
      Change s s' action
  | started (r : Nat) : s.Starting r → Calm s s' → s'.subscriptions = s.subscriptions →
      s'.forwards = s.forwards ++ [r] → s'.stopped = s.stopped → s'.late = s.late → Change s s' action
  | removed (n : Nat) : ¬s.Ended n → s'.requests = s.requests → (∀ m, s'.Ended m ↔ s.Ended m ∨ m = n) →
      s'.subscriptions = (s.removeOwner n).subscriptions → s'.forwards = s.forwards →
      s'.stopped = (s.removeOwner n).stopped → s'.late = s.late → Change s s' action

section Steps

variable {s s' : Relay} {n r : Nat} {handler handler' : Handler} {request request' : Request}
  {action : RelayAction}

theorem ownedBy_iff : s.ownedBy n r = true ↔ ∃ request, s.requests[r]? = some request ∧ request.owner = n := by
  rw [Relay.ownedBy, Option.any_eq_true]
  simp only [decide_eq_true_eq]

theorem ended_set (hhandler : s.handlers[n]? = some handler)
    (hphase : handler'.phase = .serving ↔ handler.phase = .serving) (m : Nat) :
    (s.setHandler n handler').Ended m ↔ s.Ended m := by
  constructor
  · rintro ⟨other, hother, hended⟩
    rcases System.lookup_set hhandler hother with ⟨rfl, rfl⟩ | ⟨-, hold⟩
    · exact ⟨handler, hhandler, fun hserving => hended (hphase.2 hserving)⟩
    · exact ⟨other, hold, hended⟩
  · rintro ⟨other, hother, hended⟩
    by_cases heq : n = m
    · subst heq
      rw [hhandler, Option.some.injEq] at hother
      refine ⟨handler', List.getElem?_set_self (List.getElem?_eq_some_iff.1 hhandler).1, fun hserving => ?_⟩
      exact hended (hother ▸ hphase.1 hserving)
    · exact ⟨other, (List.getElem?_set_ne heq).trans hother, hended⟩

theorem owned_set (hrequest : s.requests[r]? = some request) (howner : request'.owner = request.owner)
    (m r' : Nat) (h : s.ownedBy m r' = true) : (s.setRequest r request').ownedBy m r' = true := by
  rw [ownedBy_iff] at h ⊢
  obtain ⟨other, hother, hm⟩ := h
  by_cases heq : r = r'
  · subst heq
    rw [hrequest, Option.some.injEq] at hother
    exact ⟨request', List.getElem?_set_self (List.getElem?_eq_some_iff.1 hrequest).1,
      howner.trans (hother ▸ hm)⟩
  · exact ⟨other, (List.getElem?_set_ne heq).trans hother, hm⟩

theorem starting_set (hrequest : s.requests[r]? = some request) {r' : Nat}
    (h : (s.setRequest r request').Starting r') :
    s.Starting r' ∨ r' = r ∧ request'.phase = .inserted := by
  obtain ⟨other, hother, hphase⟩ := h
  rcases System.lookup_set hrequest hother with ⟨heq, rfl⟩ | ⟨-, hold⟩
  · exact .inr ⟨heq, hphase⟩
  · exact .inl ⟨other, hold, hphase⟩

theorem calm_setRequest (hrequest : s.requests[r]? = some request)
    (howner : request'.owner = request.owner) (hphase : request'.phase ≠ .inserted) :
    Calm s (s.setRequest r request') where
  owned := owned_set hrequest howner
  ended _ := Iff.rfl
  starting _ h := (starting_set hrequest h).resolve_right fun h => hphase h.2

theorem calm_setHandler (hhandler : s.handlers[n]? = some handler)
    (hphase : handler'.phase = .serving ↔ handler.phase = .serving) : Calm s (s.setHandler n handler') where
  owned _ _ h := h
  ended := ended_set hhandler hphase
  starting _ h := h

theorem lookup_eq_some (h : s.lookup r = some (request, handler)) :
    s.requests[r]? = some request ∧ s.handlers[request.owner]? = some handler := by
  unfold Relay.lookup at h
  simp only [Option.bind_eq_bind, Option.bind_eq_some_iff, Option.pure_def, Option.some.injEq,
    Prod.mk.injEq] at h
  obtain ⟨request', hrequest, handler', hhandler, rfl, rfl⟩ := h
  exact ⟨hrequest, hhandler⟩

theorem change_connect : Change s { s with handlers := s.handlers ++ [{}] } action := by
  refine .quiet ⟨fun _ _ h => h, fun m => ⟨?_, ?_⟩, fun _ h => h⟩ rfl rfl rfl rfl
  · rintro ⟨handler, hhandler, hended⟩
    rcases System.lookup_push hhandler with ⟨-, rfl⟩ | ⟨-, hold⟩
    · exact absurd rfl hended
    · exact ⟨handler, hold, hended⟩
  · rintro ⟨handler, hhandler, hended⟩
    refine ⟨handler, ?_, hended⟩
    rw [List.getElem?_append_left (List.getElem?_eq_some_iff.1 hhandler).1, hhandler]

theorem change_request (namespaces : List String) (name : String) :
    Change s { s with requests := s.requests ++ [{ owner := n, namespaces, name }] } action := by
  refine .quiet ⟨fun m r hr => ?_, fun _ => Iff.rfl, ?_⟩ rfl rfl rfl rfl
  · rw [ownedBy_iff] at hr ⊢
    obtain ⟨request, hrequest, howner⟩ := hr
    refine ⟨request, ?_, howner⟩
    rw [List.getElem?_append_left (List.getElem?_eq_some_iff.1 hrequest).1, hrequest]
  · rintro r ⟨request, hrequest, hphase⟩
    rcases System.lookup_push hrequest with ⟨-, rfl⟩ | ⟨-, hold⟩
    · exact nomatch hphase
    · exact ⟨request, hold, hphase⟩

theorem not_ended (hhandler : s.handlers[n]? = some handler) (hserving : handler.phase = .serving) :
    ¬s.Ended n := by
  rintro ⟨other, hother, hended⟩
  rw [hhandler, Option.some.injEq] at hother
  exact hended (hother ▸ hserving)

theorem change_insert (hlookup : s.lookup r = some (request, handler)) (key : String) :
    Change s { s.setRequest r { request with phase := .inserted } with
      subscriptions := s.insertSubscription r key
      late := if handler.phase = .serving then s.late else s.late ++ [r] } (.insert r) := by
  obtain ⟨hrequest, hhandler⟩ := lookup_eq_some hlookup
  have hstarting : ∀ r', (s.setRequest r { request with phase := .inserted }).Starting r' →
      s.Starting r' ∨ r' = r := fun r' h => (starting_set hrequest h).imp_right And.left
  refine .entered r request.owner key rfl (ownedBy_iff.2 ⟨request, hrequest, rfl⟩)
    (owned_set hrequest rfl) (fun _ => Iff.rfl) hstarting rfl rfl rfl ?_
  by_cases hserving : handler.phase = .serving
  · exact .inr ⟨not_ended hhandler hserving, if_pos hserving⟩
  · exact .inl ⟨⟨handler, hhandler, hserving⟩, if_neg hserving⟩

theorem change_forward (hrequest : s.requests[r]? = some request) (hphase : request.phase = .inserted) :
    Change s { s.setRequest r { request with phase := .finished } with forwards := s.forwards ++ [r] }
      action := by
  have hcalm : Calm s (s.setRequest r { request with phase := .finished }) :=
    calm_setRequest hrequest rfl nofun
  exact .started r ⟨request, hrequest, hphase⟩ ⟨hcalm.owned, hcalm.ended, hcalm.starting⟩ rfl rfl rfl rfl

theorem change_removeOwner (hhandler : s.handlers[n]? = some handler) (hserving : handler.phase = .serving) :
    Change s ((s.removeOwner n).setHandler n { handler with phase := .removed }) action := by
  refine .removed n (not_ended hhandler hserving) rfl (fun m => ⟨?_, ?_⟩) rfl rfl rfl rfl
  · rintro ⟨other, hother, hended⟩
    rcases System.lookup_set hhandler hother with ⟨heq, -⟩ | ⟨-, hold⟩
    · exact .inr heq
    · exact .inl ⟨other, hold, hended⟩
  · intro hm
    by_cases heq : n = m
    · subst heq
      exact ⟨_, List.getElem?_set_self (List.getElem?_eq_some_iff.1 hhandler).1, nofun⟩
    · obtain ⟨other, hother, hended⟩ := hm.resolve_right (Ne.symm heq)
      exact ⟨other, (List.getElem?_set_ne heq).trans hother, hended⟩

theorem change_count (hlookup : s.lookup r = some (request, handler)) (count : UInt32)
    {phase : RequestPhase} (hphase : phase ≠ .inserted) :
    Change s ((s.setHandler request.owner { handler with subscriptionCount := count }).setRequest r
      { request with phase }) action := by
  obtain ⟨hrequest, hhandler⟩ := lookup_eq_some hlookup
  have hhandlers : Calm s (s.setHandler request.owner { handler with subscriptionCount := count }) :=
    calm_setHandler hhandler Iff.rfl
  have hrequests : Calm s (s.setRequest r { request with phase }) := calm_setRequest hrequest rfl hphase
  exact .quiet ⟨hrequests.owned, hhandlers.ended, hrequests.starting⟩ rfl rfl rfl rfl

theorem change_of_next (h : s.next action = some s') : Change s s' action := by
  cases action with
  | connect =>
    cases h
    exact change_connect
  | authenticate n principal =>
    obtain ⟨handler, hhandler, h⟩ := Option.bind_eq_some_iff.1 h
    split_ifs at h
    cases h
    exact .quiet (calm_setHandler hhandler Iff.rfl) rfl rfl rfl rfl
  | revoke n =>
    obtain ⟨handler, hhandler, h⟩ := Option.bind_eq_some_iff.1 h
    split_ifs at h
    cases h
    exact .quiet (calm_setHandler hhandler Iff.rfl) rfl rfl rfl rfl
  | request n namespaces name =>
    obtain ⟨handler, hhandler, h⟩ := Option.bind_eq_some_iff.1 h
    split_ifs at h
    cases h
    exact change_request namespaces name
  | check r =>
    obtain ⟨⟨request, handler⟩, hlookup, h⟩ := Option.bind_eq_some_iff.1 h
    dsimp only at h
    split_ifs at h
    all_goals
      cases h
      exact .quiet (calm_setRequest (lookup_eq_some hlookup).1 rfl nofun) rfl rfl rfl rfl
  | count r =>
    obtain ⟨⟨request, handler⟩, hlookup, h⟩ := Option.bind_eq_some_iff.1 h
    dsimp only at h
    split_ifs at h
    all_goals
      cases h
      exact change_count hlookup _ nofun
  | accept r =>
    obtain ⟨⟨request, handler⟩, hlookup, h⟩ := Option.bind_eq_some_iff.1 h
    dsimp only at h
    split_ifs at h
    cases h
    exact .quiet (calm_setRequest (lookup_eq_some hlookup).1 rfl nofun) rfl rfl rfl rfl
  | insert r =>
    obtain ⟨⟨request, handler⟩, hlookup, h⟩ := Option.bind_eq_some_iff.1 h
    obtain ⟨principal, -, h⟩ := Option.bind_eq_some_iff.1 h
    obtain ⟨participant, -, h⟩ := Option.bind_eq_some_iff.1 h
    by_cases haccepted : request.phase = .accepted
    · rw [if_pos haccepted] at h
      cases h
      exact change_insert hlookup _
    · rw [if_neg haccepted] at h
      exact nomatch h
  | forward r =>
    obtain ⟨⟨request, handler⟩, hlookup, h⟩ := Option.bind_eq_some_iff.1 h
    dsimp only at h
    split_ifs at h with hphase
    cases h
    exact change_forward (lookup_eq_some hlookup).1 hphase
  | removeOwner n =>
    obtain ⟨handler, hhandler, h⟩ := Option.bind_eq_some_iff.1 h
    split_ifs at h with hserving
    cases h
    exact change_removeOwner hhandler hserving
  | close n =>
    obtain ⟨handler, hhandler, h⟩ := Option.bind_eq_some_iff.1 h
    split_ifs at h with hready
    cases h
    refine .quiet (calm_setHandler hhandler ?_) rfl rfl rfl rfl
    simp [hready.1]

end Steps

/-! ### What holds between steps -/

section Invariant

variable {s s' : Relay} {n r r' : Nat} {key : String} {action : RelayAction}

theorem holds_insert (h : s'.subscriptions = s.insertSubscription r key) :
    s'.Holds r' ↔ s.Holds r' ∨ r' = r := by
  have hget : ∀ key', s'.subscriptions.get? key' =
      if key = key' then some (((s.subscriptions.get? key).getD []).insert r)
      else s.subscriptions.get? key' := fun key' => by rw [h, insertSubscription, Dict.get?_set]
  constructor
  · rintro ⟨key', set, hset, hmem⟩
    rw [hget] at hset
    split_ifs at hset with heq
    · rw [← Option.some.inj hset, List.mem_insert_iff] at hmem
      refine hmem.symm.imp_left fun hold => ?_
      cases hbefore : s.subscriptions.get? key with
      | none =>
        rw [hbefore] at hold
        cases hold
      | some before =>
        rw [hbefore] at hold
        exact ⟨key, before, hbefore, hold⟩
    · exact .inl ⟨key', set, hset, hmem⟩
  · rintro (⟨key', set, hset, hmem⟩ | rfl)
    · by_cases heq : key = key'
      · refine ⟨key', _, (hget key').trans (if_pos heq), ?_⟩
        rw [heq, hset]
        exact List.mem_insert_of_mem hmem
      · exact ⟨key', set, by rw [hget, if_neg heq, hset], hmem⟩
    · exact ⟨key, _, (hget key).trans (if_pos rfl), List.mem_insert_self⟩

theorem holds_removeOwner (h : s'.subscriptions = (s.removeOwner n).subscriptions) :
    s'.Holds r ↔ s.Holds r ∧ s.ownedBy n r = false := by
  have hget : ∀ key, s'.subscriptions.get? key = ((s.subscriptions.get? key).map fun set =>
      set.filter fun r => !s.ownedBy n r).filter fun set => !set.isEmpty := by
    intro key
    rw [h, removeOwner, Dict.get?_filter, Dict.get?_mapValues]
  constructor
  · rintro ⟨key, set, hset, hmem⟩
    rw [hget, Option.filter_eq_some_iff, Option.map_eq_some_iff] at hset
    obtain ⟨⟨before, hbefore, rfl⟩, -⟩ := hset
    rw [List.mem_filter, Bool.not_eq_true'] at hmem
    exact ⟨⟨key, before, hbefore, hmem.1⟩, hmem.2⟩
  · rintro ⟨⟨key, set, hset, hmem⟩, howned⟩
    have hkept : r ∈ set.filter fun r => !s.ownedBy n r := by
      rw [List.mem_filter, howned]
      exact ⟨hmem, rfl⟩
    refine ⟨key, _, ?_, hkept⟩
    rw [hget, hset, Option.map_some, Option.filter_some, if_pos]
    rw [Bool.not_eq_true', List.isEmpty_eq_false_iff]
    exact List.ne_nil_of_mem hkept

theorem mem_stopped_removeOwner (h : s'.stopped = (s.removeOwner n).stopped) :
    r ∈ s'.stopped ↔ r ∈ s.stopped ∨ s.Holds r ∧ s.ownedBy n r = true := by
  rw [h, removeOwner, List.mem_append, List.mem_filter, List.mem_flatten]
  refine or_congr_right (and_congr_left fun _ => ?_)
  constructor
  · rintro ⟨set, hset, hmem⟩
    obtain ⟨key, hkey⟩ := (Dict.mem_values_iff _ _).1 hset
    exact ⟨key, set, hkey, hmem⟩
  · rintro ⟨key, set, hkey, hmem⟩
    exact ⟨set, (Dict.mem_values_iff _ _).2 ⟨key, hkey⟩, hmem⟩

theorem ownedBy_unique {m : Nat} (h : s.ownedBy n r = true) (h' : s.ownedBy m r = true) : n = m := by
  obtain ⟨request, hrequest, howner⟩ := ownedBy_iff.1 h
  obtain ⟨request', hrequest', howner'⟩ := ownedBy_iff.1 h'
  rw [hrequest, Option.some.injEq] at hrequest'
  rw [← howner, ← howner', hrequest']

structure Relay.Sound (s : Relay) : Prop where
  owner : ∀ r, s.Holds r → ∃ n, s.ownedBy n r = true
  starting : ∀ r, s.Starting r → s.Holds r ∨ r ∈ s.stopped
  forwards : ∀ r ∈ s.forwards, s.Holds r ∨ r ∈ s.stopped
  ended : ∀ n r, s.Holds r → s.ownedBy n r = true → s.Ended n → r ∈ s.late
  late : ∀ r ∈ s.late, s.Holds r ∧ ∃ n, s.ownedBy n r = true ∧ s.Ended n

theorem holds_congr (h : s'.subscriptions = s.subscriptions) : s'.Holds r ↔ s.Holds r := by
  rw [Holds, h, Holds]

theorem Relay.Sound.ownedBy_before (h : s.Sound)
    (howned : ∀ n r, s.ownedBy n r = true → s'.ownedBy n r = true) (hr : s.Holds r)
    (hn : s'.ownedBy n r = true) : s.ownedBy n r = true := by
  obtain ⟨m, hm⟩ := h.owner r hr
  have heq : m = n := ownedBy_unique (howned m r hm) hn
  exact heq ▸ hm

theorem Relay.Sound.quiet (h : s.Sound) (hcalm : Calm s s') (hsubscriptions : s'.subscriptions = s.subscriptions)
    (hforwards : ∀ r ∈ s'.forwards, s.Holds r ∨ r ∈ s.stopped) (hstopped : s'.stopped = s.stopped)
    (hlate : s'.late = s.late) : s'.Sound where
  owner r hr := by
    obtain ⟨n, hn⟩ := h.owner r ((holds_congr hsubscriptions).1 hr)
    exact ⟨n, hcalm.owned n r hn⟩
  starting r hr := by
    rw [holds_congr hsubscriptions, hstopped]
    exact h.starting r (hcalm.starting r hr)
  forwards r hr := by
    rw [holds_congr hsubscriptions, hstopped]
    exact hforwards r hr
  ended n r hr hn hended := by
    rw [holds_congr hsubscriptions] at hr
    rw [hlate]
    exact h.ended n r hr (h.ownedBy_before hcalm.owned hr hn) ((hcalm.ended n).1 hended)
  late r hr := by
    rw [hlate] at hr
    obtain ⟨hheld, n, hn, hended⟩ := h.late r hr
    exact ⟨(holds_congr hsubscriptions).2 hheld, n, hcalm.owned n r hn, (hcalm.ended n).2 hended⟩

theorem Relay.Sound.entered (h : s.Sound) (hr : s.ownedBy n r = true)
    (howned : ∀ n r, s.ownedBy n r = true → s'.ownedBy n r = true) (hended : ∀ n, s'.Ended n ↔ s.Ended n)
    (hstarting : ∀ r', s'.Starting r' → s.Starting r' ∨ r' = r)
    (hsubscriptions : s'.subscriptions = s.insertSubscription r key)
    (hforwards : s'.forwards = s.forwards) (hstopped : s'.stopped = s.stopped)
    (hlate : s.Ended n ∧ s'.late = s.late ++ [r] ∨ ¬s.Ended n ∧ s'.late = s.late) : s'.Sound where
  owner r' hr' := by
    rcases (holds_insert hsubscriptions).1 hr' with hold | rfl
    · obtain ⟨m, hm⟩ := h.owner r' hold
      exact ⟨m, howned m r' hm⟩
    · exact ⟨n, howned n r' hr⟩
  starting r' hr' := by
    rw [holds_insert hsubscriptions, hstopped]
    rcases hstarting r' hr' with hold | heq
    · exact (h.starting r' hold).imp_left .inl
    · exact .inl (.inr heq)
  forwards r' hr' := by
    rw [hforwards] at hr'
    rw [holds_insert hsubscriptions, hstopped]
    exact (h.forwards r' hr').imp_left .inl
  ended m r' hr' hm hm' := by
    rw [hended] at hm'
    rcases (holds_insert hsubscriptions).1 hr' with hold | rfl
    · have hmem := h.ended m r' hold (h.ownedBy_before howned hold hm) hm'
      rcases hlate with ⟨-, hlate⟩ | ⟨-, hlate⟩
      · exact hlate ▸ List.mem_append_left _ hmem
      · exact hlate ▸ hmem
    · have heq : n = m := ownedBy_unique (howned n r' hr) hm
      rcases hlate with ⟨-, hlate⟩ | ⟨hserving, -⟩
      · exact hlate ▸ List.mem_append_right _ (List.mem_singleton_self r')
      · exact absurd (heq ▸ hm') hserving
  late r' hr' := by
    have hkeep : r' ∈ s.late → s'.Holds r' ∧ ∃ n, s'.ownedBy n r' = true ∧ s'.Ended n := by
      intro hold
      obtain ⟨hheld, m, hm, hm'⟩ := h.late r' hold
      exact ⟨(holds_insert hsubscriptions).2 (.inl hheld), m, howned m r' hm, (hended m).2 hm'⟩
    rcases hlate with ⟨hn, hlate⟩ | ⟨-, hlate⟩
    · rw [hlate, List.mem_append, List.mem_singleton] at hr'
      rcases hr' with hold | rfl
      · exact hkeep hold
      · exact ⟨(holds_insert hsubscriptions).2 (.inr rfl), n, howned n r' hr, (hended n).2 hn⟩
    · exact hkeep (hlate ▸ hr')

theorem Relay.Sound.removed (h : s.Sound) (hn : ¬s.Ended n) (hrequests : s'.requests = s.requests)
    (hended : ∀ m, s'.Ended m ↔ s.Ended m ∨ m = n)
    (hsubscriptions : s'.subscriptions = (s.removeOwner n).subscriptions)
    (hforwards : s'.forwards = s.forwards) (hstopped : s'.stopped = (s.removeOwner n).stopped)
    (hlate : s'.late = s.late) : s'.Sound := by
  have howned : ∀ m r, s'.ownedBy m r = s.ownedBy m r := fun m r => by rw [ownedBy, hrequests, ownedBy]
  have hkept : ∀ r, s.Holds r ∨ r ∈ s.stopped → s'.Holds r ∨ r ∈ s'.stopped := by
    intro r hr
    rw [holds_removeOwner hsubscriptions, mem_stopped_removeOwner hstopped]
    rcases hr with hr | hr
    · cases hown : s.ownedBy n r with
      | false => exact .inl ⟨hr, rfl⟩
      | true => exact .inr (.inr ⟨hr, rfl⟩)
    · exact .inr (.inl hr)
  refine ⟨fun r hr => ?_, ?_, ?_, fun m r hr hm hm' => ?_, fun r hr => ?_⟩
  · obtain ⟨m, hm⟩ := h.owner r ((holds_removeOwner hsubscriptions).1 hr).1
    exact ⟨m, (howned m r).trans hm⟩
  · rintro r ⟨request, hrequest, hphase⟩
    exact hkept r (h.starting r ⟨request, hrequests ▸ hrequest, hphase⟩)
  · rw [hforwards]
    exact fun r hr => hkept r (h.forwards r hr)
  · obtain ⟨hold, hother⟩ := (holds_removeOwner hsubscriptions).1 hr
    rw [howned] at hm
    rw [hlate]
    rcases (hended m).1 hm' with hm' | rfl
    · exact h.ended m r hold hm hm'
    · exact absurd (hother.symm.trans hm) Bool.noConfusion
  · rw [hlate] at hr
    obtain ⟨hheld, m, hm, hm'⟩ := h.late r hr
    have hother : s.ownedBy n r = false := by
      cases hown : s.ownedBy n r with
      | false => rfl
      | true => exact absurd (ownedBy_unique hm hown ▸ hm') hn
    exact ⟨(holds_removeOwner hsubscriptions).2 ⟨hheld, hother⟩, m, (howned m r).trans hm,
      (hended m).2 (.inl hm')⟩

theorem Relay.Sound.change (h : s.Sound) (hchange : Change s s' action) : s'.Sound := by
  cases hchange with
  | quiet hcalm hsubscriptions hforwards hstopped hlate =>
    exact h.quiet hcalm hsubscriptions (hforwards ▸ h.forwards) hstopped hlate
  | entered r n key _ hr howned hended hstarting hsubscriptions hforwards hstopped hlate =>
    exact h.entered hr howned hended hstarting hsubscriptions hforwards hstopped hlate
  | started r hr hcalm hsubscriptions hforwards hstopped hlate =>
    refine h.quiet hcalm hsubscriptions (fun r' hr' => ?_) hstopped hlate
    rw [hforwards, List.mem_append, List.mem_singleton] at hr'
    rcases hr' with hold | rfl
    · exact h.forwards r' hold
    · exact h.starting r' hr
  | removed n hn hrequests hended hsubscriptions hforwards hstopped hlate =>
    exact h.removed hn hrequests hended hsubscriptions hforwards hstopped hlate

theorem relay_sound {ok : Relay → RelayAction → Prop} (h : relay.Reachable ok s) : s.Sound := by
  refine h.invariant (I := Relay.Sound) (fun s hinit => ?_) fun s action s' hsound _ hstep =>
    hsound.change (change_of_next hstep)
  have hempty : ∀ r, ¬s.Holds r := by
    rw [hinit]
    rintro r ⟨key, set, hget, -⟩
    exact nomatch hget
  refine ⟨fun r hr => absurd hr (hempty r), ?_, ?_, fun _ r hr => absurd hr (hempty r), ?_⟩
  · rw [hinit]
    rintro r ⟨request, hrequest, -⟩
    exact nomatch hrequest
  · rw [hinit]
    exact nofun
  · rw [hinit]
    exact nofun

theorem Relay.Sound.clean_iff (h : s.Sound) (hended : s.Ended n) :
    s.Clean n ↔ ∀ r ∈ s.late, s.ownedBy n r = false := by
  constructor
  · intro hclean r hr
    exact hclean.1 r (h.late r hr).1
  · intro hnone
    have hgone : ∀ r, s.Holds r → s.ownedBy n r = false := by
      intro r hr
      cases hown : s.ownedBy n r with
      | false => rfl
      | true => exact absurd ((hnone r (h.ended n r hr hown hended)).symm.trans hown) Bool.noConfusion
    refine ⟨hgone, fun r hr hown => (h.forwards r hr).resolve_left fun hheld => ?_⟩
    exact absurd ((hgone r hheld).symm.trans hown) Bool.noConfusion

end Invariant

/-- `removeOwner` has not yet run for the handler of a request that enters its subscription. -/
def InTime (s : Relay) : RelayAction → Prop
  | .insert r => ∀ n, s.ownedBy n r = true → ¬s.Ended n
  | _ => True

theorem late_eq_nil {s : Relay} (h : relay.Reachable InTime s) : s.late = [] := by
  refine h.invariant (I := fun s => s.late = []) (fun s hinit => ?_) fun s action s' hnil htime hstep => ?_
  · rw [hinit]
  · cases change_of_next hstep with
    | quiet _ _ _ _ hlate => exact hlate.trans hnil
    | started _ _ _ _ _ _ hlate => exact hlate.trans hnil
    | removed _ _ _ _ _ _ _ hlate => exact hlate.trans hnil
    | entered r n key haction hr _ _ _ _ _ _ hlate =>
      rw [haction] at htime
      rcases hlate with ⟨hended, -⟩ | ⟨-, hlate⟩
      · exact absurd hended (htime n hr)
      · exact hlate.trans hnil

def Relay.Returned (s : Relay) (n : Nat) : Prop :=
  ∃ handler, s.handlers[n]? = some handler ∧ handler.phase = .returned

/-- Once `handleConnection` has returned for a handler, nothing of the handler is left in every run in
which no request enters its subscription after `removeOwner` has run for its handler. In every run, a
handler whose connection has returned leaves nothing behind exactly if none of its subscriptions was
entered after `removeOwner`. -/
theorem subscriptions_end_with_connection {s : Relay} {n : Nat} (hreturned : s.Returned n) :
    (relay.Reachable InTime s → s.Clean n) ∧
    (relay.Reachable System.anyStep s → (s.Clean n ↔ ∀ r ∈ s.late, s.ownedBy n r = false)) := by
  have hended : s.Ended n := by
    obtain ⟨handler, hhandler, hphase⟩ := hreturned
    exact ⟨handler, hhandler, by rw [hphase]; exact nofun⟩
  constructor
  · intro hreach
    rw [(relay_sound hreach).clean_iff hended, late_eq_nil hreach]
    exact nofun
  · intro hreach
    exact (relay_sound hreach).clean_iff hended

namespace Sample

def principal : Server.GrantDocument where
  logicalSessionId := "session"
  roomId := "room"
  participantId := "bob"

def handler (phase : HandlerPhase) : Handler where
  principal := some principal
  ready := true
  subscriptionCount := 1
  phase := phase

def request (phase : RequestPhase) : Request where
  owner := 0
  namespaces := ["qortal", "call", "room", "alice"]
  name := "audio"
  phase := phase

def answering : List RelayAction :=
  [.connect, .authenticate 0 principal, .request 0 (request .called).namespaces "audio", .check 0, .count 0,
    .accept 0]

def overtaking : List RelayAction := answering ++ [.removeOwner 0, .insert 0, .forward 0, .close 0]

def ending : List RelayAction := [.forward 0, .removeOwner 0, .close 0]

def answered : Relay where
  handlers := [handler .serving]
  requests := [request .accepted]

def subscribed : Dict String (List Nat) := (∅ : Dict String (List Nat)).set (trackKey "room" "alice" "audio") [0]

def entered : Relay where
  handlers := [handler .serving]
  requests := [request .inserted]
  subscriptions := subscribed

def overtaken : Relay where
  handlers := [handler .returned]
  requests := [request .finished]
  subscriptions := subscribed
  forwards := [0]
  late := [0]

def ended : Relay where
  handlers := [handler .returned]
  requests := [request .finished]
  forwards := [0]
  stopped := [0]

theorem path_entered : relay.Path InTime {} entered := by
  have hanswered : answering.foldlM Relay.next {} = some answered := rfl
  have hpath : relay.Path InTime {} answered := by
    refine .of_foldlM (fun _ _ _ h => h) (fun action haction s => ?_) .refl hanswered
    simp only [answering, List.mem_cons, List.not_mem_nil, or_false] at haction
    rcases haction with rfl | rfl | rfl | rfl | rfl | rfl <;> trivial
  have htime : InTime answered (.insert 0) := by
    intro n hn
    have hzero : 0 = n := by simpa [Relay.ownedBy, answered, request] using hn
    rw [← hzero]
    exact not_ended rfl rfl
  exact hpath.step htime rfl

theorem path_ended : relay.Path InTime {} ended := by
  have hended : ending.foldlM Relay.next entered = some ended := rfl
  refine .of_foldlM (fun _ _ _ h => h) (fun action haction s => ?_) path_entered hended
  simp only [ending, List.mem_cons, List.not_mem_nil, or_false] at haction
  rcases haction with rfl | rfl | rfl <;> trivial

end Sample

open Sample in
/-- The subscription of a request outlives its connection. -/
theorem subscription_outlives_connection :
    relay.Reachable System.anyStep overtaken ∧ overtaken.Returned 0 ∧
    overtaken.subscriptions.get? (trackKey "room" "alice" "audio") = some [0] ∧
    overtaken.ownedBy 0 0 = true ∧ 0 ∈ overtaken.forwards ∧
    0 ∉ overtaken.stopped := by
  have hrun : overtaking.foldlM Relay.next {} = some overtaken := rfl
  have hpath : relay.Path System.anyStep {} overtaken :=
    .of_foldlM (fun _ _ _ h => h) (fun _ _ _ => trivial) .refl hrun
  exact ⟨hpath.reachable (.init rfl), ⟨_, rfl, rfl⟩, rfl, rfl, by decide, by decide⟩

open Sample in
theorem subscriptions_end_with_connection_ended : ended.Returned 0 ∧ ended.Clean 0 := by
  have hreturned : ended.Returned 0 := ⟨_, rfl, rfl⟩
  have hreach := path_ended.reachable (.init rfl)
  exact ⟨hreturned, (subscriptions_end_with_connection hreturned).1 hreach⟩

end CallBackend.Media
