import CallBackend.Server.Run

/-!
# Sessions and their links

A session belongs to the link it was created on, its home: it is bound to that link or to none, it
proves addresses there, and the messages it serves came over it. The one step that breaks this is a
message on another link for a session whose link is marked closed and not yet cleaned up:
`_application_message` then hands the session over, proof and all.
-/

namespace CallBackend.Server

open Exec Function

structure ServerState.Homed (st : ServerState) (home : SessionId → ConnId) : Prop where
  links : ∀ id c, (st.objects id).connection = some c → home id = c
  proofs : ∀ id c, st.provedOn id = some c → home id = c
  messages : ∀ invocation ∈ st.inflight, home invocation.session = invocation.connection
  unused : ∀ id, id ∉ st.known → st.provedOn id = none ∧
    ∀ invocation ∈ st.inflight, invocation.session ≠ id

section Updates

variable {setup : Setup} {env : ServerEnv} {takes : Prop} {action : Option Call.Action} {trace : List Call.Action}
  {st st' : ServerState} {home : SessionId → ConnId}

theorem ServerState.Homed.congr (h : st.Homed home)
    (hcore : ∀ id, (st'.objects id).core = (st.objects id).core) (hknown : st'.known = st.known)
    (hproved : st'.provedOn = st.provedOn) (hinflight : st'.inflight = st.inflight) :
    st'.Homed home := by
  constructor
  · intro id c hc
    exact h.links id c ((congrArg SessionCore.connection (hcore id)).symm.trans hc)
  · rw [hproved]
    exact h.proofs
  · rw [hinflight]
    exact h.messages
  · rw [hknown, hproved, hinflight]
    exact h.unused

theorem ServerState.Homed.set {id : SessionId} {session : Session} (h : st.Homed home)
    (hlink : ∀ c, session.connection = some c → home id = c) :
    ServerState.Homed { st with objects := update st.objects id session } home := by
  refine ⟨fun other c hc => ?_, h.proofs, h.messages, h.unused⟩
  by_cases heq : other = id
  · rw [heq] at hc ⊢
    simp only [update_self] at hc
    exact hlink c hc
  · simp only [update_of_ne heq] at hc
    exact h.links other c hc

theorem ServerState.Homed.created {id : SessionId} {c : ConnId} {session : Session}
    {logicalSessions : LogicalId → Option SessionId} (h : st.Homed home)
    (hunused : id ∉ st.known) (hlink : session.connection = some c) :
    ServerState.Homed { st with
      objects := update st.objects id session
      known := st.known ++ [id]
      registry := st.registry ++ [id]
      logicalSessions } (update home id c) := by
  obtain ⟨hproved, hmessages⟩ := h.unused id hunused
  constructor
  · intro other d hd
    by_cases heq : other = id
    · rw [heq] at hd ⊢
      simp only [update_self, hlink, Option.some.injEq] at hd
      rw [update_self, hd]
    · simp only [update_of_ne heq] at hd
      rw [update_of_ne heq]
      exact h.links other d hd
  · intro other d hd
    have hne : other ≠ id := by
      rintro rfl
      rw [show _ = none from hproved] at hd
      cases hd
    rw [update_of_ne hne]
    exact h.proofs other d hd
  · intro invocation hinvocation
    rw [update_of_ne (hmessages invocation hinvocation)]
    exact h.messages invocation hinvocation
  · intro other hother
    exact h.unused other fun hknown => hother (List.mem_append_left _ hknown)

theorem Update.homed (h : Update setup env takes action st st') (hnever : ¬takes)
    (hst : st.Wellformed) (hhome : st.Homed home) :
    ∃ home', (∀ id ∈ st.known, home' id = home id) ∧ st'.Homed home' := by
  have hkeep : st'.Homed home → ∃ home', (∀ id ∈ st.known, home' id = home id) ∧ st'.Homed home' :=
    fun h => ⟨home, fun _ _ => rfl, h⟩
  cases h with
  | quiet h =>
    exact hkeep (hhome.congr h.core h.known (by rw [h.rest]) (by rw [h.rest]))
  | @created _ id c name session hunused habsent hsession =>
    refine ⟨update home id c, fun other hother => ?_, ?_⟩
    · have hne : other ≠ id := fun heq => hunused (heq ▸ hother)
      exact update_of_ne hne _ _
    · exact hhome.created hunused (congrArg SessionCore.connection hsession)
  | @bound _ id c logicalId hindex hlink =>
    refine hkeep (hhome.set fun d hd => ?_)
    rw [hhome.links id c (hlink.resolve_right hnever)]
    exact Option.some.inj hd
  | @promoted _ id user now ttl hregistered =>
    have hset : ServerState.Homed { st with
        objects := update st.objects id ((st.objects id).promoted user now ttl) } home :=
      hhome.set (hhome.links id)
    refine hkeep ⟨hset.links, fun other c hc => ?_, hhome.messages, fun other hother => ?_⟩
    · by_cases heq : other = id
      · rw [heq] at hc ⊢
        simp only [ServerState.withProof, update_self] at hc
        exact hhome.links id c hc
      · simp only [ServerState.withProof, update_of_ne heq] at hc
        exact hhome.proofs other c hc
    · have hknown := hst.known_of_registered hregistered
      have hne : other ≠ id := fun heq => hother (heq ▸ hknown)
      simp only [ServerState.withProof, update_of_ne hne]
      exact hhome.unused other hother
  | posted invocation hlink =>
    have hknown : invocation.session ∈ st.known := by
      by_contra hunused
      have hnone : (st.objects invocation.session).connection = none :=
        congrArg SessionCore.connection (hst.unused _ hunused).1
      rw [hlink] at hnone
      cases hnone
    refine hkeep ⟨hhome.links, hhome.proofs, fun other hother => ?_, fun id hid => ?_⟩
    · rcases List.mem_append.1 hother with hother | hother
      · exact hhome.messages other hother
      · rw [List.mem_singleton.1 hother]
        exact hhome.links _ _ hlink
    · refine ⟨(hhome.unused id hid).1, fun other hother => ?_⟩
      rcases List.mem_append.1 hother with hother | hother
      · exact (hhome.unused id hid).2 other hother
      · rw [List.mem_singleton.1 hother]
        exact fun heq => hid (heq ▸ hknown)
  | taken n =>
    refine hkeep ⟨hhome.links, hhome.proofs, fun other hother => ?_, fun id hid => ?_⟩
    · exact hhome.messages other (List.mem_of_mem_eraseIdx hother)
    · exact ⟨(hhome.unused id hid).1,
        fun other hother => (hhome.unused id hid).2 other (List.mem_of_mem_eraseIdx hother)⟩
  | invalidated id => exact hkeep (hhome.congr (withoutCredentials_core _ id) rfl rfl rfl)
  | unbound id =>
    have hset : ServerState.Homed { st with
        objects := update st.objects id { st.objects id with connection := none } } home :=
      hhome.set fun c hc => by cases hc
    exact hkeep (hset.congr (fun _ => rfl) (by rw [unbound_rest]) (by rw [unbound_rest])
      (by rw [unbound_rest]))
  | unnamed id hconnection =>
    exact hkeep (hhome.set fun c hc => hhome.links id c hc)
  | unregistered id => exact hkeep ⟨hhome.links, hhome.proofs, hhome.messages, hhome.unused⟩
  | called h => exact hkeep ⟨hhome.links, hhome.proofs, hhome.messages, hhome.unused⟩

theorem Run.homed (h : Run setup env takes trace st st') (hnever : ¬takes) (hst : st.Wellformed)
    (hhome : st.Homed home) :
    ∃ home', (∀ id ∈ st.known, home' id = home id) ∧ st'.Homed home' := by
  induction h with
  | refl => exact ⟨home, fun _ _ => rfl, hhome⟩
  | step hrun hupdate ih =>
    obtain ⟨middle, hmiddle, hhomed⟩ := ih hst hhome
    obtain ⟨home', hhome', hhomed'⟩ := hupdate.homed hnever (hrun.wellformed hst) hhomed
    exact ⟨home', fun id hid => (hhome' id (hrun.keeps_known hid)).trans (hmiddle id hid), hhomed'⟩

end Updates

/-! ### Runs -/

def Orderly (st : ServerState) (event : Event) : Prop :=
  event.action.overtakes st event.env.now = false

instance (st : ServerState) (event : Event) : Decidable (Orderly st event) :=
  inferInstanceAs (Decidable (_ = _))

section Runs

variable {setup : Setup} {st st' : ServerState} {home : SessionId → ConnId}

variable (setup) in
theorem homed_next {event : Event} (hst : st.Wellformed) (henabled : event.action.Enabled st)
    (horderly : Orderly st event) (hhome : st.Homed home) :
    ∃ home', (∀ id ∈ st.known, home' id = home id) ∧ (st.next setup event).Homed home' := by
  obtain ⟨trace, st₁, -, hrun, hdeal⟩ := next_steps setup hst henabled
  have hnever : ¬event.action.overtakes st event.env.now = true := by
    rw [show event.action.overtakes st event.env.now = false from horderly]
    exact Bool.false_ne_true
  obtain ⟨home', hsame, hhomed⟩ := hrun.homed hnever hst hhome
  have hsealed := hdeal.sealed
  exact ⟨home', hsame, hhomed.congr hsealed.core (by rw [hsealed.rest]) (by rw [hsealed.rest])
    (by rw [hsealed.rest])⟩

theorem started_homed (h : st.Started) : st.Homed fun _ => 0 := by
  have hproved : st.provedOn = fun _ => none := by rw [h.rest]
  have hinflight : st.inflight = [] := by rw [h.rest]
  constructor
  · intro id c hc
    by_cases hknown : id ∈ st.known
    · rw [(h.loaded id hknown).2.1] at hc
      cases hc
    · rw [h.others id hknown] at hc
      cases hc
  · intro id c hc
    rw [hproved] at hc
    cases hc
  · rw [hinflight]
    exact fun _ hmem => nomatch hmem
  · rw [hproved, hinflight]
    exact fun _ _ => ⟨rfl, fun _ hmem => nomatch hmem⟩

theorem reachable_homed (h : (server setup).Reachable Orderly st) :
    st.Wellformed ∧ ∃ home, st.Homed home := by
  refine h.invariant (I := fun st => st.Wellformed ∧ ∃ home, st.Homed home) (fun st hst => ?_)
    fun st event st' hst hok hstep => ?_
  · exact ⟨started_wellformed hst, _, started_homed hst⟩
  · obtain ⟨hwell, home, hhome⟩ := hst
    obtain ⟨home', -, hhomed⟩ := homed_next setup hwell hstep.1 hok hhome
    rw [hstep.2]
    exact ⟨wellformed_next hwell hstep.1, home', hhomed⟩

/-- In every run in which no message overtakes the clean-up of a closed link: a session that has
proved an address on a link is from then on bound to that link or to none, and every message it is
to serve came over that link. -/
theorem link_kept_since_proof {id : SessionId} {c : ConnId}
    (hreach : (server setup).Reachable Orderly st) (hproved : st.provedOn id = some c)
    (hlater : (server setup).Path Orderly st st') :
    ((st'.objects id).connection = some c ∨ (st'.objects id).connection = none) ∧
      ∀ invocation ∈ st'.inflight, invocation.session = id → invocation.connection = c := by
  obtain ⟨hwell, home, hhome⟩ := reachable_homed hreach
  have hknown : id ∈ st.known := by
    by_contra hunused
    rw [(hhome.unused id hunused).1] at hproved
    cases hproved
  suffices hinvariant : st'.Wellformed ∧ id ∈ st'.known ∧ ∃ home, st'.Homed home ∧ home id = c by
    obtain ⟨-, -, home', hhome', hid⟩ := hinvariant
    refine ⟨?_, fun invocation hmem hsession => ?_⟩
    · cases hlink : (st'.objects id).connection with
      | none => exact .inr rfl
      | some d => exact .inl (by rw [← hhome'.links id d hlink, hid])
    · rw [← hhome'.messages invocation hmem, hsession, hid]
  refine hlater.stable (I := fun st => st.Wellformed ∧ id ∈ st.known ∧ ∃ home, st.Homed home ∧
    home id = c) hreach ⟨hwell, hknown, home, hhome, hhome.proofs id c hproved⟩ ?_
  intro t event t' _ ht hok hstep
  obtain ⟨hwell, hknown, home, hhome, hid⟩ := ht
  obtain ⟨home', hsame, hhomed⟩ := homed_next setup hwell hstep.1 hok hhome
  rw [hstep.2]
  refine ⟨wellformed_next hwell hstep.1, ?_, home', hhomed, (hsame id hknown).trans hid⟩
  obtain ⟨trace, st₁, -, hrun, hdeal⟩ := next_steps setup hwell hstep.1
  have hsealed : (t.next setup event).known = st₁.known := by rw [hdeal.sealed.rest]
  rw [hsealed]
  exact hrun.keeps_known hknown

end Runs

open Sample in
theorem link_kept_since_proof_alice : ∃ st st' : ServerState, st.provedOn "alice-1" = some 1 ∧
    ((st'.objects "alice-1").connection = some 1 ∨ (st'.objects "alice-1").connection = none) ∧
      ∀ invocation ∈ st'.inflight, invocation.session = "alice-1" → invocation.connection = 1 := by
  let st := start.after setup (Sample.login 0 1 "tab" "alice" "alice-1")
  let later : List Event := [⟨.close 1, clock 1⟩, ⟨.startCleanup 1, clock 1⟩,
    ⟨.nextCleanup 1, clock 1⟩, ⟨.receive 2 "tab" 1 Sample.authenticate "alice-2", clock 2⟩]
  have hreach : (server setup).Reachable Orderly st :=
    reachable_after started_start (by decide +kernel)
  have hpath : (server setup).Path Orderly st (st.after setup later) :=
    path_after (by decide +kernel)
  have hproved : st.provedOn "alice-1" = some 1 := by decide +kernel
  exact ⟨st, _, hproved, link_kept_since_proof hreach hproved hpath⟩

open Sample in
/-- A message on another link, between the closing of the first link and its clean-up, takes an
authenticated session over. -/
theorem link_changed_without_proof : ∃ st st' : ServerState,
    (server setup).Reachable System.anyStep st ∧
    (server setup).Path System.anyStep st st' ∧
    (st.objects "alice-1").provisional = false ∧ st.provedOn "alice-1" = some 1 ∧
    st'.provedOn "alice-1" = some 1 ∧ (st'.objects "alice-1").connection = some 2 ∧
    ∃ invocation ∈ st'.inflight, invocation.session = "alice-1" ∧ invocation.connection = 2 := by
  let st := start.after setup (Sample.login 0 1 "tab" "alice" "alice-1")
  let later : List Event := [⟨.close 1, clock 1⟩,
    ⟨.receive 2 "tab" 1 Sample.authenticate "alice-2", clock 2⟩]
  refine ⟨st, st.after setup later, ?_, ?_, ?_⟩
  · exact reachable_after started_start (by decide +kernel)
  · exact path_after (by decide +kernel)
  · decide +kernel

end CallBackend.Server
