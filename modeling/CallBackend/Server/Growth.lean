import CallBackend.Server.Index
import CallBackend.Server.Walk

/-!
# What a link can take on

Of all steps of the server only a message on a link adds logical ids to it or binds sessions to it. No
step reopens a link, and only closed links are cleaned up. Unlike the order of the roster, this needs no
condition: whatever fails, it holds.
-/

namespace CallBackend.Server

open Exec

def Evolution (grows : Set ConnId) (st st' : ServerState) : Prop := st.roster.Evolves grows st'.roster

/-- The link an action may bring something to. -/
def Action.grows : Action → Set ConnId
  | .receive c _ _ _ _ => {c}
  | _ => ∅

section Moves

variable {grows : Set ConnId} {setup : Setup}

theorem Evolution.refl (st : ServerState) : Evolution grows st st := Roster.Evolves.refl _

theorem Evolution.trans {st st' st'' : ServerState} (h : Evolution grows st st')
    (h' : Evolution grows st' st'') : Evolution grows st st'' :=
  Roster.Evolves.trans h h'

theorem evolution_of_eq {st st' : ServerState} (h : st'.roster = st.roster) : Evolution grows st st' := by
  unfold Evolution
  rw [h]
  exact .refl _

theorem evolution_encloses : Encloses (Evolution grows) where
  refl := .refl
  trans _ _ _ h h' := h.trans h'
  session hcore _ := evolution_of_eq (roster_set hcore)
  rest hobjects _ hregistry hindex hconnections _ :=
    evolution_of_eq (roster_congr hobjects hregistry hindex hconnections)
  unbound st id := by
    unfold Evolution
    rw [roster_unbound]
    exact Roster.evolves_unbound id
  unregistered st id :=
    (Roster.shrinks_registry st.roster fun _ hmem => List.mem_of_mem_erase hmem).evolves rfl
  unnamed _ := by
    unfold Evolution
    rw [roster_unnamed]
    exact ⟨fun _ h => h, fun h => h, fun _ _ _ h => h, fun _ _ _ h => h⟩
  promoted user now ttl _ := by
    unfold Evolution
    rw [roster_withProof]
    exact ⟨fun _ h => h, fun h => h, fun _ _ _ h => h, fun _ _ _ h => h⟩
  shut st c := by
    unfold Evolution
    rw [roster_shut]
    exact Roster.evolves_shut
  cleaning h := by
    unfold Evolution
    rw [roster_cleaning]
    exact Roster.evolves_cleaning h
  emptied {st c} _ := by
    unfold Evolution
    rw [roster_emptied]
    have hended : st.roster.Evolves grows (st.roster.cleaning c .ended) :=
      Roster.evolves_cleaning fun _ hended => absurd rfl hended
    exact hended.trans (Roster.evolves_ids fun _ _ hmem => by cases hmem)
  left st c logicalId := by
    unfold Evolution
    rw [roster_ids]
    exact Roster.evolves_ids fun _ _ hmem => List.mem_of_mem_erase hmem

/-! ### Messages -/

theorem evolution_times {st : ServerState} (c : ConnId) (times : List Nanos) :
    Evolution grows st { st with
      connections := Function.update st.connections c { st.connections c with newTimes := times } } :=
  evolution_of_eq (roster_times c times)

theorem moves_acceptNew {c : ConnId} (hc : c ∈ grows) (logicalId : LogicalId) (fresh : SessionId) :
    Moves (Evolution grows) (acceptNew setup c logicalId fresh) := by
  apply moves_of_wp
  intro env st
  simp only [acceptNew, create, setSession, wp_do, wp_ensure]
  refine wp_mono (evolution_encloses.expireSessions env.now).wp (fun _ st₁ h₁ => ⟨fun _ => ?_, fun _ => h₁⟩)
    fun _ _ h₁ => h₁
  apply wp_admitLogicalId
  · intro times
    refine h₁.trans ?_
    unfold Evolution
    dsimp only
    rw [roster_entered rfl]
    exact Roster.evolves_entered hc
  · intro e times
    exact h₁.trans (evolution_times c times)

theorem moves_acceptExisting {c : ConnId} (hc : c ∈ grows) (logicalId : LogicalId) (id : SessionId) :
    Moves (Evolution grows) (acceptExisting setup c logicalId id) := by
  apply moves_of_wp
  intro env st
  simp only [acceptExisting, setConnection, setSession, wp_do, wp_ite]
  apply wp_admitLogicalId
  · intro times
    refine ⟨fun _ => ?_, fun _ => ?_⟩
    · unfold Evolution
      simp only [Function.update_idem, Function.update_self]
      rw [roster_ids]
      exact Roster.evolves_ids fun hnot => absurd hc hnot
    · unfold Evolution
      dsimp only
      rw [roster_bound]
      exact Roster.evolves_bound hc
  · intro e times
    exact evolution_times c times

theorem moves_acceptMessage {c : ConnId} (hc : c ∈ grows) (logicalId : LogicalId) (fresh : SessionId) :
    Moves (Evolution grows) (acceptMessage setup c logicalId fresh) := by
  apply moves_of_wp
  intro env st
  simp only [acceptMessage, wp_do]
  cases st.logicalSessions logicalId with
  | none => exact (moves_acceptNew hc logicalId fresh).wp
  | some id =>
    rw [wp_ite]
    refine ⟨fun _ => ?_, fun _ => (moves_acceptExisting hc logicalId id).wp⟩
    exact (evolution_encloses.bind (evolution_encloses.discardSession id)
      fun _ => moves_acceptNew hc logicalId fresh).wp

theorem moves_receive {c : ConnId} (hc : c ∈ grows) (logicalId : LogicalId) (messageId : Nat)
    (message : Json) (fresh : SessionId) :
    Moves (Evolution grows) (receive setup c logicalId messageId message fresh) := by
  apply moves_of_wp
  intro env st
  simp only [receive, wp_do, wp_ite, wp_rescue, markClosed]
  refine ⟨fun _ => .refl st, fun _ => ?_⟩
  exact wp_mono (moves_acceptMessage hc logicalId fresh).wp (fun _ _ h => h)
    fun _ st' h => h.trans (evolution_encloses.shut st' c)

/-! ### Steps -/

theorem moves_run (action : Action) : Moves (Evolution action.grows) (action.run setup) := by
  cases action with
  | receive c logicalId messageId message fresh =>
    exact evolution_encloses.done
      (moves_receive (Set.mem_singleton c) logicalId messageId message fresh)
  | serve n verified =>
    refine evolution_encloses.done (evolution_encloses.serveNext ?_ ?_ n verified)
    · exact fun _ _ => evolution_of_eq rfl
    · exact fun _ _ _ => evolution_of_eq (roster_set rfl)
  | _ => exact evolution_encloses.run rfl

variable (setup) in
theorem evolution_next (st : ServerState) (event : Event) :
    Evolution event.action.grows st (st.next setup event) :=
  moves_run event.action event.env st

theorem evolution_after (st : ServerState) (events : List Event)
    (h : ∀ event ∈ events, event.action.grows ⊆ grows) : Evolution grows st (st.after setup events) := by
  induction events generalizing st with
  | nil => exact .refl st
  | cons event rest ih =>
    have hstep : Evolution grows st (st.next setup event) :=
      (evolution_next setup st event).mono (h event (.head _))
    exact hstep.trans (ih _ fun event hmem => h event (.tail _ hmem))

end Moves

end CallBackend.Server
