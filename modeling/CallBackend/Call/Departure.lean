import CallBackend.Call.Policy
import CallBackend.Call.Membership

/-!
# Leaving and disconnecting

A session is indexed under the room it is in, and its membership is filed under the address it had
when it joined; `leave` and `disconnected` look the membership up under the address the session has
now. As long as the two agree at every departure and no write fails while memberships are taken
away, the index, the metadata and the memberships stay linked: a room ends with the session that
created it, and a session that has left is no member of any room. A session that proves another
address while it is in a room breaks this.
-/

namespace CallBackend.Call

open Exec

structure Registry.Linked (c : Registry) : Prop where
  indexed : ∀ roomId p member, c.Holds roomId p member →
    c.sessionRooms.get? member.session = some roomId
  present : ∀ session roomId, c.sessionRooms.get? session = some roomId →
    ∃ p member, c.Holds roomId p member ∧ member.session = session
  metadata : ∀ session roomId, c.callRoomId session = some roomId →
    c.sessionRooms.get? session = some roomId

def Registry.Founded (c : Registry) (creators : RoomId → Option SessionId) : Prop :=
  ∀ roomId p, c.Leads roomId p → ∃ member, c.Holds roomId p member ∧
    creators roomId = some member.session

def Settled (env : CallEnv) (c : Registry) (session : SessionId) : Prop :=
  ∀ roomId p member, c.Holds roomId p member → member.session = session →
    (env.sessions session).authenticatedUser = some p ∨
      ∃ q, c.Leads roomId q ∧ (env.sessions session).authenticatedUser = some q

def Own (env : CallEnv) (c : Registry) (session : SessionId) : Prop :=
  ∀ roomId p member, c.Holds roomId p member → member.session = session →
    (env.sessions session).authenticatedUser = some p

def Operation.Clean (op : Operation) (env : CallEnv) (c : Registry) : Prop :=
  match op with
  | .depart session => Settled env c session ∧ ¬Faulty env
  | .moderate host request => request.operation = .remove → ¬Faulty env ∧
      ∀ room member, c.rooms.get? request.roomId = some room → request.Authorized env host room →
        room.members.get? request.target = some member → Own env c member.session
  | .expire _ => ¬Faulty env
  | _ => True

/-- No creator removes a participant who is a member through the creator's own session. -/
def Operation.SparesHost (op : Operation) (env : CallEnv) (c : Registry) : Prop :=
  match op with
  | .moderate host request => request.operation = .remove →
      ∀ room member, c.rooms.get? request.roomId = some room → request.Authorized env host room →
        room.members.get? request.target = some member → member.session ≠ host
  | _ => True

section Changes

variable {setup : Setup} {env : CallEnv} {op : Operation} {c c' : Registry}
  {session : SessionId} {room : Room}

theorem Operation.Clean.only {participantId : ParticipantId} (hclean : op.Clean env c) (h : c.Linked)
    (hroom : c.rooms.get? room.roomId = some room) (hremoves : op.Removes env c room session)
    (hheld : ∃ m, c.Holds room.roomId participantId m ∧ m.session = session)
    (hidentity : (env.sessions session).authenticatedUser = some participantId) {roomId : RoomId}
    {p : ParticipantId} {m : Member} (hm : c.Holds roomId p m) (hsession : m.session = session) :
    roomId = room.roomId ∧ p = participantId := by
  obtain ⟨m', hm', hsession'⟩ := hheld
  have hroomId : roomId = room.roomId := by
    have h₁ := h.indexed _ _ _ hm
    have h₂ := h.indexed _ _ _ hm'
    rw [hsession] at h₁
    rw [hsession', h₁] at h₂
    exact Option.some.inj h₂
  refine ⟨hroomId, ?_⟩
  cases op with
  | depart actor =>
    obtain ⟨rfl, -, hother⟩ := hremoves
    rcases hclean.1 _ _ _ hm hsession with huser | ⟨q, hleads, huser⟩
    · exact Option.some.inj (huser.symm.trans hidentity)
    · rw [hroomId, Registry.leads_of_room hroom] at hleads
      exact absurd (hleads ▸ huser) hother
  | moderate host request =>
    obtain ⟨hop, hid, hauth, target, htarget, hsame⟩ := hremoves
    have howns := (hclean hop).2 room target (hid ▸ hroom) hauth htarget
    rw [hsame] at howns
    exact Option.some.inj ((howns _ _ _ hm hsession).symm.trans hidentity)
  | _ => exact hremoves.elim

theorem Operation.Clean.unfaulty_of_removes (hclean : op.Clean env c)
    (hremoves : op.Removes env c room session) : ¬Faulty env := by
  cases op with
  | depart actor => exact hclean.2
  | moderate host request => exact (hclean hremoves.1).1
  | _ => exact hremoves.elim

theorem Operation.Clean.unfaulty_of_ends (hclean : op.Clean env c) (hends : op.Ends env c room) :
    ¬Faulty env := by
  cases op with
  | depart actor => exact hclean.2
  | expire roomId => exact hclean
  | _ => exact hends.elim

/-- A session that is free or already in the room gets one more membership of it. -/
theorem Registry.Linked.bound {roomId : RoomId} (h : c.Linked)
    (hindex : c'.sessionRooms = c.sessionRooms.set session roomId)
    (hmeta : c'.callRoomId = Function.update c.callRoomId session (some roomId))
    (hfree : c.sessionRooms.get? session = none ∨ c.sessionRooms.get? session = some roomId)
    (hnew : ∀ r p m, c'.Holds r p m → (r = roomId ∧ m.session = session) ∨ c.Holds r p m)
    (hold : ∀ r p m, c.Holds r p m → m.session ≠ session → c'.Holds r p m)
    (hheld : ∃ p m, c'.Holds roomId p m ∧ m.session = session) : c'.Linked := by
  refine ⟨fun r p m hm => ?_, fun s r hs => ?_, fun s r hs => ?_⟩
  · rw [hindex, Dict.get?_set]
    split_ifs with hsession
    · rcases hnew r p m hm with ⟨hr, -⟩ | hm
      · rw [hr]
      · have hr := h.indexed r p m hm
        rw [← hsession] at hr
        rcases hfree with hfree | hfree <;> rw [hfree] at hr
        · cases hr
        · exact hr
    · rcases hnew r p m hm with ⟨-, hs⟩ | hm
      · exact absurd hs.symm hsession
      · exact h.indexed r p m hm
  · rw [hindex, Dict.get?_set] at hs
    split_ifs at hs with hsession
    · rw [← Option.some.inj hs, ← hsession]
      exact hheld
    · obtain ⟨p, m, hm, hms⟩ := h.present s r hs
      exact ⟨p, m, hold r p m hm (fun heq => hsession (heq.symm.trans hms)), hms⟩
  · rw [hindex, Dict.get?_set]
    rw [hmeta] at hs
    by_cases hsession : s = session
    · rw [hsession, Function.update_self] at hs
      rw [if_pos hsession.symm, hs]
    · rw [Function.update_of_ne hsession] at hs
      rw [if_neg (Ne.symm hsession)]
      exact h.metadata s r hs

theorem Change.linked (hchange : Change setup env op c c') (h : c.Linked) (hclean : op.Clean env c) :
    c'.Linked := by
  cases hchange with
  | kept hholds _ hindex hmeta =>
    refine ⟨fun r p m hm => ?_, fun s r hs => ?_, fun s r hs => ?_⟩
    · rw [hindex]
      exact h.indexed r p m ((hholds r p m).1 hm)
    · obtain ⟨p, m, hm, hsession⟩ := h.present s r (hindex ▸ hs)
      exact ⟨p, m, (hholds r p m).2 hm, hsession⟩
    · rw [hindex]
      exact h.metadata s r (hmeta s r hs)
  | @opened _ _ session request habsent hfree hholds _ hindex hmeta =>
    refine h.bound hindex hmeta (.inl hfree) (fun r p m hm => ?_) (fun r p m hm hne => ?_)
      ⟨_, _, (hholds _ _ _).2 (.inl ⟨rfl, rfl, rfl⟩), rfl⟩
    · rcases (hholds r p m).1 hm with ⟨hr, -, hm⟩ | hm
      · exact .inl ⟨hr, by rw [hm]; rfl⟩
      · exact .inr hm
    · exact (hholds r p m).2 (.inr hm)
  | @joined _ _ session request hexists hfree hown hholds _ hindex hmeta =>
    refine h.bound hindex hmeta hfree (fun r p m hm => ?_) (fun r p m hm hne => ?_)
      ⟨_, _, (hholds _ _ _).2 (by rw [if_pos ⟨rfl, rfl⟩]), rfl⟩
    · rw [hholds] at hm
      split_ifs at hm with hp
      · exact .inl ⟨hp.1, by rw [hm]; rfl⟩
      · exact .inr hm
    · rw [hholds, if_neg]
      · exact hm
      · rintro ⟨rfl, rfl⟩
        exact hne (hown m hm)
  | @removed _ _ _ session room participantId hroom hremoves hheld hidentity hholds _ hindex hmeta =>
    have hunfaulty := hclean.unfaulty_of_removes hremoves
    have hother : ∀ r p m, c'.Holds r p m → session ≠ m.session := by
      intro r p m hm hsession
      obtain ⟨hm, hne⟩ := (hholds r p m).1 hm
      exact hne (hclean.only h hroom hremoves hheld hidentity hm hsession.symm)
    refine ⟨fun r p m hm => ?_, fun s r hs => ?_, fun s r hs => ?_⟩
    · rw [hindex, Dict.get?_erase_of_ne _ (hother r p m hm)]
      exact h.indexed r p m ((hholds r p m).1 hm).1
    · rw [hindex] at hs
      obtain ⟨hne, hs⟩ := Dict.get?_erase_eq_some hs
      obtain ⟨p, m, hm, hms⟩ := h.present s r hs
      refine ⟨p, m, (hholds r p m).2 ⟨hm, ?_⟩, hms⟩
      rintro ⟨rfl, rfl⟩
      obtain ⟨m', hm', hsession⟩ := hheld
      rw [Registry.holds_of_room hroom] at hm hm'
      rw [hm', Option.some.injEq] at hm
      exact hne (hsession.symm.trans (hm ▸ hms))
    · obtain ⟨hs, hfaulty⟩ := hmeta s r hs
      rw [hindex, Dict.get?_erase_of_ne _ fun heq => hunfaulty (hfaulty heq.symm)]
      exact h.metadata s r hs
  | @ended _ _ _ room sessions hroom hends hall hpre hholds _ hindex hmeta =>
    have hsessions : sessions = room.sessions := hall.resolve_right (hclean.unfaulty_of_ends hends)
    have hmem : ∀ s, s ∈ sessions ↔ ∃ p m, c.Holds room.roomId p m ∧ m.session = s := by
      intro s
      simp only [hsessions, Room.sessions, List.mem_map, Dict.mem_values_iff,
        Registry.holds_of_room hroom]
      constructor
      · rintro ⟨m, ⟨p, hp⟩, hs⟩
        exact ⟨p, m, hp, hs⟩
      · rintro ⟨p, m, hp, hs⟩
        exact ⟨m, ⟨p, hp⟩, hs⟩
    refine ⟨fun r p m hm => ?_, fun s r hs => ?_, fun s r hs => ?_⟩
    · obtain ⟨hne, hm⟩ := (hholds r p m).1 hm
      have hr := h.indexed r p m hm
      rw [hindex, if_neg]
      · exact hr
      · rw [hmem]
        rintro ⟨p', m', hm', hs⟩
        have hr' := h.indexed _ _ _ hm'
        rw [hs, hr] at hr'
        exact hne (Option.some.inj hr').symm
    · rw [hindex] at hs
      split_ifs at hs with hin
      obtain ⟨p, m, hm, hms⟩ := h.present s r hs
      refine ⟨p, m, (hholds r p m).2 ⟨?_, hm⟩, hms⟩
      rintro rfl
      exact hin ((hmem s).2 ⟨p, m, hm, hms⟩)
    · rw [hmeta] at hs
      split_ifs at hs with hin
      rw [hindex, if_neg hin]
      exact h.metadata s r hs

/-- Operations that let nobody in only take memberships away, and leave who leads the remaining
rooms. -/
theorem Change.fewer (hchange : Change setup env op c c')
    (hop : (∀ session request, op ≠ .create session request) ∧
      ∀ session request, op ≠ .join session request) :
    (∀ r p m, c'.Holds r p m → c.Holds r p m) ∧
      ∀ r p m q, c'.Holds r p m → c.Leads r q → c'.Leads r q := by
  cases hchange with
  | kept hholds hleads _ _ => exact ⟨fun r p m => (hholds r p m).1, fun r _ _ q _ => (hleads r q).2⟩
  | opened _ _ _ _ _ _ => exact absurd rfl (hop.1 _ _)
  | joined _ _ _ _ _ _ _ => exact absurd rfl (hop.2 _ _)
  | removed _ _ _ _ hholds hleads _ _ =>
    exact ⟨fun r p m hm => ((hholds r p m).1 hm).1, fun r _ _ q _ => (hleads r q).2⟩
  | ended _ _ _ _ hholds hleads _ _ =>
    exact ⟨fun r p m hm => ((hholds r p m).1 hm).2,
      fun r p m q hm hq => (hleads r q).2 ⟨((hholds r p m).1 hm).1, hq⟩⟩

theorem Effect.clean (he : Effect setup env op c c') (hclean : op.Clean env c) : op.Clean env c' := by
  cases op with
  | depart session =>
    have hfewer := he.change.fewer ⟨by simp, by simp⟩
    refine ⟨fun r p m hm hsession => ?_, hclean.2⟩
    rcases hclean.1 r p m (hfewer.1 r p m hm) hsession with huser | ⟨q, hleads, huser⟩
    · exact .inl huser
    · exact .inr ⟨q, hfewer.2 r p m q hm hleads, huser⟩
  | moderate host request =>
    have hfewer := he.change.fewer ⟨by simp, by simp⟩
    intro hop
    refine ⟨(hclean hop).1, fun room' member hroom' hauth hmember r p m hm hsession => ?_⟩
    obtain ⟨room, hroom, hmembers, hinitiator, hexpiry⟩ := he.shrinks _ room' hroom'
    exact (hclean hop).2 room member hroom (hauth.of_shrunk hmembers hinitiator hexpiry)
      (hmembers _ _ hmember) r p m (hfewer.1 r p m hm) hsession
  | expire roomId => exact hclean
  | _ => exact trivial

def Operation.creator : Operation → Option SessionId
  | .create session _ => some session
  | _ => none

/-- Every room is led by a member in the session that created it, when the rooms absent from
`before` were created by this operation. -/
def FoundedSince (op : Operation) (creators : RoomId → Option SessionId) (before c : Registry) : Prop :=
  ∀ roomId p, c.Leads roomId p → ∃ member, c.Holds roomId p member ∧
    (if before.rooms.get? roomId = none then op.creator else creators roomId) = some member.session

theorem Operation.Clean.sparesHost (hclean : op.Clean env c) : op.SparesHost env c := by
  cases op with
  | moderate host request =>
    intro hop room member hroom hauth hmember hsame
    have howns := (hclean hop).2 room member hroom hauth hmember
    obtain ⟨hactor, ⟨leader, hleader, hown⟩, -, htarget⟩ := hauth
    have huser := howns _ _ _ ⟨room, hroom, hmember⟩ rfl
    rw [howns _ _ _ ⟨room, hroom, hleader⟩ (hown.trans hsame.symm), Option.some.injEq] at huser
    exact htarget huser.symm
  | _ => exact trivial

theorem Effect.sparesHost (he : Effect setup env op c c') (hspares : op.SparesHost env c) :
    op.SparesHost env c' := by
  cases op with
  | moderate host request =>
    intro hop room' member hroom' hauth hmember
    obtain ⟨room, hroom, hmembers, hinitiator, hexpiry⟩ := he.shrinks _ room' hroom'
    exact hspares hop room member hroom (hauth.of_shrunk hmembers hinitiator hexpiry)
      (hmembers _ _ hmember)
  | _ => exact trivial

theorem Change.founded {creators : RoomId → Option SessionId} {before : Registry}
    (hchange : Change setup env op c c') (h : FoundedSince op creators before c)
    (hspares : op.SparesHost env c)
    (hkeeps : ∀ roomId session request, op = .create session request →
      before.rooms.get? roomId ≠ none → c.rooms.get? roomId ≠ none) :
    FoundedSince op creators before c' := by
  intro roomId p hleads
  cases hchange with
  | kept hholds hleads' _ _ =>
    obtain ⟨m, hm, hcreator⟩ := h roomId p ((hleads' roomId p).1 hleads)
    exact ⟨m, (hholds roomId p m).2 hm, hcreator⟩
  | @opened _ _ session request habsent _ hholds hleads' _ _ =>
    rcases (hleads' roomId p).1 hleads with ⟨rfl, rfl⟩ | hleads
    · refine ⟨request.member session, (hholds _ _ _).2 (.inl ⟨rfl, rfl, rfl⟩), ?_⟩
      rw [if_pos (by_contra fun hne => hkeeps _ session request rfl hne habsent)]
      rfl
    · obtain ⟨m, hm, hcreator⟩ := h roomId p hleads
      exact ⟨m, (hholds roomId p m).2 (.inr hm), hcreator⟩
  | @joined _ _ session request _ _ hown hholds hleads' _ _ =>
    obtain ⟨m, hm, hcreator⟩ := h roomId p ((hleads' roomId p).1 hleads)
    by_cases hp : roomId = request.roomId ∧ p = request.participantId
    · obtain ⟨rfl, rfl⟩ := hp
      refine ⟨request.member session, (hholds _ _ _).2 (by rw [if_pos ⟨rfl, rfl⟩]), ?_⟩
      rw [hcreator, hown m hm]
      rfl
    · exact ⟨m, (hholds roomId p m).2 (by rw [if_neg hp]; exact hm), hcreator⟩
  | @removed _ _ _ session room participantId hroom hremoves hheld hidentity hholds hleads' _ _ =>
    have hleads := (hleads' roomId p).1 hleads
    obtain ⟨m, hm, hcreator⟩ := h roomId p hleads
    refine ⟨m, (hholds roomId p m).2 ⟨hm, ?_⟩, hcreator⟩
    -- the leader is never the member that is removed
    rintro ⟨rfl, rfl⟩
    rw [Registry.leads_of_room hroom] at hleads
    cases op with
    | depart actor => exact hremoves.2.2 (hleads ▸ hidentity)
    | moderate host request =>
      obtain ⟨hop, hid, hauth, target, htarget, hsame⟩ := hremoves
      obtain ⟨leader, hleader, hsession⟩ := hheld
      obtain ⟨host', hhost, hown⟩ := hauth.2.1
      refine hspares hop room target (hid ▸ hroom) hauth htarget ?_
      rw [Registry.holds_of_room hroom, ← hleads, ← hauth.1, hhost, Option.some.injEq] at hleader
      rw [hsame, ← hsession, ← hleader, hown]
    | _ => exact hremoves.elim
  | ended _ _ _ _ hholds hleads' _ _ =>
    obtain ⟨hne, hleads⟩ := (hleads' roomId p).1 hleads
    obtain ⟨m, hm, hcreator⟩ := h roomId p hleads
    exact ⟨m, (hholds roomId p m).2 ⟨hne, hm⟩, hcreator⟩

theorem Effects.founded {creators : RoomId → Option SessionId} (he : Effects setup env op c c')
    (hfounded : c.Founded creators) (hspares : op.SparesHost env c) :
    FoundedSince op creators c c' := by
  suffices hall : FoundedSince op creators c c' ∧ op.SparesHost env c' ∧
      ∀ roomId session request, op = .create session request →
        c.rooms.get? roomId ≠ none → c'.rooms.get? roomId ≠ none from hall.1
  induction he with
  | refl =>
    refine ⟨fun roomId p hleads => ?_, hspares, fun _ _ _ _ h => h⟩
    obtain ⟨m, hm, hcreator⟩ := hfounded roomId p hleads
    obtain ⟨room, hroom, -⟩ := hleads
    exact ⟨m, hm, by rw [if_neg (by rw [hroom]; simp)]; exact hcreator⟩
  | tail _ heffect ih =>
    obtain ⟨hfounded', hspares', hkeeps⟩ := ih
    refine ⟨heffect.change.founded hfounded' hspares' hkeeps, heffect.sparesHost hspares',
      fun roomId session request hop hroom => ?_⟩
    have hkept := hkeeps roomId session request hop hroom
    subst hop
    exact heffect.create_keeps hkept

theorem Effects.linked (he : Effects setup env op c c') (h : c.Linked) (hclean : op.Clean env c) :
    c'.Linked := by
  suffices hall : c'.Linked ∧ op.Clean env c' from hall.1
  induction he with
  | refl => exact ⟨h, hclean⟩
  | tail _ heffect ih => exact ⟨heffect.change.linked ih.1 ih.2, heffect.clean ih.2⟩

end Changes

/-! ### What a departure achieves -/

section Departing

variable {setup : Setup} {env : CallEnv} {st : CallState}

def Registry.Free (c : Registry) (session : SessionId) : Prop :=
  ∀ roomId p member, c.Holds roomId p member → member.session ≠ session

def Departed (env : CallEnv) (session : SessionId) (c c' : Registry) : Prop :=
  c'.Free session ∧ ∀ roomId room, c.sessionRooms.get? session = some roomId →
    c.rooms.get? roomId = some room → (env.sessions session).authenticatedUser = some room.initiatorId →
    c'.rooms.get? roomId = none

variable {session : SessionId}

theorem wp_departLocked_clean {room : Room} {reason : EndReason} (hlinked : st.toRegistry.Linked)
    (hclean : (Operation.depart session).Clean env st.toRegistry)
    (hroom : st.rooms.get? room.roomId = some room)
    (hindex : st.sessionRooms.get? session = some room.roomId) :
    wp (departLocked setup session (env.sessions session).authenticatedUser room reason) env st
      (fun _ st' => Departed env session st.toRegistry st'.toRegistry) (fun _ _ => False) := by
  suffices hsuffices : wp (departLocked setup session (env.sessions session).authenticatedUser room reason)
      env st (fun _ st' => st'.toRegistry.Free session ∧
        ((env.sessions session).authenticatedUser = some room.initiatorId →
          st'.rooms.get? room.roomId = none)) (fun _ _ => False) by
    refine wp_mono hsuffices (fun _ st' h => ⟨h.1, fun r room' hr hroom' hleads => ?_⟩) fun _ _ h => h
    rw [hindex, Option.some.injEq] at hr
    rw [← hr, hroom, Option.some.injEq] at hroom'
    rw [← hr]
    exact h.2 (hroom' ▸ hleads)
  have hwithin : ∀ r p m, st.toRegistry.Holds r p m → m.session = session → r = room.roomId := by
    intro r p m hm hsession
    have hr := hlinked.indexed r p m hm
    rw [hsession, hindex] at hr
    exact (Option.some.inj hr).symm
  unfold departLocked
  rw [wp_ite]
  refine ⟨fun huser => ?_, fun huser => ?_⟩
  · simp only [wp_do]
    refine wp_endRoomLocked (fun st₁ h₁ => ?_) fun _ _ hf _ _ => hclean.2 hf
    refine wp_clearSessionMetadata (fun st₂ h₂ => ⟨fun r p m hm hsession => ?_, fun _ => ?_⟩)
      fun _ hf _ => hclean.2 hf
    · have hrooms : st₂.toRegistry.rooms = st.rooms.erase room.roomId := by
        rw [h₂, h₁]
        exact Registry.forgetAll_rooms ..
      obtain ⟨hne, hm⟩ := (Registry.holds_erase (c := st.toRegistry) hrooms r p m).1 hm
      exact hne (hwithin r p m hm hsession).symm
    · rw [h₂, h₁]
      change (Registry.forgetAll _ _).rooms.get? _ = none
      rw [Registry.forgetAll_rooms]
      exact Dict.get?_erase_self ..
  · simp only [wp_do]
    have howns : ∀ r p m, st.toRegistry.Holds r p m → m.session = session →
        (env.sessions session).authenticatedUser = some p := by
      intro r p m hm hsession
      rcases hclean.1 r p m hm hsession with hp | ⟨q, hleads, hq⟩
      · exact hp
      · rw [hwithin r p m hm hsession, Registry.leads_of_room hroom] at hleads
        exact absurd (hleads ▸ hq) huser
    refine wp_removeMemberLocked (fun hun => ?_) (fun p member screen st₁ hp _ _ h₁ => ?_)
      fun _ _ _ _ hf _ _ _ _ => hclean.2 hf
    · obtain ⟨p, m, hm, hsession⟩ := hlinked.present session room.roomId hindex
      exact absurd hsession
        (hun p m (howns _ _ _ hm hsession) ((Registry.holds_of_room hroom p m).1 hm))
    · refine wp_clearSessionMetadata (fun st₂ h₂ => ⟨fun r q m hm hsession => ?_, fun h => absurd h huser⟩)
        fun _ hf _ => hclean.2 hf
      have hrooms : st₂.toRegistry.rooms =
          st.rooms.set (room.depart p screen).roomId (room.depart p screen) := by
        rw [h₂, h₁]
        rfl
      rw [Registry.holds_set (c := st.toRegistry) hrooms] at hm
      split_ifs at hm with hr
      · obtain ⟨hne, hq⟩ := Dict.get?_erase_eq_some hm
        have huser' := howns _ q m ((Registry.holds_of_room hroom q m).2 hq) hsession
        exact hne (Option.some.inj (hp.symm.trans huser'))
      · exact hr (hwithin r q m hm hsession).symm

theorem wp_leaveLocked_clean {request : LeaveRequest} (hkeyed : st.toRegistry.Keyed)
    (hlinked : st.toRegistry.Linked) (hclean : (Operation.depart session).Clean env st.toRegistry)
    (huser : (env.sessions session).authenticatedUser = some request.participantId) :
    wp (leaveLocked setup session request) env st
      (fun _ st' => Departed env session st.toRegistry st'.toRegistry) (fun _ _ => True) := by
  unfold leaveLocked
  simp only [wp_do, wp_ensure, wp_require]
  refine ⟨fun hindex => ⟨fun room hroom => ?_, fun _ => trivial⟩, fun _ => trivial⟩
  have hid : room.roomId = request.roomId := hkeyed _ _ hroom
  rw [← hid] at hroom hindex
  rw [← huser]
  exact wp_mono (wp_departLocked_clean hlinked hclean hroom hindex) (fun _ _ h => h) fun _ _ h => h.elim

theorem wp_disconnected_clean (hkeyed : st.toRegistry.Keyed) (hlinked : st.toRegistry.Linked)
    (hclean : (Operation.depart session).Clean env st.toRegistry) :
    wp (disconnected setup session) env st
      (fun _ st' => Departed env session st.toRegistry st'.toRegistry) (fun _ _ => False) := by
  unfold disconnected
  simp only [wp_do]
  cases hindex : st.sessionRooms.get? session with
  | none =>
    refine ⟨fun r p m hm hsession => ?_, fun r room hr => ?_⟩
    · have hr := hlinked.indexed r p m hm
      rw [hsession, hindex] at hr
      cases hr
    · rw [hindex] at hr
      cases hr
  | some roomId =>
    obtain ⟨p, m, ⟨room, hroom, -⟩, -⟩ := hlinked.present session roomId hindex
    have hid : room.roomId = roomId := hkeyed _ _ hroom
    simp only [Option.bind_some, hroom, wp_do]
    rw [← hid] at hroom hindex
    exact wp_departLocked_clean hlinked hclean hroom hindex

end Departing

/-! ### Runs -/

section Runs

variable {setup : Setup} {w : World}

/-- A step that takes memberships away only under current addresses and without a failing write, or
a restart that finds no session recorded in a call. -/
def Cleanly (setup : Setup) (w : World) (event : Event) : Prop :=
  (∀ op, event.action.operation setup w.views = some op → op.Clean (w.env event) w.call.toRegistry) ∧
    ∀ views metadata, event.action = .restart views metadata → ∀ session, metadata session = none

structure World.Linked (setup : Setup) (w : World) : Prop where
  covered : w.call.toRegistry.Covered setup
  linked : w.call.toRegistry.Linked
  founded : w.call.toRegistry.Founded w.creators

def SparesHost (setup : Setup) (w : World) (event : Event) : Prop :=
  ∀ op, event.action.operation setup w.views = some op → op.SparesHost (w.env event) w.call.toRegistry

variable {event : Event}

theorem Cleanly.sparesHost (hclean : Cleanly setup w event) :
    SparesHost setup w event :=
  fun op hop => (hclean.1 op hop).sparesHost

theorem founded_next (hkeyed : w.call.toRegistry.Keyed) (h : w.call.toRegistry.Founded w.creators)
    (hspares : SparesHost setup w event) :
    (w.next setup event).call.toRegistry.Founded (w.next setup event).creators := by
  rcases next_registry hkeyed event with ⟨views, metadata, haction, hcall⟩ | heq |
    ⟨op, hop, heffects⟩
  · rw [hcall]
    rintro r p ⟨_, hroom, _⟩
    cases hroom
  · rw [heq]
    intro r p hleads
    obtain ⟨m, hm, hcreator⟩ := h r p hleads
    obtain ⟨room, hroom, -⟩ := hleads
    refine ⟨m, hm, ?_⟩
    rw [← hcreator]
    exact creators_of_exists event.action (by rw [hroom]; simp)
  · intro r p hleads
    obtain ⟨m, hm, hcreator⟩ := heffects.founded h (hspares op hop) r p hleads
    refine ⟨m, hm, ?_⟩
    split_ifs at hcreator with hbefore
    · cases op with
      | create session request =>
        obtain ⟨room, hroom, -⟩ := hleads
        have hafter : (w.next setup event).call.rooms.get? r ≠ none := by
          rw [hroom]
          simp
        rw [← hcreator]
        exact creators_of_create hop hbefore hafter
      | _ => cases hcreator
    · rw [← hcreator]
      exact creators_of_exists event.action hbefore

theorem linked_next (h : w.Linked setup) (hclean : Cleanly setup w event) :
    (w.next setup event).Linked setup := by
  refine ⟨covered_next event h.covered, ?_, founded_next h.covered.keyed h.founded hclean.sparesHost⟩
  rcases next_registry h.covered.keyed event with ⟨views, metadata, haction, hcall⟩ | heq |
    ⟨op, hop, heffects⟩
  · have hempty : ∀ r p m, ¬(restart setup metadata w.call).toRegistry.Holds r p m :=
      fun _ _ _ ⟨_, hroom, _⟩ => by cases hroom
    rw [hcall]
    refine ⟨fun r p m hm => absurd hm (hempty r p m), fun s r hs => ?_, fun s r hs => ?_⟩
    · cases hs
    · rw [show (restart setup metadata w.call).callRoomId s = metadata s from rfl,
        hclean.2 views metadata haction s] at hs
      cases hs
  · rw [heq]
    exact h.linked
  · exact heffects.linked h.linked (hclean.1 op hop)

variable {session : SessionId}

theorem cleanly_changed {change : SessionChange} (haction : event.action = .changed session change) :
    Cleanly setup w event := by
  refine ⟨fun op hop => ?_, fun views metadata hrestart => ?_⟩
  · simp [haction, Action.operation] at hop
  · rw [haction] at hrestart
    cases hrestart

theorem cleanly_message {content : Json} (haction : event.action = .message session content)
    (hleave : handlerFor content ≠ some .leave) (hmoderate : handlerFor content ≠ some .moderate) :
    Cleanly setup w event := by
  refine ⟨fun op hop => ?_, fun views metadata hrestart => ?_⟩
  · simp only [haction, Action.operation, requestedOperation] at hop
    split at hop
    · obtain ⟨request, -, rfl⟩ := Option.map_eq_some_iff.1 hop
      trivial
    · obtain ⟨request, -, rfl⟩ := Option.map_eq_some_iff.1 hop
      trivial
    · exact absurd ‹_› hleave
    · cases hop
    · exact absurd ‹_› hmoderate
    · cases hop
      trivial
    · cases hop
  · rw [haction] at hrestart
    cases hrestart

theorem linked_empty (hcall : w.call = {}) : w.Linked setup := by
  constructor
  · rw [hcall]
    exact covered_init setup
  · rw [hcall]
    refine ⟨fun r p m ⟨_, hroom, _⟩ => ?_, fun s r hs => ?_, fun s r hs => ?_⟩
    · cases hroom
    · cases hs
    · cases hs
  · rw [hcall]
    rintro r p ⟨_, hroom, -⟩
    cases hroom

theorem reachable_linked (h : (service setup).Reachable (Cleanly setup) w) : w.Linked setup := by
  refine h.invariant (I := fun w => w.Linked setup) (fun w hw => ?_) fun w event w' hw hok hstep => ?_
  · rw [hw]
    exact linked_empty rfl
  · rw [hstep]
    exact linked_next hw hok

/-- The session leaves its room, and the service accepts it, or the session is reported as
disconnected. -/
def Departs (setup : Setup) (w : World) (event : Event) (session : SessionId) : Prop :=
  event.action = .disconnected session ∨
    ∃ content plan, event.action = .message session content ∧ handlerFor content = some .leave ∧
      w.outcome setup event = .ok plan

theorem departed_next (h : w.Linked setup) (hclean : Cleanly setup w event)
    (hdeparts : Departs setup w event session) :
    Departed (w.env event) session w.call.toRegistry (w.next setup event).call.toRegistry ∧
      (Operation.depart session).Clean (w.env event) w.call.toRegistry := by
  rcases hdeparts with haction | ⟨content, plan, haction, hhandler, houtcome⟩
  · have hc : (Operation.depart session).Clean (w.env event) w.call.toRegistry :=
      hclean.1 _ (by rw [haction]; rfl)
    have hrun : event.action.run setup (w.env event) w.call =
        disconnected setup session (w.env event) w.call := by
      rw [haction]
      rfl
    rcases served hrun (wp_disconnected_clean h.covered.keyed h.linked hc) with ⟨plan, -, hd⟩ | ⟨e, -, hfalse⟩
    · exact ⟨hd, hc⟩
    · exact hfalse.elim
  · have hwp : wp (leave setup session content) (w.env event) w.call
        (fun _ st' => Departed (w.env event) session w.call.toRegistry st'.toRegistry ∧
          (Operation.depart session).Clean (w.env event) w.call.toRegistry) (fun _ _ => True) := by
      unfold leave parsed
      simp only [wp_do, wp_lift]
      refine ⟨fun request hrequest => ?_, fun _ _ => trivial⟩
      have hc : (Operation.depart session).Clean (w.env event) w.call.toRegistry := by
        refine hclean.1 _ ?_
        have hrequest : LeaveRequest.parse (w.views session) content = .ok request := hrequest
        simp [haction, Action.operation, requestedOperation, hhandler, hrequest, Except.toOption]
      exact wp_mono (wp_leaveLocked_clean h.covered.keyed h.linked hc (LeaveRequest.parse_ok hrequest).1)
        (fun _ _ hd => ⟨hd, hc⟩) fun _ _ h => h
    have hrun : event.action.run setup (w.env event) w.call =
        leave setup session content (w.env event) w.call := by
      simp only [haction, Action.run, dispatch, hhandler]
    rcases served hrun hwp with ⟨plan', -, hd⟩ | ⟨e, hfailed, -⟩
    · exact hd
    · rw [houtcome] at hfailed
      cases hfailed

/-- In every run whose departures are clean: when the session that created a room leaves it or is
disconnected, the room, its policy file and every reference to it are gone; and a session that has
left or disconnected is a member of no room. -/
theorem room_dies_with_creator {event : Event} {session : SessionId}
    (hreach : (service setup).Reachable (Cleanly setup) w) (hclean : Cleanly setup w event)
    (hdeparts : Departs setup w event session) :
    (∀ roomId, w.creators roomId = some session → (w.call.rooms.get? roomId).isSome →
      (w.next setup event).call.rooms.get? roomId = none ∧
      (w.next setup event).call.policies.get? roomId = none ∧
      (∀ s, (w.next setup event).call.sessionRooms.get? s ≠ some roomId) ∧
      ∀ s, (w.next setup event).call.callRoomId s ≠ some roomId) ∧
    ∀ roomId room p member, (w.next setup event).call.rooms.get? roomId = some room →
      room.members.get? p = some member → member.session ≠ session := by
  have hlinked := reachable_linked hreach
  have hlinked' := linked_next hlinked hclean
  obtain ⟨⟨hfree, hends⟩, hsettled, -⟩ := departed_next hlinked hclean hdeparts
  refine ⟨fun roomId hcreator hexists => ?_, fun roomId room p member hroom hmember =>
    hfree roomId p member ⟨room, hroom, hmember⟩⟩
  obtain ⟨room, hroom⟩ := Option.isSome_iff_exists.1 hexists
  obtain ⟨member, hmember, hfounder⟩ := hlinked.founded roomId room.initiatorId ⟨room, hroom, rfl⟩
  have hsession : member.session = session := Option.some.inj (hfounder.symm.trans hcreator)
  have hindex : w.call.sessionRooms.get? session = some roomId :=
    hsession ▸ hlinked.linked.indexed _ _ _ hmember
  have huser : (w.views session).authenticatedUser = some room.initiatorId := by
    rcases hsettled _ _ _ hmember hsession with huser | ⟨q, ⟨room', hroom', hq⟩, huser⟩
    · exact huser
    · rw [hroom, Option.some.injEq] at hroom'
      rw [hroom', hq]
      exact huser
  have hgone : (w.next setup event).call.rooms.get? roomId = none := hends roomId room hindex hroom huser
  have hunindexed : ∀ s, (w.next setup event).call.sessionRooms.get? s ≠ some roomId := by
    intro s hs
    obtain ⟨p, m, ⟨room', hroom', -⟩, -⟩ := hlinked'.linked.present s roomId hs
    rw [hgone] at hroom'
    cases hroom'
  refine ⟨hgone, ?_, hunindexed, fun s hs => hunindexed s (hlinked'.linked.metadata s roomId hs)⟩
  rw [Option.eq_none_iff_forall_not_mem]
  intro doc hdoc
  obtain ⟨room', hroom', -⟩ := hlinked'.covered.covered roomId doc hdoc
  rw [hgone] at hroom'
  cases hroom'

end Runs

open Sample in
theorem room_dies_with_creator_alice :
    let w := World.after setup {} opening
    (w.call.rooms.get? "room").isSome ∧
      (w.next setup (Sample.leave "host")).call.rooms.get? "room" = none := by
  intro w
  have hexists : (w.call.rooms.get? "room").isSome := by decide +kernel
  have hcreator : w.creators "room" = some "host" := by decide +kernel
  have hreach : (service setup).Reachable (Cleanly setup) w :=
    reachable_after_of_meets (.init rfl) ⟨cleanly_changed rfl, cleanly_changed rfl,
      cleanly_message rfl (by decide) (by decide), trivial⟩
  have hop : (Sample.leave "host").action.operation setup w.views = some (.depart "host") := by
    decide +kernel
  have hidentity : (w.call.rooms.values.all fun room => room.members.entries.all fun entry =>
      (w.views entry.2.session).authenticatedUser = some entry.1) = true := by decide +kernel
  have hclean : Cleanly setup w (Sample.leave "host") := by
    refine ⟨fun op hdepart => ?_, fun views metadata hrestart => by cases hrestart⟩
    obtain rfl : .depart "host" = op := Option.some.inj (hop.symm.trans hdepart)
    refine ⟨fun roomId p member ⟨room, hroom, hmember⟩ hsession => .inl ?_, fun ⟨_, hfail⟩ => by cases hfail⟩
    have hroom := List.all_eq_true.1 hidentity room ((Dict.mem_values_iff _ _).2 ⟨roomId, hroom⟩)
    have hmember := List.all_eq_true.1 hroom (p, member) ((Dict.mem_entries_iff _ _ _).2 hmember)
    rw [← hsession]
    exact of_decide_eq_true hmember
  have haccepted : (w.outcome setup (Sample.leave "host")).toOption.isSome := by decide +kernel
  have hdeparts : Departs setup w (Sample.leave "host") "host" := by
    cases houtcome : w.outcome setup (Sample.leave "host") with
    | ok plan => exact .inr ⟨_, plan, rfl, by decide, houtcome⟩
    | error e =>
      rw [houtcome] at haccepted
      cases haccepted
  exact ⟨hexists, ((room_dies_with_creator hreach hclean hdeparts).1 "room" hcreator hexists).1⟩

open Sample in
/-- The divergence: Alice opens a call, the session of Alice proves another address, and its leaving
is accepted while the room, the policy file and the membership of the session stay. -/
theorem room_survives_renamed_creator :
    let w := World.after setup {} (opening ++ [authenticated "host" "carol"])
    let w' := w.next setup (Sample.leave "host")
    (service setup).Reachable System.anyStep w ∧ w.creators "room" = some "host" ∧
    (w.outcome setup (Sample.leave "host")).toOption.isSome ∧
    (w'.call.policies.get? "room").isSome ∧
    ∃ room member, w'.call.rooms.get? "room" = some room ∧
      room.members.get? "alice" = some member ∧ member.session = "host" := by
  intro w w'
  have hroom : ((w'.call.rooms.get? "room").any fun room => (room.members.get? "alice").any fun member =>
      member.session = "host") = true := by decide +kernel
  refine ⟨reachable_after (.init rfl) _, by decide +kernel, by decide +kernel, by decide +kernel, ?_⟩
  obtain ⟨room, hroom, hmember⟩ := (Option.any_eq_true _ _).1 hroom
  obtain ⟨member, hmember, hsession⟩ := (Option.any_eq_true _ _).1 hmember
  exact ⟨room, member, hroom, hmember, of_decide_eq_true hsession⟩

end CallBackend.Call
