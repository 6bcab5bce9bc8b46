import CallBackend.Call.Departure

/-!
# Members and their sessions

A member of a room is in the room through a session. As long as nobody is admitted through a
session that has left the session manager, and no session leaves the session manager while it is in
a room, every member's session is registered and has proved an address.
-/

namespace CallBackend.Call

/-- The session a room may get a new member through. -/
def Operation.newcomer : Operation → Option SessionId
  | .create session _ => some session
  | .join session _ => some session
  | _ => none

section Changes

variable {setup : Setup} {env : CallEnv} {op : Operation} {c c' : Registry}

theorem Change.newcomer (h : Change setup env op c c') {roomId : RoomId} {p : ParticipantId}
    {member : Member} (hm : c'.Holds roomId p member) :
    c.Holds roomId p member ∨ op.newcomer = some member.session := by
  cases h with
  | kept hholds _ _ _ => exact .inl ((hholds roomId p member).1 hm)
  | opened _ _ hholds _ _ _ =>
    rcases (hholds roomId p member).1 hm with ⟨-, -, heq⟩ | hm
    · rw [heq]
      exact .inr rfl
    · exact .inl hm
  | joined _ _ _ hholds _ _ _ =>
    rw [hholds] at hm
    split_ifs at hm
    · rw [hm]
      exact .inr rfl
    · exact .inl hm
  | removed _ _ _ _ hholds _ _ _ => exact .inl ((hholds roomId p member).1 hm).1
  | ended _ _ _ _ hholds _ _ _ => exact .inl ((hholds roomId p member).1 hm).2

theorem Effects.newcomer (h : Effects setup env op c c') {roomId : RoomId} {p : ParticipantId}
    {member : Member} (hm : c'.Holds roomId p member) :
    c.Holds roomId p member ∨ op.newcomer = some member.session := by
  induction h generalizing roomId p member with
  | refl => exact .inl hm
  | tail _ heffect ih =>
    rcases heffect.change.newcomer hm with hm | hnew
    · exact ih hm
    · exact .inr hnew

end Changes

/-- Messages that can make their sender a member of a room. -/
def enters (content : Json) : Bool :=
  handlerFor content = some .create || handlerFor content = some .join

theorem message_of_newcomer {setup : Setup} {views : SessionId → SessionView} {action : Action}
    {op : Operation} {session : SessionId} (hop : action.operation setup views = some op)
    (hnew : op.newcomer = some session) :
    ∃ content, action = .message session content ∧ enters content = true ∧
      (views session).provisional = false := by
  cases op with
  | create sender request =>
    cases hnew
    obtain ⟨content, haction, hhandler, hparse⟩ := comesFrom_of_operation hop
    exact ⟨content, haction, by simp [enters, hhandler], (CreateRequest.parse_ok hparse).2⟩
  | join sender request =>
    cases hnew
    obtain ⟨content, haction, hhandler, hparse⟩ := comesFrom_of_operation hop
    exact ⟨content, haction, by simp [enters, hhandler], (JoinRequest.parse_ok hparse).2⟩
  | _ => cases hnew

/-! ### Steps -/

def World.Attended (w : World) : Prop :=
  ∀ roomId p member, w.call.toRegistry.Holds roomId p member →
    (w.views member.session).registered = true ∧ (w.views member.session).provisional = false

/-- No session leaves the session manager while it is in a room, and nobody enters a room through a
session that has left it. -/
structure Attends (w : World) (action : Action) : Prop where
  leaves : ∀ session, action = .changed session .removed → w.call.toRegistry.Free session
  enters : ∀ session content, action = .message session content → enters content = true →
    (w.views session).registered = true

section Steps

variable {setup : Setup} {w : World} {event : Event}

/-- A session keeps its place in the session manager and its proof, unless it is removed. -/
theorem views_kept {session : SessionId}
    (hrestart : ∀ views metadata, event.action ≠ .restart views metadata)
    (hremoved : event.action ≠ .changed session .removed)
    (h : (w.views session).registered = true ∧ (w.views session).provisional = false) :
    ((w.next setup event).views session).registered = true ∧
      ((w.next setup event).views session).provisional = false := by
  simp only [World.next]
  cases haction : event.action with
  | changed other change =>
    simp only [Action.views]
    by_cases heq : session = other
    · subst heq
      rw [Function.update_self]
      cases change with
      | opened => simp [SessionView.change, h]
      | authenticated address => simp [SessionView.change, h]
      | removed => exact absurd haction hremoved
    · rwa [Function.update_of_ne heq]
  | restart views metadata => exact absurd haction (hrestart views metadata)
  | _ => exact h

theorem attended_next (h : w.Attended) (hkeyed : w.call.toRegistry.Keyed)
    (hrestart : ∀ views metadata, event.action ≠ .restart views metadata)
    (hattends : Attends w event.action) : (w.next setup event).Attended := by
  intro roomId p member hm
  have hbefore : w.call.toRegistry.Holds roomId p member ∨
      ∃ op, event.action.operation setup w.views = some op ∧ op.newcomer = some member.session := by
    rcases next_registry hkeyed event with ⟨views, metadata, haction, -⟩ | heq | ⟨op, hop, heffects⟩
    · exact absurd haction (hrestart views metadata)
    · exact .inl (heq ▸ hm)
    · rcases heffects.newcomer hm with hm | hnew
      · exact .inl hm
      · exact .inr ⟨op, hop, hnew⟩
  rcases hbefore with hm | ⟨op, hop, hnew⟩
  · exact views_kept hrestart (fun hremoved => hattends.leaves _ hremoved roomId p member hm rfl)
      (h roomId p member hm)
  · obtain ⟨content, haction, henters, hproved⟩ := message_of_newcomer hop hnew
    refine views_kept hrestart (fun hremoved => ?_) ⟨hattends.enters _ _ haction henters, hproved⟩
    rw [haction] at hremoved
    cases hremoved

end Steps

end CallBackend.Call
