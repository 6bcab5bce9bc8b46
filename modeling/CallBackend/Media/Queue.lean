import CallBackend.Basic
import CallBackend.Lib.System

/-!
# The queue of a subscription

Reliable objects go through a queue of two on their way to a subscriber. `publish` makes a copy of
the object, enters it into `enqueued` with the time, and tries to send it to the queue. If the queue
is full it takes the oldest object out and tries again, and gives up if another publisher was
faster. The forward loop receives objects, takes their times out of `enqueued` and sends those that
are not too old.

Each operation on the queue or on `enqueued` is a step. A copy is named by its publisher, a
goroutine that publishes one object after the other, and by its number there.
-/

namespace CallBackend.Media

open Function

/-- A copy of an object. -/
structure Item where
  publisher : Nat
  seq : Nat
  deriving DecidableEq

/-- Where a publisher is in `publish`. -/
inductive PublishPhase where
  | idle
  /-- The copy is in `enqueued`, before the first `select`. -/
  | sending (item : Item)
  /-- The queue was full. -/
  | full (item : Item)
  /-- Another copy has been taken out of the queue, and is still in `enqueued`. -/
  | discarding (item discarded : Item)
  /-- Before the last `select`. -/
  | retrying (item : Item)
  /-- The queue was full again, and the copy is still in `enqueued`. -/
  | failing (item : Item)
  deriving DecidableEq

structure Publisher where
  published : Nat := 0
  phase : PublishPhase := .idle
  deriving DecidableEq

/-- Where the forward loop is. -/
inductive Forwarder where
  | waiting
  /-- Before `LoadAndDelete`. -/
  | received (item : Item)
  /-- Before `SendGroupObject`. -/
  | sending (item : Item)
  | ended
  deriving DecidableEq

/-- A `subscription` with its publishers, the objects it has forwarded, and the copies that were
dropped from the queue, each with the one that was published then. -/
structure Subscription where
  queue : List Item := []
  enqueued : Dict Item Nanos := ∅
  done : Bool := false
  publishers : Nat → Publisher := fun _ => {}
  forwarder : Forwarder := .waiting
  sent : List Item := []
  dropped : List (Item × Item) := []

inductive QueueAction where
  /-- The next operation of a publisher. -/
  | publish (p : Nat) (now : Nanos)
  /-- The next operation of the forward loop. -/
  | forward (now : Nanos)
  | close
  /-- The forward loop finds that `done` is closed. -/
  | stop

def queueCapacity : Nat := 2

/-- The queue age that is left for an object, in milliseconds, is below 10. -/
def tooOld (queued now : Nanos) : Bool := (1500 : Int) - millis (now - queued) < 10

namespace Subscription

def setPhase (s : Subscription) (p : Nat) (phase : PublishPhase) : Subscription :=
  { s with publishers := update s.publishers p { s.publishers p with phase } }

def push (s : Subscription) (p : Nat) (item : Item) : Subscription :=
  { s.setPhase p .idle with queue := s.queue ++ [item] }

/-- The operations of `publish` after the checks of the source and of the subscriber. -/
def publish (s : Subscription) (p : Nat) (now : Nanos) : Subscription :=
  match (s.publishers p).phase with
  | .idle =>
    if s.done then s
    else
      { s with
        enqueued := s.enqueued.set ⟨p, (s.publishers p).published⟩ now
        publishers := update s.publishers p
          ⟨(s.publishers p).published + 1, .sending ⟨p, (s.publishers p).published⟩⟩ }
  | .sending item =>
    if s.queue.length < queueCapacity then s.push p item else s.setPhase p (.full item)
  | .full item =>
    match s.queue with
    | [] => s.setPhase p (.retrying item)
    | discarded :: rest =>
      { s.setPhase p (.discarding item discarded) with
        queue := rest
        dropped := s.dropped ++ [(discarded, item)] }
  | .discarding item discarded =>
    { s.setPhase p (.retrying item) with enqueued := s.enqueued.erase discarded }
  | .retrying item =>
    if s.queue.length < queueCapacity then s.push p item
    else { s.setPhase p (.failing item) with dropped := s.dropped ++ [(item, item)] }
  | .failing item => { s.setPhase p .idle with enqueued := s.enqueued.erase item }

/-- The operations of `forward`. -/
def forward (s : Subscription) (now : Nanos) : Option Subscription :=
  match s.forwarder with
  | .waiting =>
    match s.queue with
    | [] => none
    | item :: rest => some { s with queue := rest, forwarder := .received item }
  | .received item =>
    some { s with
      enqueued := s.enqueued.erase item
      forwarder := if (s.enqueued.get? item).any (tooOld · now) then .waiting else .sending item }
  | .sending item => some { s with sent := s.sent ++ [item], forwarder := .waiting }
  | .ended => none

def next (s : Subscription) : QueueAction → Option Subscription
  | .publish p now => some (s.publish p now)
  | .forward now => s.forward now
  | .close => some { s with done := true }
  | .stop => if s.forwarder = .waiting ∧ s.done = true then some { s with forwarder := .ended } else none

end Subscription

/-- All interleavings of the publishers with the forward loop. -/
def queueing : System Subscription QueueAction where
  init s := s = {}
  step s a s' := s.next a = some s'

/-! ### Where copies are -/

/-- The copies that a publisher is still to send. -/
def PublishPhase.offered : PublishPhase → List Item
  | .sending item | .full item | .discarding item _ | .retrying item => [item]
  | .idle | .failing _ => []

/-- The copies that `publish` handles. -/
def PublishPhase.handled : PublishPhase → List Item
  | .sending item | .full item | .retrying item | .failing item => [item]
  | .discarding item discarded => [item, discarded]
  | .idle => []

/-- The copy that `forward` has received. -/
def Forwarder.handled : Forwarder → List Item
  | .received item => [item]
  | .waiting | .sending _ | .ended => []

/-- The copies on their way to the subscriber. -/
def Forwarder.carried : Forwarder → List Item
  | .received item | .sending item => [item]
  | .waiting | .ended => []

/-- The copies that `publish` drops. -/
def PublishPhase.dropping : PublishPhase → List Item
  | .discarding _ item | .failing item => [item]
  | .idle | .sending _ | .full _ | .retrying _ => []

/-- The numbers of the publisher's copies. -/
def track (p : Nat) (items : List Item) : List Nat := (items.filter (·.publisher = p)).map Item.seq

namespace Subscription

/-- The numbers of the publisher's copies that are sent, received, in the queue, or to be sent there. -/
def line (s : Subscription) (p : Nat) : List Nat :=
  track p (s.sent ++ s.forwarder.carried) ++ (track p s.queue ++ (s.publishers p).phase.offered.map Item.seq)

def Kept (s : Subscription) (item : Item) : Prop :=
  item ∈ s.queue ∨ ∃ p, item ∈ (s.publishers p).phase.offered

def Covered (s : Subscription) (item : Item) : Prop :=
  item ∈ s.queue ∨ item ∈ s.forwarder.handled ∨ ∃ p, item ∈ (s.publishers p).phase.handled

structure Sound (s : Subscription) : Prop where
  bounded : s.queue.length ≤ queueCapacity
  own : ∀ p, ∀ item ∈ (s.publishers p).phase.offered, item.publisher = p
  entered : ∀ item, s.Kept item → item ∈ s.enqueued.keys
  present : ∀ item ∈ s.enqueued.keys, s.Covered item
  gone : ∀ p, ∀ item ∈ (s.publishers p).phase.dropping,
    item.seq ∉ s.line item.publisher ∧ item.seq < (s.publishers item.publisher).published
  ordered : ∀ p, (s.line p).Pairwise (· < ·) ∧ ∀ i ∈ s.line p, i < (s.publishers p).published

variable {s s' : Subscription} {p : Nat} {item : Item}

theorem mem_track {items : List Item} (h : item ∈ items) : item.seq ∈ track item.publisher items :=
  List.mem_map_of_mem (List.mem_filter.2 ⟨h, decide_eq_true rfl⟩)

theorem track_append (p : Nat) (items others : List Item) :
    track p (items ++ others) = track p items ++ track p others := by
  rw [track, List.filter_append, List.map_append, track, track]

theorem Sound.mem_of_kept (h : s.Sound) (hkept : s.Kept item) :
    item.seq ∈ track item.publisher s.queue ++ (s.publishers item.publisher).phase.offered.map Item.seq := by
  obtain hqueue | ⟨q, hq⟩ := hkept
  · exact List.mem_append_left _ (mem_track hqueue)
  · rw [h.own q item hq]
    exact List.mem_append_right _ (List.mem_map_of_mem hq)

/-- Copies are taken away, and no others are published. Those taken out of `enqueued` are not in the
queue. -/
theorem Sound.step (h : s.Sound) (erased : Item → Prop) (hbounded : s'.queue.length ≤ queueCapacity)
    (hpublished : ∀ p, (s'.publishers p).published = (s.publishers p).published)
    (hline : ∀ p, (s'.line p).Sublist (s.line p))
    (hown : ∀ p, ∀ item ∈ (s'.publishers p).phase.offered, item ∈ (s.publishers p).phase.offered)
    (hqueue : ∀ item ∈ s'.queue, s.Kept item)
    (hkeys : ∀ item, item ∈ s'.enqueued.keys ↔ item ∈ s.enqueued.keys ∧ ¬erased item)
    (herased : ∀ item, erased item → ¬s.Kept item)
    (hcovered : ∀ item, ¬erased item → s.Covered item → s'.Covered item)
    (hgone : ∀ p, ∀ item ∈ (s'.publishers p).phase.dropping, item ∈ (s.publishers p).phase.dropping ∨
      item.seq ∈ s.line item.publisher ∧ item.seq ∉ s'.line item.publisher) : s'.Sound where
  bounded := hbounded
  own p item hitem := h.own p item (hown p item hitem)
  entered item hitem := by
    have hkept : s.Kept item := by grind [Kept]
    exact (hkeys item).2 ⟨h.entered item hkept, fun her => herased item her hkept⟩
  present item hitem := by
    obtain ⟨hold, hnot⟩ := (hkeys item).1 hitem
    exact hcovered item hnot (h.present item hold)
  gone p item hitem := by
    have hsub := (hline item.publisher).subset
    grind [h.gone p item, (h.ordered item.publisher).2]
  ordered p := by
    rw [hpublished]
    exact ⟨(h.ordered p).1.sublist (hline p), fun i hi => (h.ordered p).2 i ((hline p).subset hi)⟩

variable {phase : PublishPhase}

theorem Sound.move (h : s.Sound) (erased : Item → Prop) {queue : List Item}
    {enqueued : Dict Item Nanos} {dropped : List (Item × Item)} (hbounded : queue.length ≤ queueCapacity)
    (hline : ∀ q, (track q queue ++ if q = p then phase.offered.map Item.seq else []).Sublist
      (track q s.queue ++ if q = p then (s.publishers p).phase.offered.map Item.seq else []))
    (hown : ∀ item ∈ phase.offered, item ∈ (s.publishers p).phase.offered)
    (hqueue : ∀ item ∈ queue, item ∈ s.queue ∨ item ∈ (s.publishers p).phase.offered)
    (hkeys : ∀ item, item ∈ enqueued.keys ↔ item ∈ s.enqueued.keys ∧ ¬erased item)
    (herased : ∀ item, erased item → item ∈ (s.publishers p).phase.dropping)
    (hcovered : ∀ item, ¬erased item → item ∈ s.queue ∨ item ∈ (s.publishers p).phase.handled →
      item ∈ queue ∨ item ∈ phase.handled)
    (hgone : ∀ item ∈ phase.dropping, item.seq ∈ s.line item.publisher ∧
      item.seq ∉ Subscription.line { s.setPhase p phase with queue } item.publisher) :
    Subscription.Sound { s.setPhase p phase with queue, enqueued, dropped } := by
  have hself : (s.setPhase p phase).publishers p = { s.publishers p with phase } := update_self ..
  have hother : ∀ {q : Nat}, q ≠ p → (s.setPhase p phase).publishers q = s.publishers q := fun hq =>
    update_of_ne hq ..
  refine h.step erased hbounded (fun q => ?_) (fun q => ?_) (fun q item hitem => ?_) (fun item hitem => ?_) hkeys
    (fun item her hkept => ?_) (fun item hnot hold => ?_) fun q item hitem => ?_
  · grind
  · have hsub := hline q
    refine (List.append_sublist_append_left _).2 ?_
    by_cases hq : q = p
    · subst hq
      simpa [setPhase] using hsub
    · rw [if_neg hq, if_neg hq, List.append_nil, List.append_nil] at hsub
      simp only [hother hq]
      exact hsub.append_right _
  · grind
  · exact (hqueue item hitem).imp_right fun hoffered => ⟨p, hoffered⟩
  · exact (h.gone p item (herased item her)).1 (List.mem_append_right _ (h.mem_of_kept hkept))
  · simp only [Covered] at hold ⊢
    grind [setPhase]
  · by_cases hq : q = p
    · subst hq
      exact .inr (hgone item (by grind))
    · exact .inl (hother hq ▸ hitem)

theorem mem_keys_erase {d : Dict Item Nanos} {k : Item} (item : Item) :
    item ∈ (d.erase k).keys ↔ item ∈ d.keys ∧ ¬item = k := by
  rw [Dict.mem_keys_iff, Dict.mem_keys_iff, Dict.get?_erase]
  by_cases hk : k = item
  · simp [hk]
  · simp [hk, Ne.symm hk]

theorem mem_keys_same {d : Dict Item Nanos} (item : Item) : item ∈ d.keys ↔ item ∈ d.keys ∧ ¬False := by
  rw [not_false_eq_true, and_true]

theorem Sound.notMem_line (h : s.Sound) {before after : List Nat} {i : Nat}
    (hline : s.line p = before ++ i :: after) : i ∉ before ++ after := by
  have hnodup : (s.line p).Nodup := (h.ordered p).1.imp fun hlt => hlt.ne
  rw [hline, List.nodup_middle] at hnodup
  exact (List.nodup_cons.1 hnodup).1

theorem Sound.advance (h : s.Sound) (hoffered : phase.offered = (s.publishers p).phase.offered)
    (hhandled : phase.handled = (s.publishers p).phase.handled) (hdropping : phase.dropping = []) :
    (s.setPhase p phase).Sound := by
  refine h.move (fun _ => False) h.bounded (fun q => by rw [hoffered]) (fun _ hitem => hoffered ▸ hitem)
    (fun _ => .inl) mem_keys_same (fun _ her => her.elim) (fun _ _ hold => hhandled ▸ hold) ?_
  rw [hdropping]
  intro item hitem
  cases hitem

theorem Sound.push (h : s.Sound) (hoffered : (s.publishers p).phase.offered = [item])
    (hhandled : (s.publishers p).phase.handled = [item]) (hroom : s.queue.length < queueCapacity) :
    (s.push p item).Sound := by
  have hown : item.publisher = p := h.own p item (by rw [hoffered]; exact List.mem_singleton_self _)
  refine h.move (fun _ => False) ?_ (fun q => ?_) ?_ ?_ mem_keys_same ?_ ?_ ?_
  · grind
  · rw [track_append, hoffered]
    by_cases hq : q = p
    · subst hq
      simp [track, hown, PublishPhase.offered]
    · simp [track, hown, hq, Ne.symm hq]
  all_goals grind [PublishPhase.offered, PublishPhase.dropping]

theorem Sound.discard (h : s.Sound) (hphase : (s.publishers p).phase = .full item) {discarded : Item}
    {rest : List Item} (hqueue : s.queue = discarded :: rest) (dropped : List (Item × Item)) :
    Subscription.Sound { s.setPhase p (.discarding item discarded) with queue := rest, dropped } := by
  have hbounded := h.bounded
  rw [hqueue] at hbounded
  refine h.move (fun _ => False) ?_ (fun q => ?_) ?_ ?_ mem_keys_same ?_ ?_ ?_
  · grind
  · rw [hphase, hqueue]
    exact (((List.sublist_cons_self ..).filter _).map _).append_right _
  · grind [PublishPhase.offered]
  · grind
  · grind
  · grind [PublishPhase.handled]
  · intro other hother
    obtain rfl := List.mem_singleton.1 hother
    have hline : s.line other.publisher = track other.publisher (s.sent ++ s.forwarder.carried) ++
        other.seq :: (track other.publisher rest ++
          (s.publishers other.publisher).phase.offered.map Item.seq) := by
      rw [line, hqueue]
      simp [track]
    refine ⟨by rw [hline]; exact List.mem_append_right _ (.head _), ?_⟩
    have hnot := h.notMem_line hline
    by_cases hq : other.publisher = p
    · simpa [line, setPhase, hq, hphase, PublishPhase.offered] using hnot
    · simpa [line, setPhase, update_of_ne hq] using hnot

theorem Sound.delete (h : s.Sound) {discarded : Item}
    (hoffered : phase.offered = (s.publishers p).phase.offered) (hhandled : phase.handled = phase.offered)
    (hdropping : phase.dropping = []) (hold : (s.publishers p).phase.dropping = [discarded])
    (hcovered : ∀ item ∈ (s.publishers p).phase.handled, item = discarded ∨ item ∈ phase.offered) :
    Subscription.Sound { s.setPhase p phase with enqueued := s.enqueued.erase discarded } := by
  refine h.move (· = discarded) h.bounded (fun q => ?_) ?_ ?_ mem_keys_erase ?_ ?_ ?_
  · rw [hoffered]
    exact List.Sublist.refl _
  all_goals grind [setPhase]

theorem Sound.fail (h : s.Sound) (hphase : (s.publishers p).phase = .retrying item)
    (dropped : List (Item × Item)) : Subscription.Sound { s.setPhase p (.failing item) with dropped } := by
  have hown : item.publisher = p := h.own p item (by rw [hphase]; exact List.mem_singleton_self _)
  refine h.move (fun _ => False) h.bounded (fun q => ?_) (fun _ hmem => by cases hmem) (fun _ => .inl)
    mem_keys_same (fun _ her => her.elim) (fun other _ hother => ?_) ?_
  · split_ifs
    · exact (List.append_nil _).symm ▸ List.sublist_append_left ..
    · exact List.Sublist.refl _
  · rw [hphase] at hother
    exact hother
  · intro other hother
    obtain rfl := List.mem_singleton.1 hother
    have hline : s.line other.publisher = (track other.publisher (s.sent ++ s.forwarder.carried) ++
        track other.publisher s.queue) ++ other.seq :: [] := by
      rw [line, hown, hphase, List.append_assoc]
      rfl
    refine ⟨by rw [hline]; exact List.mem_append_right _ (.head _), ?_⟩
    have hnot := h.notMem_line hline
    rw [List.append_nil] at hnot
    simpa [line, setPhase, hown, PublishPhase.offered] using hnot

theorem Sound.store (h : s.Sound) (hphase : (s.publishers p).phase = .idle) (now : Nanos) :
    Subscription.Sound { s with
      enqueued := s.enqueued.set ⟨p, (s.publishers p).published⟩ now
      publishers := update s.publishers p
        ⟨(s.publishers p).published + 1, .sending ⟨p, (s.publishers p).published⟩⟩ } := by
  have hkeys : ∀ item, item ∈ (s.enqueued.set ⟨p, (s.publishers p).published⟩ now).keys ↔
      item = ⟨p, (s.publishers p).published⟩ ∨ item ∈ s.enqueued.keys := by
    intro item
    rw [Dict.mem_keys_iff, Dict.mem_keys_iff, Dict.get?_set]
    by_cases hitem : Item.mk p (s.publishers p).published = item
    · simp [hitem]
    · simp [hitem, Ne.symm hitem]
  generalize hs' : Subscription.mk _ _ _ _ _ _ _ = s'
  have hpublishers : s'.publishers = update s.publishers p
      ⟨(s.publishers p).published + 1, .sending ⟨p, (s.publishers p).published⟩⟩ := by rw [← hs']
  have hself : s'.publishers p = ⟨(s.publishers p).published + 1, .sending ⟨p, (s.publishers p).published⟩⟩ := by
    rw [hpublishers, update_self]
  have hother : ∀ {q : Nat}, q ≠ p → s'.publishers q = s.publishers q := fun hq => by
    rw [hpublishers, update_of_ne hq]
  have hline : s'.line p = s.line p ++ [(s.publishers p).published] := by
    rw [line, hself, line, hphase, ← hs']
    simp [PublishPhase.offered]
  have hlines : ∀ {q : Nat}, q ≠ p → s'.line q = s.line q := fun hq => by
    rw [line, hother hq, line, ← hs']
  have hqueue : s'.queue = s.queue := by rw [← hs']
  have hforwarder : s'.forwarder = s.forwarder := by rw [← hs']
  rw [show s.enqueued.set ⟨p, (s.publishers p).published⟩ now = s'.enqueued by rw [← hs']] at hkeys
  obtain ⟨hbounded, hown, hentered, hpresent, hgone, hordered⟩ := h
  constructor
  case bounded => grind
  case own => grind [PublishPhase.offered]
  case entered => grind [Kept, PublishPhase.offered]
  case present => grind [Covered, PublishPhase.handled]
  case gone => grind [PublishPhase.dropping]
  case ordered => grind

theorem sound_publish (h : s.Sound) (p : Nat) (now : Nanos) : (s.publish p now).Sound := by
  unfold publish
  cases hphase : (s.publishers p).phase with
  | idle =>
    dsimp only
    split_ifs
    · exact h
    · exact h.store hphase now
  | sending item =>
    dsimp only
    split_ifs with hroom
    · exact h.push (by rw [hphase]; rfl) (by rw [hphase]; rfl) hroom
    · exact h.advance (by rw [hphase]; rfl) (by rw [hphase]; rfl) rfl
  | full item =>
    cases hqueue : s.queue with
    | nil => exact h.advance (by rw [hphase]; rfl) (by rw [hphase]; rfl) rfl
    | cons discarded rest => exact h.discard hphase hqueue _
  | discarding item discarded =>
    refine h.delete (by rw [hphase]; rfl) rfl rfl (by rw [hphase]; rfl) fun other hother => ?_
    rw [hphase] at hother
    simpa [PublishPhase.handled, PublishPhase.offered, or_comm] using hother
  | retrying item =>
    dsimp only
    split_ifs with hroom
    · exact h.push (by rw [hphase]; rfl) (by rw [hphase]; rfl) hroom
    · exact h.fail hphase _
  | failing item =>
    refine h.delete (by rw [hphase]; rfl) rfl rfl (by rw [hphase]; rfl) fun other hother => ?_
    rw [hphase] at hother
    exact .inl (List.mem_singleton.1 hother)

theorem sound_forward {now : Nanos} (h : s.Sound) (hforward : s.forward now = some s') : s'.Sound := by
  unfold forward at hforward
  cases hforwarder : s.forwarder with
  | waiting =>
    cases hqueue : s.queue with
    | nil =>
      rw [hforwarder, hqueue] at hforward
      cases hforward
    | cons item rest =>
      rw [hforwarder, hqueue] at hforward
      cases hforward
      have hbounded := h.bounded
      rw [hqueue] at hbounded
      refine h.step (fun _ => False) ((Nat.le_succ _).trans hbounded) (fun _ => rfl) (fun q => ?_)
        (fun _ _ hitem => hitem) (fun other hother => ?_) mem_keys_same (fun _ her => her.elim)
        (fun other _ hold => ?_) fun _ _ hitem => .inl hitem
      · rw [line, line, hforwarder, hqueue]
        by_cases hq : item.publisher = q <;> simp [track, Forwarder.carried, hq]
      · rw [Kept, hqueue]
        exact .inl (.tail _ hother)
      · obtain hold | hold | hold := hold
        · rw [hqueue] at hold
          obtain rfl | hold := List.mem_cons.1 hold
          · exact .inr (.inl (List.mem_singleton_self _))
          · exact .inl hold
        · rw [hforwarder] at hold
          cases hold
        · exact .inr (.inr hold)
  | received item =>
    rw [hforwarder] at hforward
    cases hforward
    refine h.step (· = item) h.bounded (fun _ => rfl) (fun q => ?_) (fun _ _ hitem => hitem)
      (fun other hother => .inl hother) mem_keys_erase ?_ (fun other hnot hold => ?_) fun _ _ hitem => .inl hitem
    · refine List.Sublist.append_right ?_ _
      rw [hforwarder, track_append, track_append]
      dsimp only
      split_ifs
      · exact (List.append_sublist_append_left _).2 (List.nil_sublist _)
      · exact List.Sublist.refl _
    · rintro other rfl hkept
      have hline : s.line other.publisher = track other.publisher s.sent ++ other.seq ::
          (track other.publisher s.queue ++ (s.publishers other.publisher).phase.offered.map Item.seq) := by
        rw [line, hforwarder, track_append]
        simp [track, Forwarder.carried]
      exact h.notMem_line hline (List.mem_append_right _ (h.mem_of_kept hkept))
    · obtain hold | hold | hold := hold
      · exact .inl hold
      · rw [hforwarder] at hold
        exact absurd (List.mem_singleton.1 hold) hnot
      · exact .inr (.inr hold)
  | sending item =>
    rw [hforwarder] at hforward
    cases hforward
    refine h.step (fun _ => False) h.bounded (fun _ => rfl) (fun q => ?_) (fun _ _ hitem => hitem)
      (fun other hother => .inl hother) mem_keys_same (fun _ her => her.elim) (fun other _ hold => ?_)
      fun _ _ hitem => .inl hitem
    · rw [line, line, hforwarder, Forwarder.carried, Forwarder.carried, List.append_nil]
    · rw [Covered, hforwarder] at hold
      exact hold
  | ended =>
    rw [hforwarder] at hforward
    cases hforward

theorem sound_next {a : QueueAction} (h : s.Sound) (hnext : s.next a = some s') : s'.Sound := by
  cases a with
  | publish p now =>
    cases hnext
    exact sound_publish h p now
  | forward now => exact sound_forward h hnext
  | close =>
    cases hnext
    exact ⟨h.bounded, h.own, h.entered, h.present, h.gone, h.ordered⟩
  | stop =>
    obtain ⟨⟨hforwarder, -⟩, rfl⟩ := Option.ite_some_none_eq_some.1 hnext
    refine h.step (fun _ => False) h.bounded (fun _ => rfl) (fun q => ?_) (fun _ _ hitem => hitem)
      (fun _ => .inl) mem_keys_same (fun _ her => her.elim) (fun other _ hold => ?_) fun _ _ hitem => .inl hitem
    · rw [line, line, hforwarder]
      exact List.Sublist.refl _
    · rw [Covered, hforwarder] at hold
      exact hold

theorem sound_of_reachable {ok : Subscription → QueueAction → Prop} (h : queueing.Reachable ok s) : s.Sound := by
  refine h.invariant (I := Sound) ?_ fun s a s' hs _ hstep => sound_next hs hstep
  rintro s rfl
  refine ⟨by decide, ?_, ?_, ?_, ?_, fun p => ⟨List.Pairwise.nil, ?_⟩⟩
  · intro p item hitem
    cases hitem
  · rintro item (hqueue | ⟨p, hp⟩)
    · cases hqueue
    · cases hp
  · intro item hitem
    cases hitem
  · intro p item hitem
    cases hitem
  · intro i hi
    cases hi

/-! ### One publisher -/

/-- No other publisher takes a step. -/
def OnlyBy (p : Nat) (_ : Subscription) : QueueAction → Prop
  | .publish q _ => q = p
  | .forward _ | .close | .stop => True

structure Single (p : Nat) (s : Subscription) : Prop where
  others : ∀ q, q ≠ p → s.publishers q = {}
  room : ∀ item, ((s.publishers p).phase = .retrying item ∨
    ∃ discarded, (s.publishers p).phase = .discarding item discarded) → s.queue.length < queueCapacity
  trying : ∀ item, (s.publishers p).phase ≠ .failing item
  dropped : ∀ pair ∈ s.dropped, pair.1.publisher = p ∧ pair.2.publisher = p ∧ pair.1.seq < pair.2.seq

theorem Single.move (h : s.Single p) {queue : List Item} {enqueued : Dict Item Nanos}
    {dropped : List (Item × Item)}
    (hroom : ∀ item, (phase = .retrying item ∨ ∃ discarded, phase = .discarding item discarded) →
      queue.length < queueCapacity) (hphase : ∀ item, phase ≠ .failing item)
    (hdropped : ∀ pair ∈ dropped, pair ∈ s.dropped ∨
      pair.1.publisher = p ∧ pair.2.publisher = p ∧ pair.1.seq < pair.2.seq) :
    Subscription.Single p { s.setPhase p phase with queue, enqueued, dropped } := by
  have hself : ((s.setPhase p phase).publishers p).phase = phase := by simp [setPhase]
  refine ⟨fun q hq => (update_of_ne hq ..).trans (h.others q hq), fun item hitem => ?_, fun item => ?_,
    fun pair hpair => (hdropped pair hpair).elim (h.dropped pair) id⟩
  · rw [hself] at hitem
    exact hroom item hitem
  · rw [hself]
    exact hphase item

theorem single_publish (hsound : s.Sound) (h : s.Single p) (now : Nanos) : (s.publish p now).Single p := by
  unfold publish
  cases hphase : (s.publishers p).phase with
  | idle =>
    dsimp only
    split_ifs
    · exact h
    · refine ⟨fun q hq => (update_of_ne hq ..).trans (h.others q hq), ?_, ?_, h.dropped⟩
      · simp
      · simp
  | sending item =>
    dsimp only
    split_ifs
    · exact h.move (by simp) (by simp) fun _ => .inl
    · exact h.move (by simp) (by simp) fun _ => .inl
  | full item =>
    have hown : item.publisher = p := hsound.own p item (by rw [hphase]; exact List.mem_singleton_self _)
    cases hqueue : s.queue with
    | nil =>
      refine h.move (fun _ _ => ?_) (by simp) fun _ => .inl
      rw [hqueue]
      decide
    | cons discarded rest =>
      have hbounded := hsound.bounded
      rw [hqueue] at hbounded
      refine h.move (fun _ _ => hbounded) (by simp) fun pair hpair => ?_
      obtain hold | hnew := List.mem_append.1 hpair
      · exact .inl hold
      · obtain rfl := List.mem_singleton.1 hnew
        have hmem := hsound.mem_of_kept (.inl (by rw [hqueue]; exact .head _) : s.Kept discarded)
        have hdiscarded : discarded.publisher = p := by
          by_contra hne
          have hlt := (hsound.ordered _).2 _ (List.mem_append_right _ hmem)
          rw [h.others _ hne] at hlt
          exact Nat.not_lt_zero _ hlt
        refine .inr ⟨hdiscarded, hown, ?_⟩
        have hpairwise := (List.pairwise_append.1 (hsound.ordered p).1).2.1
        rw [hqueue, hphase] at hpairwise
        refine (List.pairwise_append.1 hpairwise).2.2 _ ?_ _ (List.mem_singleton_self _)
        rw [← hdiscarded]
        exact mem_track (.head _)
  | discarding item discarded =>
    exact h.move (fun _ _ => h.room item (.inr ⟨discarded, hphase⟩)) (by simp) fun _ => .inl
  | retrying item =>
    dsimp only
    rw [if_pos (h.room item (.inl hphase))]
    exact h.move (by simp) (by simp) fun _ => .inl
  | failing item => exact absurd hphase (h.trying item)

theorem Single.frame (h : s.Single p) (hpublishers : s'.publishers = s.publishers) (hdropped : s'.dropped = s.dropped)
    (hqueue : s'.queue.length ≤ s.queue.length) : s'.Single p := by
  refine ⟨?_, fun item => ?_, ?_, ?_⟩
  · rw [hpublishers]
    exact h.others
  · rw [hpublishers]
    exact fun hitem => hqueue.trans_lt (h.room item hitem)
  · rw [hpublishers]
    exact h.trying
  · rw [hdropped]
    exact h.dropped

theorem frame_of_forward {now : Nanos} (h : s.forward now = some s') :
    s'.publishers = s.publishers ∧ s'.dropped = s.dropped ∧ s'.queue.length ≤ s.queue.length := by
  grind [forward]

theorem single_next {a : QueueAction} (hsound : s.Sound) (h : s.Single p) (ha : OnlyBy p s a)
    (hnext : s.next a = some s') : s'.Single p := by
  cases a with
  | publish q now =>
    obtain rfl := ha
    cases hnext
    exact single_publish hsound h now
  | forward now =>
    obtain ⟨hpublishers, hdropped, hqueue⟩ := frame_of_forward hnext
    exact h.frame hpublishers hdropped hqueue
  | close =>
    cases hnext
    exact h.frame rfl rfl le_rfl
  | stop =>
    obtain ⟨-, rfl⟩ := Option.ite_some_none_eq_some.1 hnext
    exact h.frame rfl rfl le_rfl

theorem single_of_reachable (h : queueing.Reachable (OnlyBy p) s) : s.Single p := by
  have hboth : s.Sound ∧ s.Single p := by
    refine h.invariant (I := fun s => s.Sound ∧ s.Single p) ?_ fun s a s' hs ha hstep =>
      ⟨sound_next hs.1 hstep, single_next hs.1 hs.2 ha hstep⟩
    rintro s rfl
    exact ⟨sound_of_reachable (.init rfl : queueing.Reachable System.anyStep _), fun _ _ => rfl, by simp, by simp,
      by simp⟩
  exact hboth.2

theorem length_handled (phase : PublishPhase) : phase.handled.length ≤ 2 := by
  cases phase <;> simp [PublishPhase.handled]

theorem Sound.length_keys (h : s.Sound) {ps : List Nat} (hps : ∀ p, (s.publishers p).phase ≠ .idle → p ∈ ps) :
    s.enqueued.keys.length ≤ 3 + 2 * ps.length := by
  have hsub : s.enqueued.keys ⊆ s.queue ++ s.forwarder.handled ++
      ps.flatMap fun p => (s.publishers p).phase.handled := by
    intro item hitem
    obtain hqueue | hforward | ⟨p, hp⟩ := h.present item hitem
    · exact List.mem_append_left _ (List.mem_append_left _ hqueue)
    · exact List.mem_append_left _ (List.mem_append_right _ hforward)
    · refine List.mem_append_right _ (List.mem_flatMap.2 ⟨p, hps p fun hidle => ?_, hp⟩)
      rw [hidle] at hp
      cases hp
  have hle : s.enqueued.keys.length ≤ _ := (List.subperm_of_subset s.enqueued.nodup hsub).length_le
  have hflat : (ps.flatMap fun p => (s.publishers p).phase.handled).length ≤ 2 * ps.length := by
    rw [List.length_flatMap]
    refine (List.sum_le_card_nsmul _ 2 ?_).trans ?_
    · simp [length_handled]
    · simp [mul_comm]
  have hforward : s.forwarder.handled.length ≤ 1 := by
    cases s.forwarder <;> simp [Forwarder.handled]
  have hbounded := h.bounded
  rw [List.length_append, List.length_append] at hle
  rw [queueCapacity] at hbounded
  omega

/-- The queue holds two copies at most, a publisher's copies are forwarded in order and once, and
`enqueued` has the copies in the queue and else only copies that are being handled. With one
publisher only copies older than the one being published are dropped. -/
theorem media_queue_drops_oldest (h : queueing.Reachable System.anyStep s) :
    s.queue.length ≤ 2 ∧
    (∀ p, (track p s.sent).Pairwise (· < ·) ∧ ∀ i ∈ track p s.sent, i < (s.publishers p).published) ∧
    (∀ item ∈ s.queue, item ∈ s.enqueued.keys) ∧ (∀ item ∈ s.enqueued.keys, s.Covered item) ∧
    (∀ ps : List Nat, (∀ p, (s.publishers p).phase ≠ .idle → p ∈ ps) →
      s.enqueued.keys.length ≤ 3 + 2 * ps.length) ∧
    ∀ p, queueing.Reachable (OnlyBy p) s →
      ∀ pair ∈ s.dropped, pair.1.publisher = p ∧ pair.2.publisher = p ∧ pair.1.seq < pair.2.seq := by
  have hsound := sound_of_reachable h
  refine ⟨hsound.bounded, fun p => ?_, fun item hitem => hsound.entered item (.inl hitem), hsound.present,
    fun ps => hsound.length_keys, fun p hp => (single_of_reachable hp).dropped⟩
  have hsub : (track p s.sent).Sublist (s.line p) := by
    rw [line, track_append, List.append_assoc]
    exact List.sublist_append_left ..
  exact ⟨(hsound.ordered p).1.sublist hsub, fun i hi => (hsound.ordered p).2 i (hsub.subset hi)⟩

end Subscription

open Subscription

namespace Sample

/-- A publisher sends three objects while the forward loop handles none, and the first is dropped. -/
def dropRun : List QueueAction :=
  [.publish 0 0, .publish 0 0, .publish 0 1, .publish 0 1, .publish 0 2, .publish 0 2, .publish 0 2, .publish 0 2,
    .publish 0 2]

end Sample

theorem media_queue_drops_oldest_first : ∃ s, queueing.Reachable System.anyStep s ∧
    s.dropped = [(⟨0, 0⟩, ⟨0, 2⟩)] ∧ s.queue = [⟨0, 1⟩, ⟨0, 2⟩] ∧ s.queue.length ≤ 2 := by
  have hrun : ∃ s, Sample.dropRun.foldlM Subscription.next {} = some s ∧
      s.dropped = [(⟨0, 0⟩, ⟨0, 2⟩)] ∧ s.queue = [⟨0, 1⟩, ⟨0, 2⟩] := ⟨_, rfl, rfl, rfl⟩
  obtain ⟨s, hrun, hdropped, hqueue⟩ := hrun
  have hreach : queueing.Reachable System.anyStep s :=
    (System.Path.of_foldlM (fun _ _ _ h => h) (fun _ _ _ => trivial) .refl hrun).reachable (.init rfl)
  exact ⟨s, hreach, hdropped, hqueue, (media_queue_drops_oldest hreach).1⟩

end CallBackend.Media
