import CallBackend.Basic
import CallBackend.Lib.System
import CallBackend.Lib.Tally

/-!
# Budgets of frames

`server.stream` reads the frames of a stream one after the other. Before it reads a frame it sends a
token to `slots`, which the streams of a connection share, and one to `frames`, which all
connections share. A frame that is accepted has its message id in `routes` and goes to a goroutine
of its own, which gives the tokens back when the handler has returned; any other frame ends the
stream, and its reader gives them back.

The steps are the operations on the channels and on `routes`. A receive from an empty channel waits,
so it is no step. The select in `acquire` can take either case when the context is done and there is
room.
-/

namespace CallBackend.Native

open Function

/-- What `readHeader` returns. -/
inductive FrameHeader where
  /-- The stream has ended, or the header is not valid. -/
  | failed
  | kind (kind : Nat)

/-- What is read after the header. -/
inductive FrameBody where
  /-- The stream ends, or the deadline passes. -/
  | truncated
  /-- The metadata is not an object with a `messageId`. -/
  | malformed
  | message (messageId : String)

/-- Where a call of `stream` is. -/
inductive Reader where
  /-- In `readHeader`. -/
  | header
  /-- In `acquire(ctx, slots)`. -/
  | slot
  /-- In `acquire(ctx, s.frames)`. -/
  | budget
  /-- The second `acquire` has failed; the token of `slots` is given back next. -/
  | retreat
  /-- The frame is read. -/
  | reading
  /-- In `release`. -/
  | release
  /-- In `release`, between the two receives. -/
  | released
  /-- In the deferred function. -/
  | returning
  | ended
  deriving DecidableEq

structure FrameStream where
  conn : Nat
  /-- The context is done. -/
  cancelled : Bool := false
  reader : Reader := .header
  deriving DecidableEq

/-- Where the goroutine of a frame is. -/
inductive JobPhase where
  | processing
  /-- `routes.Delete` has run. -/
  | unrouted
  /-- In `release`, between the two receives. -/
  | released
  | finished
  deriving DecidableEq

structure FrameJob where
  conn : Nat
  stream : Nat
  messageId : String
  phase : JobPhase := .processing
  deriving DecidableEq

structure FrameServer where
  slots : Nat → Nat := fun _ => 0
  frames : Nat := 0
  routes : Nat → String → Bool := fun _ _ => false
  streams : List FrameStream := []
  jobs : List FrameJob := []

inductive StreamStep where
  | header (header : FrameHeader)
  | acquireSlot
  | acquireFrame
  /-- `acquire` finds that the context is done. -/
  | giveUpSlot
  | giveUpFrame
  | read (body : FrameBody)
  /-- A receive from `frames`, or from `slots`. -/
  | returnFrame
  | returnSlot
  /-- `work.Wait` and the rest of the deferred function. -/
  | finish

inductive FrameAction where
  | opened (conn : Nat)
  | cancel (n : Nat)
  | stream (n : Nat) (step : StreamStep)
  /-- The goroutine of a frame goes on to its next deferred call. -/
  | job (k : Nat)

namespace FrameServer

def maxSlots : Nat := 8

def maxFrames : Nat := 32

def setReader (s : FrameServer) (n : Nat) (stream : FrameStream) (reader : Reader) : FrameServer :=
  { s with streams := s.streams.set n { stream with reader } }

def setPhase (s : FrameServer) (k : Nat) (job : FrameJob) (phase : JobPhase) : FrameServer :=
  { s with jobs := s.jobs.set k { job with phase } }

/-- The number of tokens in `slots` of a connection changes. -/
def setSlots (s : FrameServer) (conn : Nat) (count : Nat) : FrameServer :=
  { s with slots := update s.slots conn count }

/-- The checks after a frame has been read, and `LoadOrStore`. -/
def read (s : FrameServer) (n : Nat) (stream : FrameStream) : FrameBody → FrameServer
  | .truncated | .malformed => s.setReader n stream .release
  | .message id =>
    if id.utf8ByteSize < 1 ∨ 128 < id.utf8ByteSize ∨ s.routes stream.conn id = true then
      s.setReader n stream .release
    else
      { s.setReader n stream .header with
        routes := update s.routes stream.conn (update (s.routes stream.conn) id true)
        jobs := s.jobs ++ [{ conn := stream.conn, stream := n, messageId := id }] }

def nextStream (s : FrameServer) (n : Nat) (stream : FrameStream) : StreamStep → Option FrameServer
  | .header .failed => if stream.reader = .header then some (s.setReader n stream .returning) else none
  | .header (.kind kind) =>
    if stream.reader = .header then
      some (s.setReader n stream (if kind = 3 then .slot else .returning))
    else none
  | .acquireSlot =>
    if stream.reader = .slot ∧ s.slots stream.conn < maxSlots then
      some ((s.setReader n stream .budget).setSlots stream.conn (s.slots stream.conn + 1))
    else none
  | .giveUpSlot =>
    if stream.reader = .slot ∧ stream.cancelled = true then some (s.setReader n stream .returning)
    else none
  | .acquireFrame =>
    if stream.reader = .budget ∧ s.frames < maxFrames then
      some { s.setReader n stream .reading with frames := s.frames + 1 }
    else none
  | .giveUpFrame =>
    if stream.reader = .budget ∧ stream.cancelled = true then some (s.setReader n stream .retreat)
    else none
  | .read body => if stream.reader = .reading then some (s.read n stream body) else none
  | .returnFrame =>
    if stream.reader = .release ∧ s.frames ≠ 0 then
      some { s.setReader n stream .released with frames := s.frames - 1 }
    else none
  | .returnSlot =>
    if (stream.reader = .retreat ∨ stream.reader = .released) ∧ s.slots stream.conn ≠ 0 then
      some ((s.setReader n stream .returning).setSlots stream.conn (s.slots stream.conn - 1))
    else none
  | .finish =>
    if stream.reader = .returning ∧ ∀ job ∈ s.jobs, job.stream = n → job.phase = .finished then
      some (s.setReader n stream .ended)
    else none

def nextJob (s : FrameServer) (k : Nat) (job : FrameJob) : Option FrameServer :=
  match job.phase with
  | .processing =>
    some { s.setPhase k job .unrouted with
      routes := update s.routes job.conn (update (s.routes job.conn) job.messageId false) }
  | .unrouted =>
    if s.frames ≠ 0 then some { s.setPhase k job .released with frames := s.frames - 1 } else none
  | .released =>
    if s.slots job.conn ≠ 0 then some ((s.setPhase k job .finished).setSlots job.conn (s.slots job.conn - 1))
    else none
  | .finished => none

def next (s : FrameServer) : FrameAction → Option FrameServer
  | .opened conn => some { s with streams := s.streams ++ [{ conn }] }
  | .cancel n =>
    s.streams[n]?.map fun stream => { s with streams := s.streams.set n { stream with cancelled := true } }
  | .stream n step => s.streams[n]?.bind fun stream => s.nextStream n stream step
  | .job k => s.jobs[k]?.bind (s.nextJob k)

end FrameServer

def frameServing : System FrameServer FrameAction where
  init s := s = {}
  step s a s' := s.next a = some s'

/-! ### Frames with tokens -/

def Reader.slotted : Reader → Bool
  | .budget | .retreat | .reading | .release | .released => true
  | .header | .slot | .returning | .ended => false

def Reader.framed : Reader → Bool
  | .reading | .release => true
  | _ => false

def JobPhase.framed : JobPhase → Bool
  | .processing | .unrouted => true
  | .released | .finished => false

def FrameStream.slotted (conn : Nat) (stream : FrameStream) : Bool :=
  stream.conn = conn && stream.reader.slotted

def FrameJob.slotted (conn : Nat) (job : FrameJob) : Bool := job.conn = conn && job.phase ≠ .finished

def FrameJob.routed (conn : Nat) (id : String) (job : FrameJob) : Bool :=
  job.conn = conn && (job.messageId = id && job.phase = .processing)

namespace FrameServer

structure Sound (s : FrameServer) : Prop where
  slots : ∀ c, s.slots c = s.streams.countP (FrameStream.slotted c) + s.jobs.countP (FrameJob.slotted c)
  frames : s.frames = s.streams.countP (·.reader.framed) + s.jobs.countP (·.phase.framed)
  slotsLe : ∀ c, s.slots c ≤ maxSlots
  framesLe : s.frames ≤ maxFrames
  routes : ∀ c id, s.jobs.countP (FrameJob.routed c id) = (s.routes c id).toNat
  streamed : ∀ job ∈ s.jobs, ∃ stream, s.streams[job.stream]? = some stream ∧ stream.conn = job.conn
  ended : ∀ n stream, s.streams[n]? = some stream → stream.reader = .ended →
    ∀ job ∈ s.jobs, job.stream = n → job.phase = .finished

variable {s t : FrameServer} {n k : Nat} {stream : FrameStream} {job : FrameJob}

theorem streamed_set (hstream : s.streams[n]? = some stream) {stream' : FrameStream}
    (hconn : stream'.conn = stream.conn)
    (h : ∃ old, s.streams[job.stream]? = some old ∧ old.conn = job.conn) :
    ∃ new, (s.streams.set n stream')[job.stream]? = some new ∧ new.conn = job.conn := by
  obtain ⟨old, hold, hjob⟩ := h
  by_cases hn : n = job.stream
  · subst hn
    rw [hstream, Option.some.injEq] at hold
    refine ⟨stream', ?_, by rw [hconn, hold, hjob]⟩
    rw [List.getElem?_set_self (List.getElem?_eq_some_iff.1 hstream).1]
  · exact ⟨old, by rw [List.getElem?_set_ne hn, hold], hjob⟩

theorem Sound.moveStream (h : s.Sound) (hstream : s.streams[n]? = some stream) (stream' : FrameStream)
    (hconn : stream'.conn = stream.conn) (hstreams : t.streams = s.streams.set n stream')
    (hjobs : t.jobs = s.jobs) (hroutes : t.routes = s.routes)
    (hslots : ∀ c, t.slots c + (stream.slotted c).toNat = s.slots c + (stream'.slotted c).toNat)
    (hframes : t.frames + stream.reader.framed.toNat = s.frames + stream'.reader.framed.toNat)
    (hslotsLe : ∀ c, t.slots c ≤ maxSlots) (hframesLe : t.frames ≤ maxFrames)
    (hended : stream'.reader = .ended → ∀ job ∈ s.jobs, job.stream = n → job.phase = .finished) : t.Sound := by
  constructor
  case slots =>
    intro c
    have hset := Tally.countP_set (FrameStream.slotted c) stream' hstream
    have hbefore := h.slots c
    have hafter := hslots c
    rw [hstreams, hjobs]
    omega
  case frames =>
    have hset := Tally.countP_set (fun stream : FrameStream => stream.reader.framed) stream' hstream
    have hbefore := h.frames
    rw [hstreams, hjobs]
    omega
  case slotsLe => exact hslotsLe
  case framesLe => exact hframesLe
  case routes =>
    rw [hjobs, hroutes]
    exact h.routes
  case streamed =>
    rw [hstreams, hjobs]
    exact fun job hjob => streamed_set hstream hconn (h.streamed job hjob)
  case ended =>
    rw [hstreams, hjobs]
    intro m other hother hend
    obtain ⟨rfl, rfl⟩ | ⟨-, hother⟩ := System.lookup_set hstream hother
    · exact hended hend
    · exact h.ended m other hother hend

theorem Sound.moveJob (h : s.Sound) (hjob : s.jobs[k]? = some job) {phase : JobPhase}
    (hlive : job.phase ≠ .finished) (hjobs : t.jobs = s.jobs.set k { job with phase })
    (hstreams : t.streams = s.streams)
    (hslots : ∀ c, t.slots c + (job.slotted c).toNat =
      s.slots c + (FrameJob.slotted c { job with phase }).toNat)
    (hframes : t.frames + job.phase.framed.toNat = s.frames + phase.framed.toNat)
    (hslotsLe : ∀ c, t.slots c ≤ maxSlots) (hframesLe : t.frames ≤ maxFrames)
    (hroutes : ∀ c id, (t.routes c id).toNat + (job.routed c id).toNat =
      (s.routes c id).toNat + (FrameJob.routed c id { job with phase }).toNat) : t.Sound := by
  constructor
  case slots =>
    intro c
    have hset := Tally.countP_set (FrameJob.slotted c) { job with phase } hjob
    have hbefore := h.slots c
    have hafter := hslots c
    rw [hstreams, hjobs]
    omega
  case frames =>
    have hset := Tally.countP_set (fun job : FrameJob => job.phase.framed) { job with phase } hjob
    have hbefore := h.frames
    rw [hstreams, hjobs]
    dsimp only at hset
    omega
  case slotsLe => exact hslotsLe
  case framesLe => exact hframesLe
  case routes =>
    intro c id
    have hset := Tally.countP_set (FrameJob.routed c id) { job with phase } hjob
    have hbefore := h.routes c id
    have hafter := hroutes c id
    rw [hjobs]
    omega
  case streamed =>
    rw [hstreams, hjobs]
    intro other hother
    obtain hold | rfl := List.mem_or_eq_of_mem_set hother
    · exact h.streamed other hold
    · exact h.streamed job (List.mem_of_getElem? hjob)
  case ended =>
    rw [hstreams, hjobs]
    intro m stream hstream hend other hother hm
    obtain hold | rfl := List.mem_or_eq_of_mem_set hother
    · exact h.ended m stream hstream hend other hold hm
    · exact absurd (h.ended m stream hstream hend job (List.mem_of_getElem? hjob) hm) hlive

theorem Sound.accept (h : s.Sound) (hstream : s.streams[n]? = some stream) (hreader : stream.reader = .reading)
    {id : String} (hfree : s.routes stream.conn id = false)
    (hstreams : t.streams = s.streams.set n { stream with reader := .header })
    (hjobs : t.jobs = s.jobs ++ [{ conn := stream.conn, stream := n, messageId := id }])
    (hslots : t.slots = s.slots) (hframes : t.frames = s.frames)
    (hroutes : t.routes =
      update s.routes stream.conn (update (s.routes stream.conn) id true)) : t.Sound := by
  constructor
  case slots =>
    intro c
    have hset := Tally.countP_set (FrameStream.slotted c) { stream with reader := .header } hstream
    have hreading : stream.slotted c = decide (stream.conn = c) := by
      simp [FrameStream.slotted, hreader, Reader.slotted]
    have hheader : FrameStream.slotted c { stream with reader := .header } = false := by
      simp [FrameStream.slotted, Reader.slotted]
    have hjob : [FrameJob.mk stream.conn n id .processing].countP (FrameJob.slotted c) =
        (decide (stream.conn = c)).toNat := by
      by_cases hc : stream.conn = c <;> simp [FrameJob.slotted, hc]
    have hbefore := h.slots c
    rw [hreading, hheader, Bool.toNat_false] at hset
    rw [hslots, hstreams, hjobs, List.countP_append, hjob]
    omega
  case frames =>
    have hset := Tally.countP_set (fun stream : FrameStream => stream.reader.framed)
      { stream with reader := .header } hstream
    have hbefore := h.frames
    rw [hreader] at hset
    change _ + 1 = _ + 0 at hset
    rw [hframes, hstreams, hjobs, List.countP_append]
    change _ = _ + (_ + 1)
    omega
  case slotsLe =>
    rw [hslots]
    exact h.slotsLe
  case framesLe =>
    rw [hframes]
    exact h.framesLe
  case routes =>
    intro c id'
    rw [hjobs, hroutes, List.countP_append, h.routes c id']
    by_cases hc : stream.conn = c
    · subst hc
      by_cases hid : id = id'
      · subst hid
        simp [FrameJob.routed, hfree]
      · simp [FrameJob.routed, hid, update_of_ne (Ne.symm hid)]
    · simp [FrameJob.routed, hc, update_of_ne (Ne.symm hc)]
  case streamed =>
    rw [hstreams, hjobs]
    intro job hjob
    obtain hold | hnew := List.mem_append.1 hjob
    · exact streamed_set hstream rfl (h.streamed job hold)
    · obtain rfl := List.mem_singleton.1 hnew
      exact streamed_set hstream rfl ⟨stream, hstream, rfl⟩
  case ended =>
    rw [hstreams, hjobs]
    intro m other hother hend job hjob hm
    obtain ⟨-, rfl⟩ | ⟨hne, hother⟩ := System.lookup_set hstream hother
    · cases hend
    · obtain hold | hnew := List.mem_append.1 hjob
      · exact h.ended m other hother hend job hold hm
      · obtain rfl := List.mem_singleton.1 hnew
        exact absurd hm.symm hne

theorem update_succ (f : Nat → Nat) (c d : Nat) :
    update f c (f c + 1) d = f d + (decide (c = d)).toNat := by
  by_cases hd : c = d
  · subst hd
    simp
  · simp [hd, update_of_ne (Ne.symm hd)]

theorem update_pred {f : Nat → Nat} {c : Nat} (hc : f c ≠ 0) (d : Nat) :
    update f c (f c - 1) d + (decide (c = d)).toNat = f d := by
  by_cases hd : c = d
  · subst hd
    simp
    omega
  · simp [hd, update_of_ne (Ne.symm hd)]

theorem sound_nextStream {step : StreamStep} (h : s.Sound) (hstream : s.streams[n]? = some stream)
    (hnext : s.nextStream n stream step = some t) : t.Sound := by
  -- A reader that keeps the tokens it has.
  have hpass : ∀ {old reader : Reader}, stream.reader = old → old.slotted = reader.slotted →
      old.framed = reader.framed → reader ≠ .ended → (s.setReader n stream reader).Sound := by
    rintro old reader rfl hslotted hframed hend
    refine h.moveStream hstream { stream with reader } rfl rfl rfl rfl (fun c => ?_) ?_ h.slotsLe h.framesLe
      fun hne => absurd hne hend
    · simp only [FrameStream.slotted, hslotted]
      rfl
    · rw [hframed]
      rfl
  cases step with
  | header header =>
    cases header with
    | failed =>
      obtain ⟨hreader, rfl⟩ := Option.ite_some_none_eq_some.1 hnext
      exact hpass hreader rfl rfl (by decide)
    | kind kind =>
      obtain ⟨hreader, rfl⟩ := Option.ite_some_none_eq_some.1 hnext
      split_ifs
      · exact hpass hreader rfl rfl (by decide)
      · exact hpass hreader rfl rfl (by decide)
  | acquireSlot =>
    obtain ⟨⟨hreader, hroom⟩, rfl⟩ := Option.ite_some_none_eq_some.1 hnext
    refine h.moveStream hstream { stream with reader := .budget } rfl rfl rfl rfl (fun c => ?_) ?_
      (fun c => ?_) h.framesLe fun hne => by cases hne
    · refine (congrArg (· + _) (update_succ s.slots stream.conn c)).trans ?_
      simp [FrameStream.slotted, hreader, Reader.slotted]
    · rw [hreader]
      rfl
    · refine (update_succ s.slots stream.conn c).trans_le ?_
      by_cases hc : stream.conn = c
      · rw [← hc, decide_eq_true rfl]
        exact hroom
      · rw [decide_eq_false hc]
        exact h.slotsLe c
  | acquireFrame =>
    obtain ⟨⟨hreader, hroom⟩, rfl⟩ := Option.ite_some_none_eq_some.1 hnext
    refine h.moveStream hstream { stream with reader := .reading } rfl rfl rfl rfl (fun c => ?_) ?_
      h.slotsLe hroom fun hne => by cases hne
    · simp [FrameStream.slotted, hreader, Reader.slotted, setReader]
    · rw [hreader]
      rfl
  | giveUpSlot =>
    obtain ⟨⟨hreader, -⟩, rfl⟩ := Option.ite_some_none_eq_some.1 hnext
    exact hpass hreader rfl rfl (by decide)
  | giveUpFrame =>
    obtain ⟨⟨hreader, -⟩, rfl⟩ := Option.ite_some_none_eq_some.1 hnext
    exact hpass hreader rfl rfl (by decide)
  | read body =>
    obtain ⟨hreader, rfl⟩ := Option.ite_some_none_eq_some.1 hnext
    have hrelease : (s.setReader n stream .release).Sound := hpass hreader rfl rfl (by decide)
    cases body with
    | truncated => exact hrelease
    | malformed => exact hrelease
    | message id =>
      unfold read
      dsimp only
      split_ifs with hbad
      · exact hrelease
      · have hfree : s.routes stream.conn id = false := by
          simp only [not_or, Bool.not_eq_true] at hbad
          exact hbad.2.2
        exact h.accept hstream hreader hfree rfl rfl rfl rfl rfl
  | returnFrame =>
    obtain ⟨⟨hreader, hframes⟩, rfl⟩ := Option.ite_some_none_eq_some.1 hnext
    refine h.moveStream hstream { stream with reader := .released } rfl rfl rfl rfl (fun c => ?_) ?_
      h.slotsLe ((Nat.sub_le ..).trans h.framesLe) fun hne => by cases hne
    · simp [FrameStream.slotted, hreader, Reader.slotted, setReader]
    · rw [hreader]
      exact Nat.sub_add_cancel (Nat.pos_of_ne_zero hframes)
  | returnSlot =>
    obtain ⟨⟨hreader, hslots⟩, rfl⟩ := Option.ite_some_none_eq_some.1 hnext
    have hbefore : stream.reader.slotted = true ∧ stream.reader.framed = false := by
      rcases hreader with hreader | hreader <;> rw [hreader] <;> exact ⟨rfl, rfl⟩
    refine h.moveStream hstream { stream with reader := .returning } rfl rfl rfl rfl (fun c => ?_) ?_
      (fun c => ?_) h.framesLe fun hne => by cases hne
    · rw [FrameStream.slotted, hbefore.1, Bool.and_true]
      refine (update_pred hslots c).trans ?_
      simp [FrameStream.slotted, Reader.slotted]
    · rw [hbefore.2]
      rfl
    · exact (Nat.le_add_right ..).trans ((update_pred hslots c).trans_le (h.slotsLe c))
  | finish =>
    obtain ⟨⟨hreader, hfinished⟩, rfl⟩ := Option.ite_some_none_eq_some.1 hnext
    refine h.moveStream hstream { stream with reader := .ended } rfl rfl rfl rfl (fun c => ?_) ?_ h.slotsLe
      h.framesLe fun _ => hfinished
    · simp [FrameStream.slotted, hreader, Reader.slotted, setReader]
    · rw [hreader]
      rfl

theorem sound_nextJob (h : s.Sound) (hjob : s.jobs[k]? = some job) (hnext : s.nextJob k job = some t) :
    t.Sound := by
  unfold nextJob at hnext
  cases hphase : job.phase with
  | processing =>
    rw [hphase] at hnext
    cases hnext
    refine h.moveJob hjob (by rw [hphase]; decide) rfl rfl (fun c => ?_) ?_ h.slotsLe h.framesLe ?_
    · simp [FrameJob.slotted, hphase, setPhase]
    · rw [hphase]
      rfl
    · intro c id
      have hone := Tally.weight_le_tally (fun job => (FrameJob.routed c id job).toNat) hjob
      rw [Tally.tally_toNat, h.routes c id] at hone
      change (update s.routes job.conn (update (s.routes job.conn) _ false) c id).toNat + _ = _
      by_cases hc : job.conn = c
      · subst hc
        by_cases hid : job.messageId = id
        · subst hid
          simp [FrameJob.routed, hphase] at hone ⊢
          cases hroutes : s.routes job.conn job.messageId with
          | true => rfl
          | false =>
            rw [hroutes] at hone
            cases hone
        · simp [FrameJob.routed, hid, update_of_ne (Ne.symm hid)]
      · simp [FrameJob.routed, hc, update_of_ne (Ne.symm hc)]
  | unrouted =>
    rw [hphase] at hnext
    obtain ⟨hframes, rfl⟩ := Option.ite_some_none_eq_some.1 hnext
    refine h.moveJob hjob (by rw [hphase]; decide) rfl rfl (fun c => ?_) ?_ h.slotsLe
      ((Nat.sub_le ..).trans h.framesLe) fun c id => ?_
    · simp [FrameJob.slotted, hphase, setPhase]
    · rw [hphase]
      exact Nat.sub_add_cancel (Nat.pos_of_ne_zero hframes)
    · simp [FrameJob.routed, hphase, setPhase]
  | released =>
    rw [hphase] at hnext
    obtain ⟨hslots, rfl⟩ := Option.ite_some_none_eq_some.1 hnext
    refine h.moveJob hjob (by rw [hphase]; decide) rfl rfl (fun c => ?_) ?_ (fun c => ?_) h.framesLe
      fun c id => ?_
    · simp only [FrameJob.slotted, hphase, ne_eq, reduceCtorEq, not_false_eq_true, not_true_eq_false,
        decide_true, decide_false, Bool.and_true, Bool.and_false]
      exact update_pred hslots c
    · rw [hphase]
      rfl
    · exact (Nat.le_add_right ..).trans ((update_pred hslots c).trans_le (h.slotsLe c))
    · simp [FrameJob.routed, hphase, setPhase, setSlots]
  | finished =>
    rw [hphase] at hnext
    cases hnext

theorem sound_of_reachable (h : frameServing.Reachable System.anyStep s) : s.Sound := by
  refine h.invariant ?_ ?_
  · rintro s rfl
    refine ⟨fun _ => rfl, rfl, fun _ => Nat.zero_le _, Nat.zero_le _, fun _ _ => rfl, ?_, ?_⟩
    · intro job hjob
      cases hjob
    · intro n stream hstream
      cases hstream
  · intro s a s' hs _ hstep
    cases a with
    | opened conn =>
      cases hstep
      refine ⟨fun c => ?_, ?_, hs.slotsLe, hs.framesLe, hs.routes, ?_, ?_⟩
      · rw [List.countP_append, hs.slots c]
        simp [FrameStream.slotted, Reader.slotted]
      · rw [List.countP_append, hs.frames]
        rfl
      · intro job hjob
        obtain ⟨stream, hstream, hconn⟩ := hs.streamed job hjob
        have hlt := (List.getElem?_eq_some_iff.1 hstream).1
        exact ⟨stream, by rw [List.getElem?_append_left hlt, hstream], hconn⟩
      · intro n stream hstream hend
        obtain ⟨-, rfl⟩ | ⟨-, hstream⟩ := System.lookup_push hstream
        · cases hend
        · exact hs.ended n stream hstream hend
    | cancel n =>
      obtain ⟨stream, hstream, hs'⟩ := Option.map_eq_some_iff.1 hstep
      cases hs'
      exact hs.moveStream hstream { stream with cancelled := true } rfl rfl rfl rfl (fun _ => rfl) rfl hs.slotsLe
        hs.framesLe (hs.ended n stream hstream)
    | stream n step =>
      obtain ⟨stream, hstream, hnext⟩ := Option.bind_eq_some_iff.1 hstep
      exact sound_nextStream hs hstream hnext
    | job k =>
      obtain ⟨job, hjob, hnext⟩ := Option.bind_eq_some_iff.1 hstep
      exact sound_nextJob hs hjob hnext

/-! ### What the frames are doing -/

def waiting (s : FrameServer) (conns : Nat → Bool) : Nat :=
  s.streams.countP fun stream => conns stream.conn && stream.reader = .budget

def beingRead (s : FrameServer) (conns : Nat → Bool) : Nat :=
  s.streams.countP fun stream => conns stream.conn && stream.reader = .reading

def processed (s : FrameServer) (conns : Nat → Bool) : Nat :=
  s.jobs.countP fun job => conns job.conn && job.phase = .processing

def releasing (s : FrameServer) (conns : Nat → Bool) : Nat :=
  (s.streams.countP fun stream => conns stream.conn && stream.reader = .release) +
    s.jobs.countP fun job => conns job.conn && job.phase = .unrouted

def leaving (s : FrameServer) (conns : Nat → Bool) : Nat :=
  (s.streams.countP fun stream =>
      conns stream.conn && (stream.reader = .retreat || stream.reader = .released)) +
    s.jobs.countP fun job => conns job.conn && job.phase = .released

theorem streams_split (streams : List FrameStream) (c : Nat) :
    streams.countP (FrameStream.slotted c) =
      (streams.countP fun stream => stream.conn = c && stream.reader = .budget) +
      (streams.countP fun stream => stream.conn = c && stream.reader = .reading) +
      (streams.countP fun stream => stream.conn = c && stream.reader = .release) +
      streams.countP fun stream =>
        stream.conn = c && (stream.reader = .retreat || stream.reader = .released) := by
  simp only [← Tally.tally_toNat, Tally.tally, ← List.sum_map_add]
  refine congrArg List.sum (List.map_congr_left fun stream _ => ?_)
  rw [FrameStream.slotted]
  cases stream.reader <;> cases decide (stream.conn = c) <;> rfl

theorem jobs_split (jobs : List FrameJob) (c : Nat) :
    jobs.countP (FrameJob.slotted c) = (jobs.countP fun job => job.conn = c && job.phase = .processing) +
      (jobs.countP fun job => job.conn = c && job.phase = .unrouted) +
      jobs.countP fun job => job.conn = c && job.phase = .released := by
  simp only [← Tally.tally_toNat, Tally.tally, ← List.sum_map_add]
  refine congrArg List.sum (List.map_congr_left fun job _ => ?_)
  rw [FrameJob.slotted]
  cases job.phase <;> cases decide (job.conn = c) <;> rfl

theorem Sound.frames_eq (h : s.Sound) :
    s.frames = s.beingRead (fun _ => true) + s.processed (fun _ => true) + s.releasing fun _ => true := by
  have hstreams : (s.streams.countP fun stream => true && stream.reader = .reading) +
      (s.streams.countP fun stream => true && stream.reader = .release) =
      s.streams.countP (·.reader.framed) :=
    Tally.countP_add fun stream _ => by cases stream.reader <;> rfl
  have hjobs : (s.jobs.countP fun job => true && job.phase = .processing) +
      (s.jobs.countP fun job => true && job.phase = .unrouted) = s.jobs.countP (·.phase.framed) :=
    Tally.countP_add fun job _ => by cases job.phase <;> rfl
  rw [h.frames, beingRead, processed, releasing]
  omega

theorem Sound.finished_of_ended (h : s.Sound) {job : FrameJob} (hjob : job ∈ s.jobs)
    (hended : ∀ stream ∈ s.streams, stream.conn = job.conn → stream.reader = .ended) : job.phase = .finished := by
  obtain ⟨stream, hstream, hconn⟩ := h.streamed job hjob
  exact h.ended _ stream hstream (hended stream (List.mem_of_getElem? hstream) hconn) job hjob rfl

/-- The tokens of a connection are those of its frames that wait for the budget of all connections,
are read, are processed or give their tokens back; the tokens of all connections are those of the
frames that are read, are processed or give both tokens back. No token is left when the streams have
ended, and a message id has a route while one frame with the id is processed. -/
theorem frame_tokens_conserved (h : frameServing.Reachable System.anyStep s) :
    (∀ c, s.slots c = s.waiting (· = c) + s.beingRead (· = c) + s.processed (· = c) +
      s.releasing (· = c) + s.leaving (· = c)) ∧
    s.frames = s.beingRead (fun _ => true) + s.processed (fun _ => true) + s.releasing (fun _ => true) ∧
    (∀ c, s.slots c ≤ 8) ∧ s.frames ≤ 32 ∧
    (∀ c, (∀ stream ∈ s.streams, stream.conn = c → stream.reader = .ended) → s.slots c = 0) ∧
    ((∀ stream ∈ s.streams, stream.reader = .ended) → s.frames = 0) ∧
    ∀ c id, s.jobs.countP (FrameJob.routed c id) = (s.routes c id).toNat := by
  have hsound := sound_of_reachable h
  refine ⟨fun c => ?_, hsound.frames_eq, hsound.slotsLe, hsound.framesLe, fun c hended => ?_, fun hended => ?_,
    hsound.routes⟩
  · rw [hsound.slots c, streams_split, jobs_split, waiting, beingRead, processed, releasing, leaving]
    omega
  · rw [hsound.slots c, Nat.add_eq_zero_iff, List.countP_eq_zero, List.countP_eq_zero]
    constructor
    · intro stream hstream hslotted
      simp only [FrameStream.slotted, Bool.and_eq_true, decide_eq_true_eq] at hslotted
      rw [hended stream hstream hslotted.1] at hslotted
      cases hslotted.2
    · intro job hjob hslotted
      simp only [FrameJob.slotted, ne_eq, Bool.and_eq_true, decide_eq_true_eq] at hslotted
      exact hslotted.2 (hsound.finished_of_ended hjob fun stream hstream hconn =>
        hended stream hstream (hconn.trans hslotted.1))
  · rw [hsound.frames, Nat.add_eq_zero_iff, List.countP_eq_zero, List.countP_eq_zero]
    constructor
    · intro stream hstream hframed
      rw [hended stream hstream] at hframed
      cases hframed
    · intro job hjob hframed
      rw [hsound.finished_of_ended hjob fun stream hstream _ => hended stream hstream] at hframed
      cases hframed

end FrameServer

open FrameServer

namespace Sample

def frameRun : List FrameAction :=
  [.opened 0, .stream 0 (.header (.kind 3)), .stream 0 .acquireSlot, .stream 0 .acquireFrame,
    .stream 0 (.read (.message "m")), .job 0, .job 0]

end Sample

theorem reachable_frameRun : ∃ s, frameServing.Reachable System.anyStep s ∧ s.slots 0 = 1 ∧ s.frames = 0 ∧
    s.waiting (· = 0) = 0 ∧ s.beingRead (· = 0) = 0 ∧ s.processed (· = 0) = 0 := by
  have hrun : ∃ s, Sample.frameRun.foldlM FrameServer.next {} = some s ∧ s.slots 0 = 1 ∧ s.frames = 0 ∧
      s.waiting (· = 0) = 0 ∧ s.beingRead (· = 0) = 0 ∧ s.processed (· = 0) = 0 :=
    ⟨_, rfl, rfl, rfl, rfl, rfl, rfl⟩
  obtain ⟨s, hrun, hfacts⟩ := hrun
  exact ⟨s, (System.Path.of_foldlM (fun _ _ _ h => h) (fun _ _ _ => trivial) .refl hrun).reachable (.init rfl),
    hfacts⟩

theorem frame_tokens_conserved_run : ∃ s, frameServing.Reachable System.anyStep s ∧ s.slots 0 ≤ 8 ∧
    s.slots 0 = 1 := by
  obtain ⟨s, h, hslots, -⟩ := reachable_frameRun
  exact ⟨s, h, (frame_tokens_conserved h).2.2.1 0, hslots⟩

/-- Between the two receives of `release` the connection has a token, although none of its frames waits
for the budget, and no frame at all has a token of all connections. -/
theorem frame_token_between_receives : ∃ s, frameServing.Reachable System.anyStep s ∧
    s.slots 0 ≠ s.waiting (· = 0) + s.beingRead (· = 0) + s.processed (· = 0) ∧
    s.waiting (· = 0) + s.frames < s.slots 0 := by
  obtain ⟨s, h, hslots, hframes, hwaiting, hread, hprocessed⟩ := reachable_frameRun
  refine ⟨s, h, ?_, ?_⟩
  · rw [hslots, hwaiting, hread, hprocessed]
    decide
  · rw [hslots, hwaiting, hframes]
    decide

end CallBackend.Native
