import CallBackend.Lib.Framing
import CallBackend.Config

/-!
# Frames on a link

The header of a frame is a version, a type, a message id of eight bytes and a length of four; the
payload follows. `FrameParser` keeps what is incomplete, but takes no more bytes than its receive
buffer holds: the unfinished frame and the next chunk together. A link is built with a buffer of two
payloads of maximal size, while the chunks it reads have a size of their own.
-/

namespace CallBackend.Link

open Framing

def protocolVersion : Nat := 1

def headerSize : Nat := 14

def protocolMaxFrameSize : Nat := 256 * 1024

/-- How much the `ready` callback reads at once. -/
def chunkSize : Nat := 64 * 1024

inductive FrameType where
  | data
  | ack
  | control
  deriving DecidableEq, Repr

def FrameType.code : FrameType → Nat
  | .data => 1
  | .ack => 2
  | .control => 3

/-- `FrameType(raw_type)`. -/
def FrameType.ofCode : Nat → Option FrameType
  | 1 => some .data
  | 2 => some .ack
  | 3 => some .control
  | _ => none

structure Frame where
  frameType : FrameType
  messageId : Nat
  payload : Bytes := []
  deriving DecidableEq, Repr

/-- `_HEADER.pack`. -/
def packHeader (version type messageId length : Nat) : Bytes :=
  BigEndian.encode 1 version ++ (BigEndian.encode 1 type ++ (BigEndian.encode 8 messageId ++
    (BigEndian.encode 4 length ++ [])))

def Frame.header (frame : Frame) : Bytes :=
  packHeader protocolVersion frame.frameType.code frame.messageId frame.payload.length

def Frame.encode (frame : Frame) (maxFrameSize : Nat) : Except Exn Bytes :=
  if 2 ^ 64 ≤ frame.messageId then
    .error (.valueError "message_id must be an unsigned 64-bit integer")
  else if maxFrameSize < frame.payload.length then
    .error (.valueError "payload exceeds maximum frame size")
  else .ok (frame.header ++ frame.payload)

structure Header where
  version : Nat
  rawType : Nat
  messageId : Nat
  payloadLength : Nat
  deriving DecidableEq, Repr

def unpackHeader (buffer : Bytes) : Header where
  version := BigEndian.field 0 1 buffer
  rawType := BigEndian.field 1 1 buffer
  messageId := BigEndian.field 2 8 buffer
  payloadLength := BigEndian.field 10 4 buffer

/-- The checks that `feed` makes as soon as it has a header. -/
def checkHeader (maxFrameSize : Nat) (bytes : Bytes) : Except Exn Nat :=
  let header := unpackHeader bytes
  if header.version ≠ protocolVersion then
    .error (.protocolError s!"unsupported protocol version: {header.version}")
  else if FrameType.ofCode header.rawType = none then
    .error (.protocolError s!"unknown frame type: {header.rawType}")
  else if maxFrameSize < header.payloadLength then
    .error (.protocolError "declared payload exceeds maximum frame size")
  else .ok header.payloadLength

/-- What `feed` makes of a complete frame. -/
def buildFrame (bytes payload : Bytes) : Except Exn Frame :=
  let header := unpackHeader bytes
  match FrameType.ofCode header.rawType with
  | none => .error (.protocolError s!"unknown frame type: {header.rawType}")
  | some type =>
    if type = .ack ∧ payload ≠ [] then .error (.protocolError "ACK payload must be empty")
    else .ok ⟨type, header.messageId, payload⟩

/-- A round of the loop in `feed` looks at the front of the buffer. -/
def grammar (maxFrameSize : Nat) : Grammar UInt8 Frame Exn :=
  .headed headerSize (checkHeader maxFrameSize) buildFrame (by decide)

structure FrameParser where
  maxFrameSize : Nat
  maxReceiveBufferSize : Nat
  buffer : Bytes := []
  deriving DecidableEq, Repr

/-- `FrameParser.__init__`. -/
def FrameParser.make (maxFrameSize : Nat) (maxReceiveBufferSize : Option Nat) :
    Except Exn FrameParser :=
  if ¬(0 < maxFrameSize ∧ maxFrameSize ≤ protocolMaxFrameSize) then
    .error (.valueError "invalid max_frame_size")
  else
    -- a size of 0 counts as none
    let size := (maxReceiveBufferSize.filter (· ≠ 0)).getD (maxFrameSize * 2)
    if size < headerSize + maxFrameSize then
      .error (.valueError "receive buffer must hold one maximum-sized frame")
    else .ok { maxFrameSize, maxReceiveBufferSize := size }

def FrameParser.feed (parser : FrameParser) (data : Bytes) : Except Exn (List Frame) × FrameParser :=
  if parser.maxReceiveBufferSize < parser.buffer.length + data.length then
    (.error (.protocolError "receive buffer exceeds maximum size"), { parser with buffer := [] })
  else
    let reading := (grammar parser.maxFrameSize).parse (parser.buffer ++ data)
    match reading.error with
    | some error => (.error error, { parser with buffer := [] })
    | none => (.ok reading.frames, { parser with buffer := reading.rest })

/-- The frames of the chunks that a link reads, up to the first exception. -/
def FrameParser.receive (parser : FrameParser) : List Bytes → Except Exn (List Frame)
  | [] => .ok []
  | chunk :: chunks => do
    let frames ← (parser.feed chunk).1
    return frames ++ (← (parser.feed chunk).2.receive chunks)

/-- The parser of `PhysicalConnection`, and what it makes of the chunks. -/
def receive (config : Config) (chunks : List Bytes) : Except Exn (List Frame) := do
  let parser ← FrameParser.make config.maxFrameSize (some (config.maxFrameSize * 2))
  parser.receive chunks

/-! ### Frames are read as they are written -/

/-- The frames that a peer may send. -/
structure Frame.WellFormed (maxFrameSize : Nat) (frame : Frame) : Prop where
  messageId : frame.messageId < 2 ^ 64
  payload : frame.payload.length ≤ maxFrameSize
  ack : frame.frameType = .ack → frame.payload = []

instance Frame.decidableWellFormed (maxFrameSize : Nat) (frame : Frame) :
    Decidable (frame.WellFormed maxFrameSize) :=
  decidable_of_iff (frame.messageId < 2 ^ 64 ∧ frame.payload.length ≤ maxFrameSize ∧
      (frame.frameType = .ack → frame.payload = []))
    ⟨fun h => ⟨h.1, h.2.1, h.2.2⟩, fun h => ⟨h.messageId, h.payload, h.ack⟩⟩

def Frame.bytes (frame : Frame) : Bytes := frame.header ++ frame.payload

section Encoding

variable {maxFrameSize : Nat} {frame : Frame}

theorem Frame.WellFormed.encode (h : frame.WellFormed maxFrameSize) :
    frame.encode maxFrameSize = .ok frame.bytes := by
  rw [Frame.encode, if_neg (not_le.mpr h.messageId), if_neg (not_lt.mpr h.payload)]
  rfl

theorem Frame.length_header (frame : Frame) : frame.header.length = headerSize := by
  simp [Frame.header, packHeader, headerSize]

theorem Frame.length_bytes (frame : Frame) : frame.bytes.length = headerSize + frame.payload.length := by
  rw [Frame.bytes, List.length_append, frame.length_header]

theorem unpackHeader_packHeader {version type messageId length : Nat} (hversion : version < 256)
    (htype : type < 256) (hid : messageId < 2 ^ 64) (hlength : length < 2 ^ 32) :
    unpackHeader (packHeader version type messageId length) = ⟨version, type, messageId, length⟩ := by
  have hid' : messageId < 256 ^ 8 := hid
  have hlength' : length < 256 ^ 4 := hlength
  simp only [unpackHeader, Header.mk.injEq]
  refine ⟨BigEndian.field_encode hversion _, ?_, ?_, ?_⟩
  · exact (BigEndian.field_skip 1 version 0 1 _).trans (BigEndian.field_encode htype _)
  · exact (BigEndian.field_skip 1 version 1 8 _).trans
      ((BigEndian.field_skip 1 type 0 8 _).trans (BigEndian.field_encode hid _))
  · exact (BigEndian.field_skip 1 version 9 4 _).trans
      ((BigEndian.field_skip 1 type 8 4 _).trans
        ((BigEndian.field_skip 8 messageId 0 4 _).trans (BigEndian.field_encode hlength _)))

theorem FrameType.ofCode_code (type : FrameType) : FrameType.ofCode type.code = some type := by
  cases type <;> rfl

theorem Frame.WellFormed.unpackHeader (h : frame.WellFormed maxFrameSize)
    (hmax : maxFrameSize ≤ protocolMaxFrameSize) : unpackHeader frame.header =
      ⟨protocolVersion, frame.frameType.code, frame.messageId, frame.payload.length⟩ := by
  have hlength : frame.payload.length < 2 ^ 32 := by
    have hpayload := h.payload
    have hsize : maxFrameSize ≤ 262144 := hmax
    omega
  refine unpackHeader_packHeader (by decide) ?_ h.messageId hlength
  cases frame.frameType <;> decide

theorem front_bytes (h : frame.WellFormed maxFrameSize) (hmax : maxFrameSize ≤ protocolMaxFrameSize)
    (rest : Bytes) :
    (grammar maxFrameSize).front (frame.bytes ++ rest) = .frame frame frame.bytes.length := by
  have hheader := h.unpackHeader hmax
  have hcheck : checkHeader maxFrameSize frame.header = .ok frame.payload.length := by
    simp only [checkHeader, hheader, FrameType.ofCode_code]
    rw [if_neg (by simp), if_neg (by simp), if_neg (not_lt.mpr h.payload)]
  have hbuild : buildFrame frame.header frame.payload = .ok frame := by
    simp only [buildFrame, hheader, FrameType.ofCode_code]
    rw [if_neg fun hack => hack.2 (h.ack hack.1)]
  rw [frame.length_bytes]
  exact Grammar.headedFront_frame frame.length_header rfl hcheck hbuild rest

end Encoding

/-! ### Chunks that fit -/

section Receive

variable {parser : FrameParser} {data : Bytes} {chunks : List Bytes} {frames : List Frame}

/-- The buffer has room for each chunk beside what it keeps then. -/
def FrameParser.Room (parser : FrameParser) (chunks : List Bytes) : Prop :=
  ∀ before chunk after, chunks = before ++ chunk :: after →
    ((grammar parser.maxFrameSize).parse (parser.buffer ++ before.flatten)).rest.length +
      chunk.length ≤ parser.maxReceiveBufferSize

/-- What the parser reads next. -/
def FrameParser.reading (parser : FrameParser) (data : Bytes) : Reading UInt8 Frame Exn :=
  (grammar parser.maxFrameSize).parse (parser.buffer ++ data)

/-- The parser after a chunk without an error. -/
def FrameParser.next (parser : FrameParser) (data : Bytes) : FrameParser :=
  { parser with buffer := (parser.reading data).rest }

theorem FrameParser.feed_of_room
    (hroom : parser.buffer.length + data.length ≤ parser.maxReceiveBufferSize)
    (herror : (parser.reading data).error = none) :
    parser.feed data = (.ok (parser.reading data).frames, parser.next data) := by
  have hparse : ((grammar parser.maxFrameSize).parse (parser.buffer ++ data)).error = none := herror
  rw [FrameParser.feed, if_neg (not_lt.mpr hroom)]
  dsimp only
  rw [hparse]
  rfl

theorem FrameParser.reading_cons {chunk : Bytes} (h : (parser.reading chunk).error = none) :
    parser.reading (chunk :: chunks).flatten =
      ((parser.next chunk).reading chunks.flatten).after (parser.reading chunk).frames := by
  rw [FrameParser.reading, List.flatten_cons, ← List.append_assoc, Grammar.parse_append _ h]
  rfl

theorem FrameParser.room_cons {chunk : Bytes}
    (hbuffer : (grammar parser.maxFrameSize).front parser.buffer = .more)
    (herror : (parser.reading chunk).error = none) :
    parser.Room (chunk :: chunks) ↔
      parser.buffer.length + chunk.length ≤ parser.maxReceiveBufferSize ∧
        (parser.next chunk).Room chunks := by
  have hstart : ((grammar parser.maxFrameSize).parse (parser.buffer ++ [])).rest = parser.buffer := by
    rw [List.append_nil, Grammar.parse_more _ hbuffer]
  have hlater : ∀ rest, ((grammar parser.maxFrameSize).parse (parser.buffer ++ (chunk ++ rest))).rest =
      ((grammar parser.maxFrameSize).parse ((parser.next chunk).buffer ++ rest)).rest := by
    intro rest
    rw [← List.append_assoc, Grammar.parse_append _ herror]
    rfl
  constructor
  · intro hroom
    refine ⟨?_, fun before chunk' after h => ?_⟩
    · have hfirst := hroom [] chunk chunks rfl
      rwa [List.flatten_nil, hstart] at hfirst
    · have hnext := hroom (chunk :: before) chunk' after (by rw [h]; rfl)
      rwa [List.flatten_cons, hlater] at hnext
  · rintro ⟨hfirst, hnext⟩ before chunk' after h
    cases before with
    | nil =>
      cases h
      rw [List.flatten_nil, hstart]
      exact hfirst
    | cons first before =>
      cases h
      rw [List.flatten_cons, hlater]
      exact hnext before chunk' after rfl

theorem FrameParser.receive_eq_ok (hbuffer : (grammar parser.maxFrameSize).front parser.buffer = .more)
    (herror : (parser.reading chunks.flatten).error = none) :
    parser.receive chunks = .ok frames ↔
      parser.Room chunks ∧ frames = (parser.reading chunks.flatten).frames := by
  induction chunks generalizing parser frames with
  | nil =>
    have hempty : (parser.reading []).frames = [] := by
      rw [FrameParser.reading, List.append_nil, Grammar.parse_more _ hbuffer]
    rw [List.flatten_nil, hempty, FrameParser.receive]
    constructor
    · rintro ⟨⟩
      exact ⟨fun before chunk after h => by simp at h, rfl⟩
    · rintro ⟨-, rfl⟩
      rfl
  | cons chunk chunks ih =>
    have herror' : ((grammar parser.maxFrameSize).parse
        ((parser.buffer ++ chunk) ++ chunks.flatten)).error = none := by
      rw [List.append_assoc]
      exact herror
    have hchunk : (parser.reading chunk).error = none := Grammar.error_none_of_append _ herror'
    rw [FrameParser.reading_cons hchunk] at herror ⊢
    rw [FrameParser.room_cons hbuffer hchunk]
    by_cases hroom : parser.buffer.length + chunk.length ≤ parser.maxReceiveBufferSize
    · have hrest : ∀ {later}, (parser.next chunk).receive chunks = .ok later ↔
          (parser.next chunk).Room chunks ∧
            later = ((parser.next chunk).reading chunks.flatten).frames :=
        fun {later} => ih (Grammar.front_rest _ hchunk) herror
      rw [FrameParser.receive, FrameParser.feed_of_room hroom hchunk]
      constructor
      · intro h
        cases hreceive : (parser.next chunk).receive chunks with
        | error error =>
          rw [hreceive] at h
          cases h
        | ok later =>
          obtain ⟨hroom', rfl⟩ := hrest.mp hreceive
          rw [hreceive] at h
          cases h
          exact ⟨⟨hroom, hroom'⟩, rfl⟩
      · rintro ⟨⟨-, hroom'⟩, rfl⟩
        rw [hrest.mpr ⟨hroom', rfl⟩]
        rfl
    · have hfeed : (parser.feed chunk).1 = .error (.protocolError "receive buffer exceeds maximum size") := by
        rw [FrameParser.feed, if_pos (not_le.mp hroom)]
      rw [FrameParser.receive, hfeed]
      exact iff_of_false nofun fun h => hroom h.1.1

end Receive

/-- Before every chunk, what has arrived of the last frame and the chunk fit the receive buffer of a
link. -/
def Fits (maxFrameSize : Nat) (frames : List Frame) (chunks : List Bytes) : Prop :=
  headerSize ≤ maxFrameSize ∧ ∀ before chunk after, chunks = before ++ chunk :: after →
    Grammar.unfinished (frames.map (·.bytes.length)) before.flatten.length + chunk.length ≤
      maxFrameSize * 2

/-- Frames that a peer sends, in chunks as a link reads them. -/
structure Traffic (maxFrameSize : Nat) (frames : List Frame) (chunks : List Bytes) : Prop where
  wellFormed : ∀ frame ∈ frames, frame.WellFormed maxFrameSize
  atOnce : ∀ chunk ∈ chunks, chunk.length ≤ chunkSize
  wire : chunks.flatten = frames.flatMap (·.bytes)

section Traffic

variable {config : Config} {platform : Platform} {maxFrameSize : Nat} {frames : List Frame}
  {chunks : List Bytes}

theorem make_eq (hpos : 0 < maxFrameSize) (hmax : maxFrameSize ≤ protocolMaxFrameSize) :
    FrameParser.make maxFrameSize (some (maxFrameSize * 2)) =
      if maxFrameSize < headerSize then
        .error (.valueError "receive buffer must hold one maximum-sized frame")
      else .ok { maxFrameSize, maxReceiveBufferSize := maxFrameSize * 2 } := by
  have hsize : ((some (maxFrameSize * 2)).filter (· ≠ 0)).getD (maxFrameSize * 2) = maxFrameSize * 2 := by
    rw [Option.filter_some, if_pos (by simp; omega), Option.getD_some]
  rw [FrameParser.make, if_neg (not_not_intro ⟨hpos, hmax⟩), hsize]
  by_cases hsmall : maxFrameSize < headerSize
  · rw [if_pos hsmall, if_pos (by omega)]
  · rw [if_neg hsmall, if_neg (by omega)]

theorem receive_eq_ok_iff (hpos : 0 < config.maxFrameSize)
    (hmax : config.maxFrameSize ≤ protocolMaxFrameSize) (h : Traffic config.maxFrameSize frames chunks) :
    receive config chunks = .ok frames ↔ Fits config.maxFrameSize frames chunks := by
  have hfront : ∀ frame ∈ frames, ∀ rest, (grammar config.maxFrameSize).front (frame.bytes ++ rest) =
      .frame frame frame.bytes.length := fun frame hmem => front_bytes (h.wellFormed frame hmem) hmax
  rw [receive, make_eq hpos hmax]
  by_cases hsmall : config.maxFrameSize < headerSize
  · rw [if_pos hsmall]
    exact iff_of_false nofun fun hfits => absurd hfits.1 (not_le.mpr hsmall)
  · rw [if_neg hsmall]
    let parser : FrameParser :=
      { maxFrameSize := config.maxFrameSize, maxReceiveBufferSize := config.maxFrameSize * 2 }
    have hread : parser.reading chunks.flatten = ⟨frames, none, []⟩ := by
      rw [h.wire]
      exact Grammar.parse_flatMap _ hfront
    have hreceive : parser.receive chunks = .ok frames ↔
        parser.Room chunks ∧ frames = (parser.reading chunks.flatten).frames :=
      FrameParser.receive_eq_ok (Grammar.front_nil _) (by rw [hread])
    -- what the parser keeps before a chunk is what has arrived of the last frame
    have hkept : ∀ before chunk after, chunks = before ++ chunk :: after →
        ((grammar config.maxFrameSize).parse ([] ++ before.flatten)).rest.length =
          Grammar.unfinished (frames.map (·.bytes.length)) before.flatten.length := by
      intro before chunk after hsplit
      have hwire : frames.flatMap (·.bytes) = before.flatten ++ (chunk :: after).flatten := by
        rw [← h.wire, hsplit, List.flatten_append]
      have htake : (frames.flatMap (·.bytes)).take before.flatten.length = before.flatten := by
        rw [hwire, List.take_left]
      have harrived : before.flatten.length ≤ (frames.flatMap (·.bytes)).length := by
        rw [hwire, List.length_append]
        exact Nat.le_add_right ..
      have hlength := Grammar.length_rest_take (grammar config.maxFrameSize) hfront harrived
      rwa [htake] at hlength
    have hroom : parser.Room chunks ↔ Fits config.maxFrameSize frames chunks := by
      constructor
      · intro hroom
        refine ⟨not_lt.mp hsmall, fun before chunk after hsplit => ?_⟩
        rw [← hkept before chunk after hsplit]
        exact hroom before chunk after hsplit
      · intro hfits before chunk after hsplit
        refine le_trans (le_of_eq ?_) (hfits.2 before chunk after hsplit)
        exact congrArg (· + chunk.length) (hkept before chunk after hsplit)
    refine hreceive.trans ⟨fun hboth => hroom.mp hboth.1, fun hfits => ⟨hroom.mpr hfits, ?_⟩⟩
    rw [hread]

theorem fits_of_large (h : Traffic maxFrameSize frames chunks)
    (hlarge : chunkSize + headerSize ≤ maxFrameSize + 1) : Fits maxFrameSize frames chunks := by
  have hchunkSize : chunkSize = 65536 := rfl
  have hheaderSize : headerSize = 14 := rfl
  refine ⟨by omega, fun before chunk after hsplit => ?_⟩
  have hchunk : chunk.length ≤ chunkSize := h.atOnce chunk (by rw [hsplit]; simp)
  have harrived : before.flatten.length ≤ (frames.map (·.bytes.length)).sum := by
    have hwire := congrArg List.length h.wire
    rw [hsplit, List.flatten_append, List.length_append, List.length_flatMap] at hwire
    omega
  have hsizes : ∀ size ∈ frames.map (·.bytes.length), size ≤ headerSize + maxFrameSize := by
    intro size hsize
    obtain ⟨frame, hframe, rfl⟩ := List.mem_map.mp hsize
    rw [frame.length_bytes]
    exact Nat.add_le_add_left (h.wellFormed frame hframe).payload _
  have hunfinished := Grammar.unfinished_lt (by omega) hsizes harrived
  omega

def fullFrames (maxFrameSize : Nat) : List Frame :=
  List.replicate chunkSize ⟨.data, 0, List.replicate maxFrameSize 0⟩

/-- Bytes in chunks: the first `kept` in two halves, then as much as a link reads at once, and the rest
byte by byte. -/
def wideChunks (wire : Bytes) (kept : Nat) : List Bytes :=
  [wire.take (kept / 2), (wire.take kept).drop (kept / 2)] ++
    (wire.drop kept).take chunkSize :: ((wire.drop kept).drop chunkSize).map ([·])

theorem flatten_halves (wire : Bytes) (kept : Nat) :
    [wire.take (kept / 2), (wire.take kept).drop (kept / 2)].flatten = wire.take kept := by
  have hhalf : wire.take (kept / 2) = (wire.take kept).take (kept / 2) := by
    rw [List.take_take, Nat.min_eq_left (Nat.div_le_self ..)]
  rw [hhalf, List.flatten_cons, List.flatten_cons, List.flatten_nil, List.append_nil,
    List.take_append_drop]

theorem flatten_wideChunks (wire : Bytes) (kept : Nat) : (wideChunks wire kept).flatten = wire := by
  have hsingles : ∀ bytes : Bytes, (bytes.map ([·])).flatten = bytes := by
    intro bytes
    rw [← List.flatMap_def, List.flatMap_singleton']
  rw [wideChunks, List.flatten_append, flatten_halves, List.flatten_cons, hsingles,
    List.take_append_drop, List.take_append_drop]

theorem length_fullFrames : ((fullFrames maxFrameSize).flatMap (·.bytes)).length =
    chunkSize * (headerSize + maxFrameSize) := by
  rw [List.length_flatMap, fullFrames, List.map_replicate, List.sum_replicate_nat,
    Frame.length_bytes, List.length_replicate]

/-- All but the last byte of a frame of maximal size, and then as much as a link reads at once. -/
theorem traffic_wide (hsmall : maxFrameSize + 1 < chunkSize + headerSize) :
    Traffic maxFrameSize (fullFrames maxFrameSize)
      (wideChunks ((fullFrames maxFrameSize).flatMap (·.bytes)) (maxFrameSize + headerSize - 1)) := by
  have hchunkSize : chunkSize = 65536 := rfl
  have hheaderSize : headerSize = 14 := rfl
  refine ⟨fun frame hmem => ?_, fun chunk hmem => ?_, flatten_wideChunks ..⟩
  · obtain rfl := List.eq_of_mem_replicate hmem
    exact ⟨by simp, by simp, nofun⟩
  · simp only [wideChunks, List.mem_append, List.mem_cons, List.not_mem_nil, or_false, List.mem_map]
      at hmem
    rcases hmem with (rfl | rfl) | rfl | ⟨byte, -, rfl⟩
    · rw [List.length_take]
      omega
    · rw [List.length_drop, List.length_take]
      omega
    · rw [List.length_take]
      omega
    · rw [List.length_singleton]
      omega

theorem not_fits_wide (hheader : headerSize ≤ maxFrameSize)
    (hsmall : maxFrameSize + 1 < chunkSize + headerSize) :
    ¬Fits maxFrameSize (fullFrames maxFrameSize)
      (wideChunks ((fullFrames maxFrameSize).flatMap (·.bytes)) (maxFrameSize + headerSize - 1)) := by
  have hchunkSize : chunkSize = 65536 := rfl
  have hheaderSize : headerSize = 14 := rfl
  have hlength : ((fullFrames maxFrameSize).flatMap (·.bytes)).length =
      chunkSize * (headerSize + maxFrameSize) := length_fullFrames
  rintro ⟨-, hfits⟩
  have hroom := hfits _ _ _ rfl
  rw [flatten_halves, List.length_take, List.length_take, List.length_drop] at hroom
  rw [hlength, hchunkSize, Nat.min_eq_left (by omega), Nat.min_eq_left (by omega)] at hroom
  -- the first frame alone is longer than what has arrived
  have hunfinished : Grammar.unfinished ((fullFrames maxFrameSize).map (·.bytes.length))
      (maxFrameSize + headerSize - 1) = maxFrameSize + headerSize - 1 := by
    rw [fullFrames, List.map_replicate, hchunkSize, List.replicate_succ, Grammar.unfinished,
      Frame.length_bytes, List.length_replicate, if_neg (by omega)]
  omega

/-- A link reads the frames of its peer exactly when every chunk fits beside what is unfinished, and a
configuration makes that sure exactly when a frame of maximal size is about as large as a chunk. -/
theorem link_reads_traffic_iff (hvalid : (config.validate platform).toBool = true) :
    (∀ frames chunks, Traffic config.maxFrameSize frames chunks →
      (receive config chunks = .ok frames ↔ Fits config.maxFrameSize frames chunks)) ∧
    ((∀ frames chunks, Traffic config.maxFrameSize frames chunks →
      receive config chunks = .ok frames) ↔ chunkSize + headerSize ≤ config.maxFrameSize + 1) := by
  obtain ⟨hpos, hmax⟩ := Config.maxFrameSize_of_validate hvalid
  have hiff : ∀ frames chunks, Traffic config.maxFrameSize frames chunks →
      (receive config chunks = .ok frames ↔ Fits config.maxFrameSize frames chunks) :=
    fun frames chunks h => receive_eq_ok_iff hpos hmax h
  refine ⟨hiff, fun hreads => ?_, fun hlarge frames chunks h => ?_⟩
  · by_contra hsmall
    rw [not_le] at hsmall
    -- the parser has to be built even where nothing is sent
    have hempty : Traffic config.maxFrameSize [] [] := ⟨nofun, nofun, rfl⟩
    have hheader := ((hiff [] [] hempty).mp (hreads [] [] hempty)).1
    have hwide := traffic_wide hsmall
    exact not_fits_wide hheader hsmall ((hiff _ _ hwide).mp (hreads _ _ hwide))
  · exact (hiff frames chunks h).mpr (fits_of_large h hlarge)

end Traffic

namespace Sample

def platform : Platform where
  folded value := value
  isBlank value := value = ""
  isIpAddress _ := true
  urlparse _ := { scheme := "https", hostname := some "core.example" }
  normalizeQAppIdentity := .ok

def small : Config := { maxFrameSize := 64 }

def ack : Frame := ⟨.ack, 7, []⟩

def full : Frame := ⟨.data, 8, List.replicate 64 1⟩

end Sample

open Sample in
theorem link_reads_traffic_default : receive {} [ack.bytes.take 3, ack.bytes.drop 3 ++ full.bytes] =
    .ok [ack, full] := by
  have hvalid : (Config.validate platform {}).toBool = true := by decide +kernel
  exact (link_reads_traffic_iff hvalid).2.mpr (by decide) _ _
    ⟨by decide +kernel, by decide +kernel, by decide +kernel⟩

open Sample in
/-- Two frames of maximal size that arrive together are more than twice that size. -/
theorem coalesced_frames_rejected : (small.validate platform).toBool = true ∧
    Traffic small.maxFrameSize [full, full] [full.bytes ++ full.bytes] ∧
    receive small [full.bytes ++ full.bytes] =
      .error (.protocolError "receive buffer exceeds maximum size") :=
  ⟨by decide +kernel, ⟨by decide +kernel, by decide +kernel, by decide +kernel⟩, by decide +kernel⟩

end CallBackend.Link
