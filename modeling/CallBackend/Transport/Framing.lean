import CallBackend.Lib.Framing
import CallBackend.Lib.Json

/-!
# The wire format of the private transport

Streams are read twice, by a parser in Python that is fed chunks and by a loop in Go that waits for
the bytes it needs; datagrams are decoded in both as well. Each decoder is translated on its own. The
two are related through the grammar of the stream: a round of either loop is what the grammar says
about the front of it.

Both sides take text as UTF-8 in the strict sense, which is also the one of `String`.
-/

namespace CallBackend.Transport

open Framing

def protocolVersion : Nat := 1

def maxMetadataBytes : Nat := 4 * 1024

def maxReliablePayloadBytes : Nat := 1024 * 1024

def maxDatagramPayloadBytes : Nat := 1024

def maxMessageIdBytes : Nat := 128

def streamMagic : Bytes := [0x51, 0x50, 0x33, 0x46]

def datagramMagic : Bytes := [0x51, 0x50, 0x33, 0x44]

def headerSize : Nat := 12

inductive WireError where
  | framingError (message : String)
  | structError
  deriving DecidableEq, Repr

structure Frame where
  frameType : Nat
  metadata : Bytes := []
  payload : Bytes := []
  deriving DecidableEq, Repr

/-! ### Python: streams -/

def packHeader (frameType metadataLength payloadLength : Nat) : Bytes :=
  streamMagic ++ (BigEndian.encode 1 protocolVersion ++ (BigEndian.encode 1 frameType ++
    (BigEndian.encode 2 metadataLength ++ BigEndian.encode 4 payloadLength)))

def Frame.header (frame : Frame) : Bytes :=
  packHeader frame.frameType frame.metadata.length frame.payload.length

def encodeFrame (frame : Frame) : Except WireError Bytes :=
  if maxMetadataBytes < frame.metadata.length ∨ maxReliablePayloadBytes < frame.payload.length then
    .error (.framingError "inner frame exceeds limit")
  else if 256 ≤ frame.frameType then .error .structError
  else .ok (frame.header ++ (frame.metadata ++ frame.payload))

structure Header where
  magic : Bytes
  version : Nat
  frameType : Nat
  metadataLength : Nat
  payloadLength : Nat
  deriving DecidableEq, Repr

/-- `_HEADER.unpack_from`. -/
def unpackHeader (bytes : Bytes) : Header where
  magic := bytes.take 4
  version := BigEndian.field 4 1 bytes
  frameType := BigEndian.field 5 1 bytes
  metadataLength := BigEndian.field 6 2 bytes
  payloadLength := BigEndian.field 8 4 bytes

/-- The checks of `feed` on a header. What is returned is the size of what follows it. -/
def checkHeader (maxPayloadBytes : Nat) (bytes : Bytes) : Except WireError Nat :=
  let header := unpackHeader bytes
  if header.magic ≠ streamMagic ∨ header.version ≠ protocolVersion then
    .error (.framingError "unsupported inner stream protocol")
  else if maxMetadataBytes < header.metadataLength ∨ maxPayloadBytes < header.payloadLength then
    .error (.framingError "inner frame exceeds limit")
  else .ok (header.metadataLength + header.payloadLength)

structure FrameParser where
  maxPayloadBytes : Nat := maxReliablePayloadBytes
  buffer : Bytes := []
  deriving DecidableEq, Repr

/-- Takes from `incoming` what the buffer lacks of `size`, as far as it is there. -/
def fill (size : Nat) (buffer incoming : Bytes) : Bytes × Bytes :=
  let take := min (size - buffer.length) incoming.length
  (buffer ++ incoming.take take, incoming.drop take)

def sliceFrame (buffer : Bytes) : Frame :=
  let header := unpackHeader (buffer.take headerSize)
  let payloadStart := headerSize + header.metadataLength
  let total := payloadStart + header.payloadLength
  ⟨header.frameType, (buffer.take payloadStart).drop headerSize, (buffer.take total).drop payloadStart⟩

/-- The loop of `feed`, with what is left of the chunk. Returns the frames and the buffer. -/
def feedLoop (maxPayloadBytes : Nat) : Nat → Bytes → Bytes → Except WireError (List Frame) × Bytes
  | 0, buffer, _ => (.ok [], buffer)
  | fuel + 1, buffer, incoming =>
    if incoming = [] then (.ok [], buffer)
    else
      let (buffer, incoming) := fill headerSize buffer incoming
      if buffer.length < headerSize then (.ok [], buffer)
      else
        match checkHeader maxPayloadBytes (buffer.take headerSize) with
        | .error error => (.error error, buffer)
        | .ok bodySize =>
          let total := headerSize + bodySize
          let (buffer, incoming) := fill total buffer incoming
          if buffer.length < total then (.ok [], buffer)
          else
            let later := feedLoop maxPayloadBytes fuel (buffer.drop total) incoming
            (later.1.map (sliceFrame buffer :: ·), later.2)

/-- Every round but the last takes a header at least, so the loop ends within these rounds. -/
def FrameParser.feed (parser : FrameParser) (data : Bytes) :
    Except WireError (List Frame) × FrameParser :=
  let result := feedLoop parser.maxPayloadBytes (parser.buffer.length + data.length + 1) parser.buffer
    data
  (result.1, { parser with buffer := result.2 })

/-- Feeds chunks until an error is raised: the frames returned until then, and how it ends. -/
def FrameParser.feedAll : FrameParser → List Bytes → List Frame × Except WireError FrameParser
  | parser, [] => ([], .ok parser)
  | parser, chunk :: chunks =>
    match parser.feed chunk with
    | (.error error, _) => ([], .error error)
    | (.ok frames, parser) =>
      let later := parser.feedAll chunks
      (frames ++ later.1, later.2)

/-! ### Go: streams -/

namespace Go

def maxPayload : Nat := 1024 * 1024

inductive ReadError where
  | eof
  | invalidFrame
  deriving DecidableEq, Repr

/-- `io.ReadFull` on what a stream holds until it ends, with what is left. -/
def readFull (stream : Bytes) (size : Nat) : Except ReadError (Bytes × Bytes) :=
  if stream.length < size then .error .eof else .ok (stream.take size, stream.drop size)

/-- The kind of a frame, the sizes of its metadata and payload, and what is left. -/
def readHeader (stream : Bytes) : Except ReadError (Nat × Nat × Nat × Bytes) := do
  let (h, stream) ← readFull stream 12
  let m := BigEndian.field 6 2 h
  let n := BigEndian.field 8 4 h
  if h.take 4 ≠ streamMagic ∨ BigEndian.field 4 1 h ≠ 1 ∨ 4096 < m ∨ maxPayload < n then
    .error .invalidFrame
  else .ok (BigEndian.field 5 1 h, m, n, stream)

/-- `readHeader`, and the metadata and payload that it announces. -/
def readFrame (stream : Bytes) : Except ReadError (Frame × Bytes) := do
  let (kind, m, n, stream) ← readHeader stream
  let (metadata, stream) ← readFull stream m
  let (payload, stream) ← readFull stream n
  .ok (⟨kind, metadata, payload⟩, stream)

/-- The frames of a stream, and why there is no further one. -/
def readFrames : Nat → Bytes → List Frame × ReadError
  | 0, _ => ([], .eof)
  | fuel + 1, stream =>
    match readFrame stream with
    | .error error => ([], error)
    | .ok (frame, stream) =>
      let later := readFrames fuel stream
      (frame :: later.1, later.2)

def read (stream : Bytes) : List Frame × ReadError := readFrames (stream.length + 1) stream

end Go

/-! ### Datagrams -/

def utf8 (text : String) : Bytes := text.toUTF8.data.toList

def decodeDatagram (data : Bytes) : Except WireError (String × Bytes) :=
  if data.length < 7 ∨ data.take 4 ≠ datagramMagic ∨ BigEndian.field 4 1 data ≠ protocolVersion then
    .error (.framingError "invalid inner datagram")
  else
    let messageIdLength := BigEndian.field 5 2 data
    let payloadOffset := 7 + messageIdLength
    if ¬(1 ≤ messageIdLength ∧ messageIdLength ≤ maxMessageIdBytes) ∨ data.length < payloadOffset ∨
        maxDatagramPayloadBytes < data.length - payloadOffset then
      .error (.framingError "invalid inner datagram lengths")
    else
      match String.fromUTF8? ⟨((data.take payloadOffset).drop 7).toArray⟩ with
      | none => .error (.framingError "invalid datagram message ID")
      | some messageId => .ok (messageId, data.drop payloadOffset)

def encodeDatagram (messageId : String) (payload : Bytes) : Except WireError Bytes :=
  let encodedId := utf8 messageId
  if ¬(1 ≤ encodedId.length ∧ encodedId.length ≤ maxMessageIdBytes) ∨
      maxDatagramPayloadBytes < payload.length then
    .error (.framingError "invalid inner datagram")
  else .ok (datagramMagic ++ (BigEndian.encode 1 protocolVersion ++
    (BigEndian.encode 2 encodedId.length ++ (encodedId ++ payload))))

namespace Go

/-- The message id and the payload that `datagrams` hands on, unless it goes on to the next datagram. -/
def datagram (data : Bytes) : Option (Bytes × Bytes) :=
  if data.length < 7 ∨ data.take 4 ≠ datagramMagic ∨ BigEndian.field 4 1 data ≠ 1 then none
  else
    let n := BigEndian.field 5 2 data
    if n < 1 ∨ 128 < n ∨ data.length < 7 + n ∨ 1024 < data.length - 7 - n ∨
        ¬(ByteArray.mk ((data.take (7 + n)).drop 7).toArray).validateUTF8 then none
    else some ((data.take (7 + n)).drop 7, data.drop (7 + n))

end Go

/-! ### The grammar of a stream -/

def buildFrame (header body : Bytes) : Frame :=
  let fields := unpackHeader header
  ⟨fields.frameType, body.take fields.metadataLength, body.drop fields.metadataLength⟩

def grammar (maxPayloadBytes : Nat) : Grammar UInt8 Frame WireError :=
  .headed headerSize (checkHeader maxPayloadBytes) (fun header body => .ok (buildFrame header body))
    (by decide)

section Front

variable {maxPayloadBytes bodySize : Nat} {stream : Bytes} {error : WireError}

theorem grammar_front (maxPayloadBytes : Nat) (stream : Bytes) :
    (grammar maxPayloadBytes).front stream = Grammar.headedFront headerSize
      (checkHeader maxPayloadBytes) (fun header body => .ok (buildFrame header body)) stream := rfl

theorem front_of_lt (h : stream.length < headerSize) :
    (grammar maxPayloadBytes).front stream = .more := by
  rw [grammar_front]
  exact Grammar.headedFront_of_lt h

theorem front_of_error (h : headerSize ≤ stream.length)
    (hcheck : checkHeader maxPayloadBytes (stream.take headerSize) = .error error) :
    (grammar maxPayloadBytes).front stream = .reject error := by
  rw [grammar_front]
  exact Grammar.headedFront_of_error h hcheck

theorem front_of_ok (h : headerSize ≤ stream.length)
    (hcheck : checkHeader maxPayloadBytes (stream.take headerSize) = .ok bodySize) :
    (grammar maxPayloadBytes).front stream =
      if stream.length < headerSize + bodySize then .more
      else .frame (buildFrame (stream.take headerSize) ((stream.drop headerSize).take bodySize))
        (headerSize + bodySize) := by
  rw [grammar_front]
  exact Grammar.headedFront_of_ok h hcheck rfl

theorem checkHeader_ok {bytes : Bytes} (h : checkHeader maxPayloadBytes bytes = .ok bodySize) :
    (unpackHeader bytes).metadataLength + (unpackHeader bytes).payloadLength = bodySize := by
  dsimp only [checkHeader] at h
  split_ifs at h
  exact Except.ok.inj h

end Front

/-! ### A chunk is parsed after what is kept -/

section Feed

variable {maxPayloadBytes size bodySize fuel : Nat} {buffer incoming : Bytes} {error : WireError}

theorem fill_of_le (h : buffer.length ≤ size) :
    fill size buffer incoming = ((buffer ++ incoming).take size, (buffer ++ incoming).drop size) := by
  have htake : incoming.take (min (size - buffer.length) incoming.length) =
      incoming.take (size - buffer.length) := by
    rw [List.take_eq_take_iff]
    omega
  have hdrop : incoming.drop (min (size - buffer.length) incoming.length) =
      incoming.drop (size - buffer.length) := by
    rw [List.drop_eq_drop_iff]
    omega
  rw [fill, htake, hdrop, List.take_append, List.drop_append, List.take_of_length_le h,
    List.drop_of_length_le h, List.nil_append]

theorem fill_of_ge (h : size ≤ buffer.length) : fill size buffer incoming = (buffer, incoming) := by
  rw [fill, Nat.sub_eq_zero_of_le h, Nat.zero_min, List.take_zero, List.append_nil, List.drop_zero]

theorem sliceFrame_take {stream : Bytes} (h : headerSize + bodySize ≤ stream.length)
    (hcheck : checkHeader maxPayloadBytes (stream.take headerSize) = .ok bodySize) :
    sliceFrame (stream.take (headerSize + bodySize)) =
      buildFrame (stream.take headerSize) ((stream.drop headerSize).take bodySize) := by
  have hsizes := checkHeader_ok hcheck
  have hheader : (stream.take (headerSize + bodySize)).take headerSize = stream.take headerSize := by
    rw [List.take_take, Nat.min_eq_left (Nat.le_add_right ..)]
  simp only [sliceFrame, buildFrame, hheader, Frame.mk.injEq, true_and]
  generalize (unpackHeader (stream.take headerSize)).metadataLength = metadataLength at hsizes ⊢
  generalize (unpackHeader (stream.take headerSize)).payloadLength = payloadLength at hsizes ⊢
  subst hsizes
  constructor
  · rw [List.take_take, List.drop_take, List.take_take]
    congr 1
    omega
  · rw [List.take_take, List.drop_take, List.drop_take, List.drop_drop]
    congr 1
    omega

theorem fill_header (hbuffer : (grammar maxPayloadBytes).front buffer = .more)
    (hlong : headerSize ≤ (buffer ++ incoming).length) :
    ∃ front rest, fill headerSize buffer incoming = (front, rest) ∧ front ++ rest = buffer ++ incoming ∧
      headerSize ≤ front.length ∧ ∀ bodySize,
        checkHeader maxPayloadBytes ((buffer ++ incoming).take headerSize) = .ok bodySize →
          front.length ≤ headerSize + bodySize := by
  by_cases hshort : buffer.length ≤ headerSize
  · refine ⟨_, _, fill_of_le hshort, List.take_append_drop .., ?_, fun bodySize _ => ?_⟩
    · rw [List.length_take, Nat.min_eq_left hlong]
    · rw [List.length_take]
      omega
  · have hheader : headerSize ≤ buffer.length := by omega
    refine ⟨_, _, fill_of_ge hheader, rfl, hheader, fun bodySize hcheck => ?_⟩
    rw [List.take_append_of_le_length hheader] at hcheck
    rw [front_of_ok hheader hcheck] at hbuffer
    split_ifs at hbuffer with hlt
    exact hlt.le

/-- What `feed` returns for a reading: an error takes the frames before it along. -/
def returned (reading : Reading UInt8 Frame WireError) : Except WireError (List Frame) :=
  match reading.error with
  | none => .ok reading.frames
  | some error => .error error

theorem returned_after (frame : Frame) (reading : Reading UInt8 Frame WireError) :
    returned (reading.after [frame]) = (returned reading).map (frame :: ·) := by
  obtain ⟨frames, error, rest⟩ := reading
  cases error <;> rfl

/-- The loop follows the grammar: what it has read of the chunk is the front of the stream. -/
theorem feedLoop_eq (hfuel : (buffer ++ incoming).length < fuel)
    (hbuffer : (grammar maxPayloadBytes).front buffer = .more) :
    (feedLoop maxPayloadBytes fuel buffer incoming).1 =
        returned ((grammar maxPayloadBytes).parse (buffer ++ incoming)) ∧
      (((grammar maxPayloadBytes).parse (buffer ++ incoming)).error = none →
        (feedLoop maxPayloadBytes fuel buffer incoming).2 =
          ((grammar maxPayloadBytes).parse (buffer ++ incoming)).rest) := by
  induction fuel generalizing buffer incoming with
  | zero => exact absurd hfuel (Nat.not_lt_zero _)
  | succ fuel ih =>
    by_cases hempty : incoming = []
    · rw [feedLoop, if_pos hempty, hempty, List.append_nil, Grammar.parse_more _ hbuffer]
      exact ⟨rfl, fun _ => rfl⟩
    rw [feedLoop, if_neg hempty]
    by_cases hshort : (buffer ++ incoming).length < headerSize
    · have hfill : fill headerSize buffer incoming = (buffer ++ incoming, []) := by
        rw [fill_of_le (by rw [List.length_append] at hshort; omega),
          List.take_of_length_le hshort.le, List.drop_of_length_le hshort.le]
      rw [hfill]
      dsimp only
      rw [if_pos hshort, Grammar.parse_more _ (front_of_lt hshort)]
      exact ⟨rfl, fun _ => rfl⟩
    obtain ⟨front, rest, hfill, hstream, hfront, hbody⟩ :=
      fill_header hbuffer (not_lt.mp hshort)
    have hheader : front.take headerSize = (buffer ++ incoming).take headerSize := by
      rw [← hstream, List.take_append_of_le_length hfront]
    rw [hfill]
    dsimp only
    rw [if_neg (not_lt.mpr hfront), hheader]
    cases hcheck : checkHeader maxPayloadBytes ((buffer ++ incoming).take headerSize) with
    | error error =>
      rw [Grammar.parse_reject _ (front_of_error (not_lt.mp hshort) hcheck)]
      exact ⟨rfl, nofun⟩
    | ok bodySize =>
      have hnext := front_of_ok (not_lt.mp hshort) hcheck
      dsimp only
      rw [fill_of_le (hbody bodySize hcheck), hstream]
      dsimp only
      by_cases hpart : (buffer ++ incoming).length < headerSize + bodySize
      · rw [if_pos hpart] at hnext
        rw [List.take_of_length_le hpart.le, if_pos hpart, Grammar.parse_more _ hnext]
        exact ⟨rfl, fun _ => rfl⟩
      · rw [if_neg hpart] at hnext
        have hwhole := not_lt.mp hpart
        have hlength : ((buffer ++ incoming).take (headerSize + bodySize)).length =
            headerSize + bodySize := by
          rw [List.length_take, Nat.min_eq_left hwhole]
        have hdrop : ((buffer ++ incoming).take (headerSize + bodySize)).drop
            (headerSize + bodySize) = [] := List.drop_of_length_le hlength.le
        rw [if_neg (not_lt.mpr hlength.ge), hdrop, sliceFrame_take hwhole hcheck,
          Grammar.parse_frame _ hnext, returned_after]
        have hsmaller : ([] ++ (buffer ++ incoming).drop (headerSize + bodySize)).length <
            fuel := by
          have hpos : 0 < headerSize := by decide
          rw [List.nil_append, List.length_drop]
          omega
        obtain ⟨hresult, hrest⟩ := ih hsmaller (Grammar.front_nil _)
        exact ⟨congrArg (Except.map _) hresult, hrest⟩

theorem feed_eq {parser : FrameParser}
    (hbuffer : (grammar parser.maxPayloadBytes).front parser.buffer = .more) (data : Bytes) :
    (parser.feed data).1 = returned ((grammar parser.maxPayloadBytes).parse (parser.buffer ++ data)) ∧
      (((grammar parser.maxPayloadBytes).parse (parser.buffer ++ data)).error = none →
        (parser.feed data).2 = { parser with
          buffer := ((grammar parser.maxPayloadBytes).parse (parser.buffer ++ data)).rest }) := by
  have hfuel : (parser.buffer ++ data).length < parser.buffer.length + data.length + 1 := by
    rw [List.length_append]
    exact Nat.lt_succ_self _
  obtain ⟨hresult, hrest⟩ := feedLoop_eq hfuel hbuffer
  exact ⟨hresult, fun herror => by rw [FrameParser.feed, hrest herror]⟩

/-- How feeding chunks ends. -/
def ending (parser : FrameParser) (reading : Reading UInt8 Frame WireError) :
    Except WireError FrameParser :=
  match reading.error with
  | none => .ok { parser with buffer := reading.rest }
  | some error => .error error

theorem feedAll_eq (parser : FrameParser) (chunks : List Bytes)
    (hbuffer : (grammar parser.maxPayloadBytes).front parser.buffer = .more) :
    parser.feedAll chunks = (((grammar parser.maxPayloadBytes).deliver parser.buffer chunks).frames,
      ending parser ((grammar parser.maxPayloadBytes).deliver parser.buffer chunks)) := by
  induction chunks generalizing parser with
  | nil => rfl
  | cons chunk chunks ih =>
    obtain ⟨hresult, hrest⟩ := feed_eq hbuffer chunk
    rw [FrameParser.feedAll, Grammar.deliver]
    cases herror : ((grammar parser.maxPayloadBytes).parse (parser.buffer ++ chunk)).error with
    | some error =>
      have hraise : parser.feed chunk = (.error error, (parser.feed chunk).2) :=
        Prod.ext (hresult.trans (by rw [returned, herror])) rfl
      rw [hraise]
      rfl
    | none =>
      have hfeed : parser.feed chunk =
          (.ok ((grammar parser.maxPayloadBytes).parse (parser.buffer ++ chunk)).frames,
            { parser with
              buffer := ((grammar parser.maxPayloadBytes).parse (parser.buffer ++ chunk)).rest }) :=
        Prod.ext (hresult.trans (by rw [returned, herror])) (hrest herror)
      have hlater := ih { parser with
        buffer := ((grammar parser.maxPayloadBytes).parse (parser.buffer ++ chunk)).rest }
        (Grammar.front_rest _ herror)
      rw [hfeed]
      dsimp only at hlater ⊢
      rw [hlater]
      rfl

end Feed

/-! ### Go reads by the same grammar -/

namespace Go

variable {stream : Bytes} {size bodySize : Nat} {frame : Frame} {error : WireError}

theorem readFull_of_lt (h : stream.length < size) : readFull stream size = .error .eof := if_pos h

theorem readFull_of_le (h : size ≤ stream.length) :
    readFull stream size = .ok (stream.take size, stream.drop size) := if_neg (not_lt.mpr h)

theorem readHeader_of_lt (h : stream.length < headerSize) : readHeader stream = .error .eof := by
  have hsize : readFull stream 12 = .error .eof := readFull_of_lt h
  rw [readHeader, hsize]
  rfl

theorem readHeader_of_le (h : headerSize ≤ stream.length) :
    readHeader stream =
      if (unpackHeader (stream.take headerSize)).magic ≠ streamMagic ∨
          (unpackHeader (stream.take headerSize)).version ≠ protocolVersion ∨
          maxMetadataBytes < (unpackHeader (stream.take headerSize)).metadataLength ∨
          maxReliablePayloadBytes < (unpackHeader (stream.take headerSize)).payloadLength then
        .error .invalidFrame
      else .ok ((unpackHeader (stream.take headerSize)).frameType,
        (unpackHeader (stream.take headerSize)).metadataLength,
        (unpackHeader (stream.take headerSize)).payloadLength, stream.drop headerSize) := by
  have hsize : readFull stream 12 = .ok (stream.take headerSize, stream.drop headerSize) :=
    readFull_of_le h
  rw [readHeader, hsize]
  rfl

theorem readHeader_of_error (h : headerSize ≤ stream.length)
    (hcheck : checkHeader maxReliablePayloadBytes (stream.take headerSize) = .error error) :
    readHeader stream = .error .invalidFrame := by
  rw [readHeader_of_le h]
  dsimp only [checkHeader] at hcheck
  split_ifs at hcheck with hmagic hlimit
  · rw [if_pos]
    exact hmagic.imp_right .inl
  · rw [if_pos]
    exact .inr (.inr hlimit)

theorem readHeader_of_ok (h : headerSize ≤ stream.length)
    (hcheck : checkHeader maxReliablePayloadBytes (stream.take headerSize) = .ok bodySize) :
    readHeader stream = .ok ((unpackHeader (stream.take headerSize)).frameType,
      (unpackHeader (stream.take headerSize)).metadataLength,
      (unpackHeader (stream.take headerSize)).payloadLength, stream.drop headerSize) := by
  rw [readHeader_of_le h]
  dsimp only [checkHeader] at hcheck
  split_ifs at hcheck with hmagic hlimit
  rw [if_neg]
  rintro (hbad | hbad | hbad)
  · exact hmagic (.inl hbad)
  · exact hmagic (.inr hbad)
  · exact hlimit hbad

theorem readFrame_eq (stream : Bytes) : readFrame stream =
    match (grammar maxReliablePayloadBytes).front stream with
    | .more => .error .eof
    | .reject _ => .error .invalidFrame
    | .frame frame size => .ok (frame, stream.drop size) := by
  by_cases hshort : stream.length < headerSize
  · rw [front_of_lt hshort, readFrame, readHeader_of_lt hshort]
    rfl
  have hheader := not_lt.mp hshort
  cases hcheck : checkHeader maxReliablePayloadBytes (stream.take headerSize) with
  | error error =>
    rw [front_of_error hheader hcheck, readFrame, readHeader_of_error hheader hcheck]
    rfl
  | ok bodySize =>
    have hsizes := checkHeader_ok hcheck
    rw [front_of_ok hheader hcheck, readFrame, readHeader_of_ok hheader hcheck, buildFrame]
    dsimp only [bind, Except.bind]
    generalize (unpackHeader (stream.take headerSize)).metadataLength = metadataLength at hsizes ⊢
    generalize (unpackHeader (stream.take headerSize)).payloadLength = payloadLength at hsizes ⊢
    subst hsizes
    have hlength : (stream.drop headerSize).length = stream.length - headerSize := List.length_drop
    by_cases hmetadata : (stream.drop headerSize).length < metadataLength
    · rw [readFull_of_lt hmetadata, if_pos (by omega)]
    rw [readFull_of_le (not_lt.mp hmetadata)]
    dsimp only
    have hlength' : ((stream.drop headerSize).drop metadataLength).length =
        stream.length - headerSize - metadataLength := by
      rw [List.length_drop, hlength]
    by_cases hpayload : ((stream.drop headerSize).drop metadataLength).length < payloadLength
    · rw [readFull_of_lt hpayload, if_pos (by omega)]
    rw [readFull_of_le (not_lt.mp hpayload), if_neg (by omega)]
    dsimp only
    rw [List.take_take, Nat.min_eq_left (Nat.le_add_right ..), List.drop_take, Nat.add_sub_cancel_left,
      List.drop_drop, List.drop_drop, Nat.add_assoc]

/-- The frames that Go reads are those of the grammar, and it rejects a header where the grammar has
an error. -/
theorem readFrames_eq {fuel : Nat} (hfuel : stream.length < fuel) :
    (readFrames fuel stream).1 = ((grammar maxReliablePayloadBytes).parse stream).frames ∧
      ((readFrames fuel stream).2 = .invalidFrame ↔
        ((grammar maxReliablePayloadBytes).parse stream).error ≠ none) := by
  induction fuel generalizing stream with
  | zero => exact absurd hfuel (Nat.not_lt_zero _)
  | succ fuel ih =>
    rw [readFrames, readFrame_eq]
    cases hfront : (grammar maxReliablePayloadBytes).front stream with
    | more =>
      rw [Grammar.parse_more _ hfront]
      exact ⟨rfl, iff_of_false nofun fun h => h rfl⟩
    | reject error =>
      rw [Grammar.parse_reject _ hfront]
      exact ⟨rfl, iff_of_true rfl nofun⟩
    | frame frame size =>
      obtain ⟨hpos, hle, -⟩ := (grammar maxReliablePayloadBytes).frame_local hfront
      have hsmaller : (stream.drop size).length < fuel := by
        rw [List.length_drop]
        omega
      obtain ⟨hframes, herror⟩ := ih hsmaller
      rw [Grammar.parse_frame _ hfront]
      exact ⟨congrArg (frame :: ·) hframes, herror⟩

end Go

/-! ### Frames are read as they are written -/

/-- The limits of `encode_frame`, the byte of the type included. -/
structure Frame.WithinLimits (frame : Frame) : Prop where
  frameType : frame.frameType < 256
  metadata : frame.metadata.length ≤ maxMetadataBytes
  payload : frame.payload.length ≤ maxReliablePayloadBytes

def Frame.bytes (frame : Frame) : Bytes := frame.header ++ (frame.metadata ++ frame.payload)

section Encoding

variable {frame : Frame} {frames : List Frame}

theorem Frame.WithinLimits.encodeFrame (h : frame.WithinLimits) :
    encodeFrame frame = .ok frame.bytes := by
  rw [Transport.encodeFrame, if_neg, if_neg (not_le.mpr h.frameType)]
  · rfl
  · exact not_or.mpr ⟨not_lt.mpr h.metadata, not_lt.mpr h.payload⟩

theorem Frame.length_header (frame : Frame) : frame.header.length = headerSize := by
  simp [Frame.header, packHeader, streamMagic, headerSize]

theorem unpackHeader_packHeader {frameType metadataLength payloadLength : Nat}
    (htype : frameType < 256) (hmetadata : metadataLength < 2 ^ 16) (hpayload : payloadLength < 2 ^ 32) :
    unpackHeader (packHeader frameType metadataLength payloadLength) =
      ⟨streamMagic, protocolVersion, frameType, metadataLength, payloadLength⟩ := by
  have hmetadata' : metadataLength < 256 ^ 2 := hmetadata
  have hpayload' : payloadLength < 256 ^ 4 := hpayload
  have hmagic : ∀ offset width bytes, BigEndian.field (4 + offset) width (streamMagic ++ bytes) =
      BigEndian.field offset width bytes := BigEndian.field_append rfl
  simp only [unpackHeader, packHeader, Header.mk.injEq]
  refine ⟨rfl, ?_, ?_, ?_, ?_⟩
  · exact (hmagic 0 1 _).trans (BigEndian.field_encode (by decide) _)
  · exact (hmagic 1 1 _).trans ((BigEndian.field_skip 1 _ 0 1 _).trans
      (BigEndian.field_encode htype _))
  · exact (hmagic 2 2 _).trans ((BigEndian.field_skip 1 _ 1 2 _).trans
      ((BigEndian.field_skip 1 _ 0 2 _).trans (BigEndian.field_encode hmetadata' _)))
  · have hlast := BigEndian.field_encode hpayload' []
    rw [List.append_nil] at hlast
    exact (hmagic 4 4 _).trans ((BigEndian.field_skip 1 _ 3 4 _).trans
      ((BigEndian.field_skip 1 _ 2 4 _).trans ((BigEndian.field_skip 2 _ 0 4 _).trans hlast)))

theorem front_bytes (h : frame.WithinLimits) (rest : Bytes) :
    (grammar maxReliablePayloadBytes).front (frame.bytes ++ rest) =
      .frame frame frame.bytes.length := by
  have hmetadata := h.metadata
  have hpayload := h.payload
  have hlimits : maxMetadataBytes = 4096 ∧ maxReliablePayloadBytes = 1048576 := ⟨rfl, rfl⟩
  have hheader : unpackHeader frame.header =
      ⟨streamMagic, protocolVersion, frame.frameType, frame.metadata.length, frame.payload.length⟩ :=
    unpackHeader_packHeader h.frameType (by omega) (by omega)
  have hcheck : checkHeader maxReliablePayloadBytes frame.header =
      .ok (frame.metadata ++ frame.payload).length := by
    dsimp only [checkHeader]
    rw [hheader, if_neg (by simp), if_neg (by simp only; omega), List.length_append]
  have hbuild : buildFrame frame.header (frame.metadata ++ frame.payload) = frame := by
    rw [buildFrame, hheader]
    dsimp only
    rw [List.take_left, List.drop_left]
  rw [grammar_front, Frame.bytes, List.length_append, frame.length_header]
  exact Grammar.headedFront_frame frame.length_header rfl hcheck (congrArg Except.ok hbuild) rest

theorem mapM_encodeFrame (h : ∀ frame ∈ frames, frame.WithinLimits) :
    frames.mapM encodeFrame = .ok (frames.map (·.bytes)) := by
  induction frames with
  | nil => rfl
  | cons frame frames ih =>
    have hlater := ih fun other hmem => h other (.tail _ hmem)
    rw [List.mapM_cons, (h frame (.head _)).encodeFrame, hlater]
    rfl

end Encoding

/-- The buffer holds less than a complete frame. -/
def FrameParser.Incomplete (parser : FrameParser) : Prop :=
  parser.buffer.length < headerSize ∨ parser.buffer.length < headerSize +
    (unpackHeader (parser.buffer.take headerSize)).metadataLength +
    (unpackHeader (parser.buffer.take headerSize)).payloadLength

section Agreement

variable {parser : FrameParser} {frames : List Frame} {chunks : List Bytes}

theorem incomplete_of_more
    (h : (grammar parser.maxPayloadBytes).front parser.buffer = .more) : parser.Incomplete := by
  by_cases hshort : parser.buffer.length < headerSize
  · exact .inl hshort
  right
  have hheader := not_lt.mp hshort
  cases hcheck : checkHeader parser.maxPayloadBytes (parser.buffer.take headerSize) with
  | error error =>
    rw [front_of_error hheader hcheck] at h
    cases h
  | ok bodySize =>
    rw [front_of_ok hheader hcheck] at h
    split_ifs at h with hpart
    rwa [Nat.add_assoc, checkHeader_ok hcheck]

/-- A new parser raises an error in the same streams as the grammar, however they are divided. -/
theorem feedAll_raises_iff (chunks : List Bytes) :
    (∃ error, (({} : FrameParser).feedAll chunks).2 = .error error) ↔
      ((grammar maxReliablePayloadBytes).parse chunks.flatten).error ≠ none := by
  have hdeliver := Grammar.deliver_error (grammar maxReliablePayloadBytes) [] chunks
    (Grammar.front_nil _)
  rw [List.nil_append] at hdeliver
  rw [feedAll_eq _ _ (Grammar.front_nil _), ← hdeliver]
  dsimp only [ending]
  cases ((grammar maxReliablePayloadBytes).deliver [] chunks).error with
  | none => exact iff_of_false nofun fun h => h rfl
  | some error => exact iff_of_true ⟨error, rfl⟩ nofun

/-- Without an error in the stream, the parser returns its frames and keeps less than a frame. -/
theorem feedAll_of_parse (h : ((grammar maxReliablePayloadBytes).parse chunks.flatten).error = none) :
    ∃ parser, ({} : FrameParser).feedAll chunks =
        (((grammar maxReliablePayloadBytes).parse chunks.flatten).frames, .ok parser) ∧
      parser.buffer = ((grammar maxReliablePayloadBytes).parse chunks.flatten).rest ∧
      parser.maxPayloadBytes = maxReliablePayloadBytes ∧ parser.Incomplete := by
  have hdeliver := Grammar.deliver_eq_parse (grammar maxReliablePayloadBytes) [] chunks
    (Grammar.front_nil _) h
  rw [List.nil_append] at hdeliver
  refine ⟨{ buffer := ((grammar maxReliablePayloadBytes).parse chunks.flatten).rest }, ?_, rfl, rfl,
    incomplete_of_more (Grammar.front_rest _ h)⟩
  rw [feedAll_eq _ _ (Grammar.front_nil _), hdeliver, ending, h]

theorem parse_encoded (h : ∀ frame ∈ frames, frame.WithinLimits) :
    (grammar maxReliablePayloadBytes).parse (frames.map (·.bytes)).flatten = ⟨frames, none, []⟩ := by
  rw [← List.flatMap_def]
  exact Grammar.parse_flatMap _ fun frame hmem => front_bytes (h frame hmem)

end Agreement

/-! ### Datagrams are decoded alike -/

section Datagrams

variable {data payload : Bytes} {messageId : String}

theorem fromUTF8_of_invalid {bytes : Bytes} (h : ¬(ByteArray.mk bytes.toArray).validateUTF8) :
    String.fromUTF8? ⟨bytes.toArray⟩ = none := by
  rw [ByteArray.validateUTF8_eq_true_iff] at h
  exact dif_neg h

theorem fromUTF8_of_valid {bytes : Bytes} (h : (ByteArray.mk bytes.toArray).validateUTF8) :
    ∃ text, String.fromUTF8? ⟨bytes.toArray⟩ = some text ∧ utf8 text = bytes := by
  rw [ByteArray.validateUTF8_eq_true_iff] at h
  exact ⟨String.fromUTF8 ⟨bytes.toArray⟩ h, dif_pos h, rfl⟩

theorem fromUTF8_utf8 (text : String) : String.fromUTF8? ⟨(utf8 text).toArray⟩ = some text := by
  have hvalid : (ByteArray.mk (utf8 text).toArray).IsValidUTF8 := text.isValidUTF8
  exact dif_pos hvalid

theorem decodeDatagram_eq (data : Bytes) :
    (decodeDatagram data).toOption.map (fun result => (utf8 result.1, result.2)) =
      Go.datagram data := by
  rw [decodeDatagram, Go.datagram]
  by_cases hfront : data.length < 7 ∨ data.take 4 ≠ datagramMagic ∨
      BigEndian.field 4 1 data ≠ protocolVersion
  · rw [if_pos hfront, if_pos (show _ ∨ _ ∨ _ ≠ 1 from hfront)]
    rfl
  rw [if_neg hfront, if_neg (show ¬(_ ∨ _ ∨ _ ≠ 1) from hfront)]
  dsimp only
  generalize BigEndian.field 5 2 data = n
  have hlimits : maxMessageIdBytes = 128 ∧ maxDatagramPayloadBytes = 1024 := ⟨rfl, rfl⟩
  by_cases hlengths : ¬(1 ≤ n ∧ n ≤ maxMessageIdBytes) ∨ data.length < 7 + n ∨
      maxDatagramPayloadBytes < data.length - (7 + n)
  · rw [if_pos hlengths, if_pos (by omega)]
    rfl
  rw [if_neg hlengths]
  by_cases hvalid : (ByteArray.mk ((data.take (7 + n)).drop 7).toArray).validateUTF8
  · obtain ⟨text, hdecode, hbytes⟩ := fromUTF8_of_valid hvalid
    rw [hdecode, if_neg (by simp only [hvalid, not_true_eq_false, or_false]; omega)]
    exact congrArg (fun bytes => some (bytes, data.drop (7 + n))) hbytes
  · rw [fromUTF8_of_invalid hvalid, if_pos]
    · rfl
    · exact .inr (.inr (.inr (.inr hvalid)))

theorem decodeDatagram_encodeDatagram (h : encodeDatagram messageId payload = .ok data) :
    decodeDatagram data = .ok (messageId, payload) := by
  dsimp only [encodeDatagram] at h
  split_ifs at h with hlimits
  have hlimits' : maxMessageIdBytes = 128 ∧ maxDatagramPayloadBytes = 1024 := ⟨rfl, rfl⟩
  have hmagic : ∀ offset width bytes, BigEndian.field (4 + offset) width (datagramMagic ++ bytes) =
      BigEndian.field offset width bytes := BigEndian.field_append rfl
  have hlength : data.length = 7 + (utf8 messageId).length + payload.length := by
    rw [← Except.ok.inj h]
    simp [datagramMagic]
    omega
  have hversion : BigEndian.field 4 1 data = protocolVersion := by
    rw [← Except.ok.inj h]
    exact (hmagic 0 1 _).trans (BigEndian.field_encode (by decide) _)
  have hidLength : BigEndian.field 5 2 data = (utf8 messageId).length := by
    rw [← Except.ok.inj h]
    refine (hmagic 1 2 _).trans ((BigEndian.field_skip 1 _ 0 2 _).trans (BigEndian.field_encode ?_ _))
    omega
  have hrest : data.drop 7 = utf8 messageId ++ payload := by
    rw [← Except.ok.inj h]
    rfl
  have hid : (data.take (7 + (utf8 messageId).length)).drop 7 = utf8 messageId := by
    rw [List.drop_take, hrest, Nat.add_sub_cancel_left, List.take_left]
  have hpayload : data.drop (7 + (utf8 messageId).length) = payload := by
    rw [← List.drop_drop, hrest, List.drop_left]
  have htake : data.take 4 = datagramMagic := by
    rw [← Except.ok.inj h]
    exact List.take_left' rfl
  dsimp only [decodeDatagram]
  rw [if_neg (by simp [htake, hversion]; omega), hidLength, if_neg (by omega), hid, fromUTF8_utf8, hpayload]

end Datagrams

/-- The wire format has one meaning: frames are read back from every division of their bytes, Python
and Go reject the same streams and read the same frames of them, and the same datagrams. -/
theorem wire_format_agrees :
    (∀ frames : List Frame, (∀ frame ∈ frames, frame.WithinLimits) →
      ∃ outputs, frames.mapM encodeFrame = .ok outputs ∧
        ∀ chunks : List Bytes, chunks.flatten = outputs.flatten →
          ({} : FrameParser).feedAll chunks = (frames, .ok {}) ∧
          ∀ before after, chunks = before ++ after →
            ∃ returned parser, ({} : FrameParser).feedAll before = (returned, .ok parser) ∧
              parser.Incomplete) ∧
    (∀ chunks : List Bytes, (∃ error, (({} : FrameParser).feedAll chunks).2 = .error error) ↔
      (Go.read chunks.flatten).2 = .invalidFrame) ∧
    (∀ stream : Bytes, (({} : FrameParser).feedAll (stream.map ([·]))).1 = (Go.read stream).1) ∧
    (∀ messageId payload data, encodeDatagram messageId payload = .ok data →
      decodeDatagram data = .ok (messageId, payload)) ∧
    (∀ data, (decodeDatagram data).toOption.map (fun result => (utf8 result.1, result.2)) =
      Go.datagram data) := by
  refine ⟨fun frames hframes => ⟨_, mapM_encodeFrame hframes, fun chunks hchunks => ?_⟩,
    fun chunks => ?_, fun stream => ?_, fun _ _ _ => decodeDatagram_encodeDatagram,
    decodeDatagram_eq⟩
  · have hparse := parse_encoded hframes
    rw [← hchunks] at hparse
    have hwhole : ((grammar maxReliablePayloadBytes).parse chunks.flatten).error = none := by
      rw [hparse]
    constructor
    · obtain ⟨⟨maxPayloadBytes, buffer⟩, hfeed, hbuffer, hmax, -⟩ := feedAll_of_parse hwhole
      rw [hparse] at hfeed hbuffer
      dsimp only at hbuffer hmax
      rw [hfeed, hbuffer, hmax]
    · intro before after hsplit
      rw [hsplit, List.flatten_append] at hwhole
      obtain ⟨parser, hfeed, -, -, hincomplete⟩ :=
        feedAll_of_parse (Grammar.error_none_of_append _ hwhole)
      exact ⟨_, parser, hfeed, hincomplete⟩
  · rw [feedAll_raises_iff, Go.read, (Go.readFrames_eq (Nat.lt_succ_self _)).2]
  · have hsingles := Grammar.deliver_singles (grammar maxReliablePayloadBytes) [] stream
      (Grammar.front_nil _)
    rw [List.nil_append] at hsingles
    rw [feedAll_eq _ _ (Grammar.front_nil _), Go.read, (Go.readFrames_eq (Nat.lt_succ_self _)).1]
    exact hsingles

end CallBackend.Transport
