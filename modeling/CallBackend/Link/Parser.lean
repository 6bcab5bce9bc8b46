import CallBackend.Link.Framing

/-!
# What the frame parser makes of a stream

A stream is read as frames that stand one after the other. Where a frame ends, the next header may be
one that `feed` refuses, or the frame may be an acknowledgement that carries something; otherwise what
is left is the beginning of a frame. The parser keeps less than a frame of maximal size, so chunks
that fit beside that never overflow its buffer, and it then raises on no other streams than these.
-/

namespace CallBackend.Link

open Framing

/-! ### The front of a stream -/

/-- A wrong version, an unknown type or a length above the limit. -/
def BadHeader (maxFrameSize : Nat) (stream : Bytes) : Prop :=
  (unpackHeader stream).version ≠ protocolVersion ∨
    FrameType.ofCode (unpackHeader stream).rawType = none ∨
      maxFrameSize < (unpackHeader stream).payloadLength

/-- The stream begins with a complete acknowledgement that has a payload. -/
def FullAck (stream : Bytes) : Prop :=
  FrameType.ofCode (unpackHeader stream).rawType = some .ack ∧
    0 < (unpackHeader stream).payloadLength ∧
      headerSize + (unpackHeader stream).payloadLength ≤ stream.length

/-- The stream begins with something that is no frame. -/
def Malformed (maxFrameSize : Nat) (stream : Bytes) : Prop :=
  headerSize ≤ stream.length ∧ (BadHeader maxFrameSize stream ∨ FullAck stream)

/-- The stream is the beginning of a frame, or empty. -/
def Incomplete (maxFrameSize : Nat) (stream : Bytes) : Prop :=
  stream.length < headerSize ∨
    ¬BadHeader maxFrameSize stream ∧ stream.length < headerSize + (unpackHeader stream).payloadLength

/-- A stream, read as consecutive frames up to a rest. -/
structure Consecutive (maxFrameSize : Nat) (stream : Bytes) (frames : List Frame) (rest : Bytes) :
    Prop where
  wellFormed : ∀ frame ∈ frames, frame.WellFormed maxFrameSize
  stream : stream = frames.flatMap (·.bytes) ++ rest

instance decidableBadHeader (maxFrameSize : Nat) (stream : Bytes) :
    Decidable (BadHeader maxFrameSize stream) := by
  unfold BadHeader
  infer_instance

section Front

variable {maxFrameSize size : Nat} {stream : Bytes} {frame : Frame} {error : Exn}

theorem unpackHeader_take (stream : Bytes) :
    unpackHeader (stream.take headerSize) = unpackHeader stream := by
  simp only [unpackHeader, Header.mk.injEq]
  refine ⟨?_, ?_, ?_, ?_⟩ <;> exact BigEndian.field_take (by decide) stream

theorem checkHeader_of_bad (h : BadHeader maxFrameSize stream) :
    ∃ error, checkHeader maxFrameSize (stream.take headerSize) = .error error := by
  rw [checkHeader, unpackHeader_take]
  split_ifs with hversion htype hlength
  · exact ⟨_, rfl⟩
  · exact ⟨_, rfl⟩
  · exact ⟨_, rfl⟩
  · rcases h with h | h | h
    · exact absurd h hversion
    · exact absurd h htype
    · exact absurd h hlength

theorem checkHeader_of_good (h : ¬BadHeader maxFrameSize stream) :
    checkHeader maxFrameSize (stream.take headerSize) = .ok (unpackHeader stream).payloadLength := by
  rw [checkHeader, unpackHeader_take]
  rw [if_neg fun hversion => h (.inl hversion), if_neg fun htype => h (.inr (.inl htype)),
    if_neg fun hlength => h (.inr (.inr hlength))]

theorem packHeader_unpackHeader {type : FrameType} (hsize : headerSize ≤ stream.length)
    (hversion : (unpackHeader stream).version = protocolVersion)
    (htype : FrameType.ofCode (unpackHeader stream).rawType = some type) :
    packHeader protocolVersion type.code (unpackHeader stream).messageId
      (unpackHeader stream).payloadLength = stream.take headerSize := by
  have hlength : 14 ≤ stream.length := hsize
  have hcode : type.code = (unpackHeader stream).rawType := by
    unfold FrameType.ofCode at htype
    split at htype <;> cases htype <;> simp_all [FrameType.code]
  rw [hcode, ← hversion]
  simp only [packHeader, unpackHeader, List.append_nil]
  rw [BigEndian.encode_field (by omega), BigEndian.encode_field (by omega),
    BigEndian.encode_field (by omega), BigEndian.encode_field (by omega)]
  have hjoin : ∀ offset width size, (stream.drop offset).take width ++
      (stream.drop (offset + width)).take size = (stream.drop offset).take (width + size) := by
    intro offset width size
    rw [List.take_add, List.drop_drop]
  rw [hjoin 2 8 4, hjoin 1 1 12, hjoin 0 1 13]
  rfl

theorem front_of_good (hsize : headerSize ≤ stream.length) (h : ¬BadHeader maxFrameSize stream) :
    (grammar maxFrameSize).front stream =
      if stream.length < headerSize + (unpackHeader stream).payloadLength then .more
      else
        match buildFrame (stream.take headerSize)
            ((stream.drop headerSize).take (unpackHeader stream).payloadLength) with
        | .error error => .reject error
        | .ok frame => .frame frame (headerSize + (unpackHeader stream).payloadLength) := by
  show Grammar.headedFront headerSize (checkHeader maxFrameSize) buildFrame stream = _
  rw [Grammar.headedFront, if_neg (not_lt.mpr hsize), checkHeader_of_good h]
  dsimp only
  cases buildFrame (stream.take headerSize)
    ((stream.drop headerSize).take (unpackHeader stream).payloadLength) with
  | error error => rfl
  | ok frame => rfl

/-- A frame is built of every complete one with a good header, but of an acknowledgement with a
payload. -/
theorem buildFrame_of_good {payload : Bytes} (h : ¬BadHeader maxFrameSize stream)
    (hpayload : payload.length = (unpackHeader stream).payloadLength)
    (hack : ¬(FrameType.ofCode (unpackHeader stream).rawType = some .ack ∧
      0 < (unpackHeader stream).payloadLength)) :
    ∃ type, FrameType.ofCode (unpackHeader stream).rawType = some type ∧
      (type = .ack → payload = []) ∧ buildFrame (stream.take headerSize) payload =
        .ok ⟨type, (unpackHeader stream).messageId, payload⟩ := by
  cases htype : FrameType.ofCode (unpackHeader stream).rawType with
  | none => exact absurd (.inr (.inl htype)) h
  | some type =>
    have hempty : type = .ack → payload = [] := by
      intro hack'
      rw [← List.length_eq_zero_iff, hpayload]
      by_contra hpos
      exact hack ⟨by rw [htype, hack'], Nat.pos_of_ne_zero hpos⟩
    refine ⟨type, rfl, hempty, ?_⟩
    rw [buildFrame, unpackHeader_take, htype]
    dsimp only
    rw [if_neg fun hboth => hboth.2 (hempty hboth.1)]

theorem front_of_incomplete (h : Incomplete maxFrameSize stream) :
    (grammar maxFrameSize).front stream = .more := by
  rcases h with hshort | ⟨hgood, hshort⟩
  · exact if_pos hshort
  · by_cases hsize : headerSize ≤ stream.length
    · rw [front_of_good hsize hgood, if_pos hshort]
    · exact if_pos (not_le.mp hsize)

theorem front_of_malformed (h : Malformed maxFrameSize stream) :
    ∃ error, (grammar maxFrameSize).front stream = .reject error := by
  obtain ⟨hsize, hcause⟩ := h
  by_cases hbad : BadHeader maxFrameSize stream
  · obtain ⟨error, hcheck⟩ := checkHeader_of_bad hbad
    exact ⟨error, Grammar.headedFront_of_error hsize hcheck⟩
  · obtain ⟨hack, hpos, hcomplete⟩ := hcause.resolve_left hbad
    have hpayload : (stream.drop headerSize).take (unpackHeader stream).payloadLength ≠ [] := by
      intro hempty
      have hlength := congrArg List.length hempty
      rw [List.length_take, List.length_drop, List.length_nil] at hlength
      omega
    refine ⟨.protocolError "ACK payload must be empty", ?_⟩
    rw [front_of_good hsize hbad, if_neg (not_lt.mpr hcomplete), buildFrame, unpackHeader_take,
      hack]
    dsimp only
    rw [if_pos ⟨rfl, hpayload⟩]

theorem front_cases (maxFrameSize : Nat) (stream : Bytes) :
    Incomplete maxFrameSize stream ∨ Malformed maxFrameSize stream ∨
      ∃ frame : Frame, frame.WellFormed maxFrameSize ∧ ∃ rest, stream = frame.bytes ++ rest ∧
        (grammar maxFrameSize).front stream = .frame frame frame.bytes.length := by
  by_cases hsize : headerSize ≤ stream.length
  case neg => exact .inl (.inl (not_le.mp hsize))
  by_cases hbad : BadHeader maxFrameSize stream
  case pos => exact .inr (.inl ⟨hsize, .inl hbad⟩)
  by_cases hcomplete : headerSize + (unpackHeader stream).payloadLength ≤ stream.length
  case neg => exact .inl (.inr ⟨hbad, not_le.mp hcomplete⟩)
  by_cases hack : FrameType.ofCode (unpackHeader stream).rawType = some .ack ∧
      0 < (unpackHeader stream).payloadLength
  case pos => exact .inr (.inl ⟨hsize, .inr ⟨hack.1, hack.2, hcomplete⟩⟩)
  let payload := (stream.drop headerSize).take (unpackHeader stream).payloadLength
  have hpayload : payload.length = (unpackHeader stream).payloadLength := by
    rw [List.length_take, List.length_drop]
    omega
  obtain ⟨type, htype, hempty, hbuild⟩ := buildFrame_of_good hbad hpayload hack
  let frame : Frame := ⟨type, (unpackHeader stream).messageId, payload⟩
  have hversion : (unpackHeader stream).version = protocolVersion := by
    by_contra hversion
    exact hbad (.inl hversion)
  have hheader : frame.header = stream.take headerSize := by
    rw [Frame.header, hpayload]
    exact packHeader_unpackHeader hsize hversion htype
  refine .inr (.inr ⟨frame, ⟨?_, ?_, hempty⟩, (stream.drop headerSize).drop payload.length, ?_, ?_⟩)
  · exact BigEndian.field_lt 2 8 stream
  · rw [hpayload]
    by_contra hlong
    exact hbad (.inr (.inr (not_le.mp hlong)))
  · have htail : payload ++ (stream.drop headerSize).drop payload.length = stream.drop headerSize := by
      rw [hpayload]
      exact List.take_append_drop ..
    rw [Frame.bytes, hheader, List.append_assoc, htail, List.take_append_drop]
  · rw [front_of_good hsize hbad, if_neg (not_lt.mpr hcomplete), hbuild, Frame.length_bytes, ← hpayload]

theorem front_more_iff : (grammar maxFrameSize).front stream = .more ↔ Incomplete maxFrameSize stream := by
  refine ⟨fun h => ?_, front_of_incomplete⟩
  rcases front_cases maxFrameSize stream with hincomplete | hmalformed | ⟨frame, -, rest, -, hfront⟩
  · exact hincomplete
  · obtain ⟨error, hfront⟩ := front_of_malformed hmalformed
    rw [hfront] at h
    cases h
  · rw [hfront] at h
    cases h

theorem malformed_of_reject (h : (grammar maxFrameSize).front stream = .reject error) :
    Malformed maxFrameSize stream := by
  rcases front_cases maxFrameSize stream with hincomplete | hmalformed | ⟨frame, -, rest, -, hfront⟩
  · rw [front_of_incomplete hincomplete] at h
    cases h
  · exact hmalformed
  · rw [hfront] at h
    cases h

theorem bytes_of_front (h : (grammar maxFrameSize).front stream = .frame frame size) :
    frame.WellFormed maxFrameSize ∧ stream = frame.bytes ++ stream.drop size := by
  rcases front_cases maxFrameSize stream with hincomplete | hmalformed | ⟨frame', hgood, rest, rfl, hfront⟩
  · rw [front_of_incomplete hincomplete] at h
    cases h
  · obtain ⟨error, hfront⟩ := front_of_malformed hmalformed
    rw [hfront] at h
    cases h
  · rw [hfront] at h
    cases h
    exact ⟨hgood, by rw [List.drop_left]⟩

theorem Incomplete.length_lt (h : Incomplete maxFrameSize stream) :
    stream.length < maxFrameSize + headerSize := by
  rcases h with hshort | ⟨hgood, hshort⟩
  · omega
  · have hlength : (unpackHeader stream).payloadLength ≤ maxFrameSize := by
      by_contra hlong
      exact hgood (.inr (.inr (not_le.mp hlong)))
    omega

theorem consecutive_parse (maxFrameSize : Nat) (stream : Bytes) :
    Consecutive maxFrameSize stream ((grammar maxFrameSize).parse stream).frames
      ((grammar maxFrameSize).parse stream).rest where
  wellFormed := Grammar.forall_frames _ (fun h => (bytes_of_front h).1) stream
  stream := Grammar.flatMap_frames _ (fun h => (bytes_of_front h).2) stream

/-- A stream has an error exactly when something malformed stands after some of its frames. -/
theorem parse_error_iff (hmax : maxFrameSize ≤ protocolMaxFrameSize) :
    ((grammar maxFrameSize).parse stream).error ≠ none ↔
      ∃ frames rest, Consecutive maxFrameSize stream frames rest ∧ Malformed maxFrameSize rest := by
  constructor
  · intro h
    obtain ⟨error, herror⟩ := Option.ne_none_iff_exists'.mp h
    exact ⟨_, _, consecutive_parse maxFrameSize stream,
      malformed_of_reject (Grammar.front_rest_of_error _ herror)⟩
  · rintro ⟨frames, rest, hconsecutive, hmalformed⟩
    obtain ⟨error, hfront⟩ := front_of_malformed hmalformed
    rw [hconsecutive.stream, Grammar.parse_flatMap_append _
      (fun frame hmem => front_bytes (hconsecutive.wellFormed frame hmem) hmax),
      Grammar.parse_reject _ hfront]
    exact nofun

end Front

/-! ### Chunk by chunk -/

def FrameParser.after (parser : FrameParser) (chunks : List Bytes) : FrameParser :=
  chunks.foldl (fun parser chunk => (parser.feed chunk).2) parser

section Feed

variable {parser : FrameParser} {chunks : List Bytes} {maxFrameSize maxReceiveBufferSize : Nat}
  {error : Exn}

/-- The chunks fit beside anything that the parser keeps. -/
def FrameParser.Takes (parser : FrameParser) (chunks : List Bytes) : Prop :=
  ∀ chunk ∈ chunks, parser.maxFrameSize + headerSize + chunk.length ≤ parser.maxReceiveBufferSize + 1

theorem FrameParser.Takes.fits (h : parser.Takes chunks) {buffer chunk : Bytes}
    (hbuffer : (grammar parser.maxFrameSize).front buffer = .more) (hmem : chunk ∈ chunks) :
    buffer.length + chunk.length ≤ parser.maxReceiveBufferSize := by
  have hkept := (front_more_iff.mp hbuffer).length_lt
  have htake := h chunk hmem
  omega

theorem FrameParser.feed_of_error {chunk : Bytes}
    (hroom : parser.buffer.length + chunk.length ≤ parser.maxReceiveBufferSize)
    (herror : (parser.reading chunk).error = some error) : (parser.feed chunk).1 = .error error := by
  have hparse : ((grammar parser.maxFrameSize).parse (parser.buffer ++ chunk)).error = some error := herror
  rw [FrameParser.feed, if_neg (not_lt.mpr hroom)]
  dsimp only
  rw [hparse]

theorem FrameParser.receive_of_error (htakes : parser.Takes chunks)
    (hbuffer : (grammar parser.maxFrameSize).front parser.buffer = .more)
    (herror : (parser.reading chunks.flatten).error = some error) :
    parser.receive chunks = .error error := by
  induction chunks generalizing parser with
  | nil =>
    rw [FrameParser.reading, List.flatten_nil, List.append_nil, Grammar.parse_more _ hbuffer] at herror
    cases herror
  | cons chunk chunks ih =>
    have hroom := htakes.fits hbuffer (.head _)
    rw [FrameParser.receive]
    cases hchunk : (parser.reading chunk).error with
    | some error' =>
      have hlater := (Grammar.parse_append_of_error (grammar parser.maxFrameSize) hchunk
        chunks.flatten).1
      rw [List.append_assoc] at hlater
      cases hlater.symm.trans herror
      rw [FrameParser.feed_of_error hroom hchunk]
      rfl
    | none =>
      rw [FrameParser.reading_cons hchunk] at herror
      rw [FrameParser.feed_of_room hroom hchunk]
      have hrest := @ih (parser.next chunk)
        (fun other hmem => htakes other (.tail _ hmem))
        (Grammar.front_rest _ hchunk) herror
      exact congrArg (fun rest => rest >>= fun later => pure ((parser.reading chunk).frames ++ later))
        hrest

theorem FrameParser.after_eq (htakes : parser.Takes chunks)
    (hbuffer : (grammar parser.maxFrameSize).front parser.buffer = .more)
    (herror : (parser.reading chunks.flatten).error = none) :
    parser.after chunks = { parser with buffer := (parser.reading chunks.flatten).rest } := by
  induction chunks generalizing parser with
  | nil => rw [FrameParser.reading, List.flatten_nil, List.append_nil, Grammar.parse_more _ hbuffer]; rfl
  | cons chunk chunks ih =>
    have hsplit := herror
    rw [FrameParser.reading, List.flatten_cons, ← List.append_assoc] at hsplit
    have hchunk : (parser.reading chunk).error = none := Grammar.error_none_of_append _ hsplit
    have hroom := htakes.fits hbuffer (.head _)
    rw [FrameParser.reading_cons hchunk] at herror ⊢
    rw [FrameParser.after, List.foldl_cons, FrameParser.feed_of_room hroom hchunk]
    exact @ih (parser.next chunk)
      (fun other hmem => htakes other (.tail _ hmem)) (Grammar.front_rest _ hchunk) herror

theorem FrameParser.Takes.room (htakes : parser.Takes chunks)
    (herror : (parser.reading chunks.flatten).error = none) : parser.Room chunks := by
  intro before chunk after hsplit
  have hmem : chunk ∈ chunks := by
    rw [hsplit]
    exact List.mem_append_right _ (.head _)
  have hstream : parser.buffer ++ chunks.flatten =
      (parser.buffer ++ before.flatten) ++ (chunk :: after).flatten := by
    rw [hsplit, List.flatten_append, List.append_assoc]
  rw [FrameParser.reading, hstream] at herror
  exact htakes.fits (Grammar.front_rest _ (Grammar.error_none_of_append _ herror)) hmem

theorem FrameParser.make_eq_ok {receiveBuffer : Nat} (hsize : headerSize + maxFrameSize ≤ receiveBuffer)
    (h : FrameParser.make maxFrameSize (some receiveBuffer) = .ok parser) :
    maxFrameSize ≤ protocolMaxFrameSize ∧ parser = ⟨maxFrameSize, receiveBuffer, []⟩ := by
  have hsome : ((some receiveBuffer).filter (· ≠ 0)).getD (maxFrameSize * 2) = receiveBuffer := by
    have hpos : headerSize = 14 := rfl
    rw [Option.filter_some, if_pos (by simp; omega), Option.getD_some]
  rw [FrameParser.make, hsome] at h
  dsimp only at h
  split_ifs at h with hlimits
  cases h
  exact ⟨hlimits.2, rfl⟩

theorem wellFormed_of_encode {frames : List Frame} {encoded : List Bytes}
    (hacks : ∀ frame ∈ frames, frame.frameType = .ack → frame.payload = [])
    (h : frames.mapM (·.encode maxFrameSize) = .ok encoded) :
    (∀ frame ∈ frames, frame.WellFormed maxFrameSize) ∧ encoded.flatten = frames.flatMap (·.bytes) := by
  induction frames generalizing encoded with
  | nil =>
    cases h
    exact ⟨nofun, rfl⟩
  | cons frame frames ih =>
    rw [List.mapM_cons] at h
    have hframe : frame.messageId < 2 ^ 64 ∧ frame.payload.length ≤ maxFrameSize := by
      unfold Frame.encode at h
      split_ifs at h with hid hlength
      · cases h
      · cases h
      · exact ⟨not_le.mp hid, not_lt.mp hlength⟩
    have hgood : frame.WellFormed maxFrameSize :=
      ⟨hframe.1, hframe.2, hacks frame (.head _)⟩
    rw [hgood.encode] at h
    cases hrest : frames.mapM (·.encode maxFrameSize) with
    | error error =>
      rw [hrest] at h
      cases h
    | ok later =>
      rw [hrest] at h
      cases h
      obtain ⟨hgoods, hflatten⟩ := ih (fun other hmem => hacks other (.tail _ hmem)) hrest
      refine ⟨?_, ?_⟩
      · intro other hmem
        rcases List.mem_cons.mp hmem with rfl | hmem
        · exact hgood
        · exact hgoods other hmem
      · rw [List.flatten_cons, List.flatMap_cons, hflatten]

/-- The parser raises exactly on a stream in which something malformed stands after some frames, and
otherwise returns the complete frames and keeps the beginning of the next, which is short; what is
encoded is read back. -/
theorem frame_parser_correct (hsize : maxFrameSize + 14 ≤ maxReceiveBufferSize)
    (hmake : FrameParser.make maxFrameSize (some maxReceiveBufferSize) = .ok parser)
    (hchunks : ∀ chunk ∈ chunks, chunk.length ≤ maxReceiveBufferSize - (maxFrameSize + 13)) :
    ((∃ error, parser.receive chunks = .error error) ↔
      ∃ frames rest, Consecutive maxFrameSize chunks.flatten frames rest ∧
        Malformed maxFrameSize rest) ∧
    (∀ frames, parser.receive chunks = .ok frames →
      Consecutive maxFrameSize chunks.flatten frames (parser.after chunks).buffer ∧
        Incomplete maxFrameSize (parser.after chunks).buffer ∧
          (parser.after chunks).buffer.length < maxFrameSize + 14) ∧
    (∀ frames encoded, (∀ frame ∈ frames, frame.frameType = .ack → frame.payload = []) →
      frames.mapM (·.encode maxFrameSize) = .ok encoded → chunks.flatten = encoded.flatten →
        parser.receive chunks = .ok frames) := by
  obtain ⟨hmax, rfl⟩ := FrameParser.make_eq_ok ((Nat.add_comm ..).trans_le hsize) hmake
  let parser : FrameParser := ⟨maxFrameSize, maxReceiveBufferSize, []⟩
  have htakes : parser.Takes chunks := by
    intro chunk hmem
    have hchunk := hchunks chunk hmem
    show maxFrameSize + 14 + chunk.length ≤ maxReceiveBufferSize + 1
    omega
  have hstart : (grammar parser.maxFrameSize).front parser.buffer = .more := Grammar.front_nil _
  have hraises : (∃ error, parser.receive chunks = .error error) ↔
      (parser.reading chunks.flatten).error ≠ none := by
    constructor
    · rintro ⟨error, hreceive⟩ hnone
      rw [(FrameParser.receive_eq_ok hstart hnone).mpr ⟨htakes.room hnone, rfl⟩] at hreceive
      cases hreceive
    · intro hsome
      obtain ⟨error, herror⟩ := Option.ne_none_iff_exists'.mp hsome
      exact ⟨error, FrameParser.receive_of_error htakes hstart herror⟩
  refine ⟨hraises.trans (parse_error_iff hmax), ?_, ?_⟩
  · intro frames hreceive
    have hnone : (parser.reading chunks.flatten).error = none := by
      by_contra hsome
      obtain ⟨error, herror⟩ := hraises.mpr hsome
      rw [herror] at hreceive
      cases hreceive
    obtain ⟨-, rfl⟩ := (FrameParser.receive_eq_ok hstart hnone).mp hreceive
    have hafter := congrArg FrameParser.buffer (FrameParser.after_eq htakes hstart hnone)
    have hincomplete := front_more_iff.mp (Grammar.front_rest (grammar maxFrameSize) hnone)
    have hkept : (parser.after chunks).buffer = (parser.reading chunks.flatten).rest := hafter
    refine ⟨?_, ?_, ?_⟩
    · rw [hkept]
      exact consecutive_parse maxFrameSize chunks.flatten
    · rw [hkept]
      exact hincomplete
    · rw [hkept]
      exact hincomplete.length_lt
  · intro frames encoded hacks hencode hstream
    have hframes := wellFormed_of_encode hacks hencode
    have hread : parser.reading chunks.flatten = ⟨frames, none, []⟩ := by
      rw [hstream, hframes.2]
      exact Grammar.parse_flatMap _ fun frame hmem => front_bytes (hframes.1 frame hmem) hmax
    have hnone : (parser.reading chunks.flatten).error = none := by rw [hread]
    refine (FrameParser.receive_eq_ok hstart hnone).mpr ⟨htakes.room hnone, ?_⟩
    rw [hread]

end Feed

/-- Limits of 16 and 40 bytes, and an empty acknowledgement in chunks of at most eleven. -/
theorem frame_parser_correct_small :
    FrameParser.make 16 (some 40) = .ok ⟨16, 40, []⟩ ∧
      (FrameParser.mk 16 40 []).receive [[1, 2, 0, 0, 0, 0, 0, 0, 0], [7, 0, 0, 0, 0, 1, 3]] =
        .ok [⟨.ack, 7, []⟩] ∧
      Incomplete 16 ((FrameParser.mk 16 40 []).after
        [[1, 2, 0, 0, 0, 0, 0, 0, 0], [7, 0, 0, 0, 0, 1, 3]]).buffer := by
  have hreceive : (FrameParser.mk 16 40 []).receive
      [[1, 2, 0, 0, 0, 0, 0, 0, 0], [7, 0, 0, 0, 0, 1, 3]] = .ok [⟨.ack, 7, []⟩] := by decide +kernel
  have hcorrect := @frame_parser_correct ⟨16, 40, []⟩ [[1, 2, 0, 0, 0, 0, 0, 0, 0], [7, 0, 0, 0, 0, 1, 3]]
    16 40 (by decide) rfl (by decide)
  exact ⟨rfl, hreceive, (hcorrect.2.1 _ hreceive).2.1⟩

end CallBackend.Link
