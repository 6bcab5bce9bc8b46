import CallBackend.Files.Types
import CallBackend.Lib.Framing

/-!
# Uploads in one message

A batch of chunks comes as one binary message: a magic, the file id, a count and the chunks, each with
its index and length. `decode_upload_batch` walks through the message with an offset; `parseBatch`
cuts what it has read off the front and refuses an index that it has seen. Both are compared with the
format itself, from which it follows that they agree.
-/

namespace CallBackend.Files

/-- `bytes.hex()`, and `hex.EncodeToString`. -/
def hexString (bytes : Bytes) : String :=
  String.ofList (bytes.flatMap fun byte =>
    [Nat.digitChar (byte.toNat / 16), Nat.digitChar (byte.toNat % 16)])

def batchMagic : Bytes := [81, 70, 66, 49]

/-! ### The backend -/

structure UploadBatch where
  id : FileId
  chunks : List (Nat × Bytes)
  deriving DecidableEq

/-- The loop of `decode_upload_batch`: how many chunks to read, from where, and those before. -/
def decodeChunks (payload : Bytes) :
    Nat → Nat → List (Nat × Bytes) → Except FileError (Nat × List (Nat × Bytes))
  | 0, offset, chunks => .ok (offset, chunks)
  | count + 1, offset, chunks =>
    if payload.length < offset + 8 then .error .invalidRequest
    else
      let index := BigEndian.field offset 4 payload
      let size := BigEndian.field (offset + 4) 4 payload
      if ¬(28 ≤ size ∧ size ≤ chunkSize + 28) ∨ payload.length < offset + 8 + size then
        .error .invalidRequest
      else
        decodeChunks payload count (offset + 8 + size)
          (chunks ++ [(index, (payload.drop (offset + 8)).take size)])

def decodeUploadBatch (payload : Bytes) : Except FileError UploadBatch :=
  if payload.length < 22 ∨ 22 + batchChunks * (chunkSize + 36) < payload.length ∨
      payload.take 4 ≠ batchMagic then .error .invalidRequest
  else
    let count := BigEndian.field 20 2 payload
    if ¬(1 ≤ count ∧ count ≤ batchChunks) then .error .invalidRequest
    else
      match decodeChunks payload count 22 [] with
      | .error error => .error error
      | .ok (offset, chunks) =>
        if offset ≠ payload.length then .error .invalidRequest
        else .ok ⟨hexString ((payload.drop 4).take 16), chunks⟩

/-! ### The native transport -/

/-- The type `chunk` of the native transport. -/
structure NativeChunk extends Descriptor where
  data : Bytes
  deriving DecidableEq

/-- What `parseBatch` fills in of a `fileRequest`. -/
structure NativeBatch where
  id : FileId
  chunks : List NativeChunk
  deriving DecidableEq

def NativeChunk.of (setup : Setup) (index : Nat) (data : Bytes) : NativeChunk :=
  { index, length := data.length, digest := setup.sha256 data, data }

/-- The loop of `parseBatch`: how many chunks to read, from what, the indices seen and the chunks
before. -/
def parseChunks (setup : Setup) :
    Nat → Bytes → List Nat → List NativeChunk → Except FileError (Bytes × List NativeChunk)
  | 0, data, _, chunks => .ok (data, chunks)
  | count + 1, data, seen, chunks =>
    if data.length < 8 then .error .invalidRequest
    else
      let index := BigEndian.field 0 4 data
      let length := BigEndian.field 4 4 data
      let data := data.drop 8
      if length < 28 ∨ chunkSize + 28 < length ∨ data.length < length ∨ index ∈ seen then
        .error .invalidChunk
      else
        parseChunks setup count (data.drop length) (index :: seen)
          (chunks ++ [⟨⟨index, length, setup.sha256 (data.take length)⟩, data.take length⟩])

def parseBatch (setup : Setup) (data : Bytes) : Except FileError NativeBatch :=
  if data.length < 22 ∨ data.take 4 ≠ batchMagic then .error .invalidRequest
  else
    let count := BigEndian.field 0 2 ((data.drop 20).take 2)
    if count < 1 ∨ 16 < count then .error .invalidRequest
    else
      match parseChunks setup count (data.drop 22) [] [] with
      | .error error => .error error
      | .ok (rest, chunks) =>
        if rest.length ≠ 0 then .error .invalidRequest
        else .ok ⟨hexString ((data.drop 4).take 16), chunks⟩

/-! ### The format -/

structure BatchMessage where
  id : Bytes
  chunks : List (Nat × Bytes)
  deriving DecidableEq

structure Recordable (chunk : Nat × Bytes) : Prop where
  index : chunk.1 < 2 ^ 32
  low : 28 ≤ chunk.2.length
  high : chunk.2.length ≤ 32796

structure BatchMessage.WellFormed (message : BatchMessage) : Prop where
  id : message.id.length = 16
  low : 1 ≤ message.chunks.length
  high : message.chunks.length ≤ 16
  chunks : ∀ chunk ∈ message.chunks, Recordable chunk

def recordBytes (chunk : Nat × Bytes) : Bytes :=
  BigEndian.encode 4 chunk.1 ++ (BigEndian.encode 4 chunk.2.length ++ chunk.2)

def BatchMessage.header (message : BatchMessage) : Bytes :=
  batchMagic ++ (message.id ++ BigEndian.encode 2 message.chunks.length)

def BatchMessage.encode (message : BatchMessage) : Bytes := message.header ++ message.chunks.flatMap recordBytes

/-- The request that the backend is to make of it. -/
def BatchMessage.decoded (message : BatchMessage) : UploadBatch := ⟨hexString message.id, message.chunks⟩

/-- The request that the native transport is to make of it. -/
def BatchMessage.parsed (setup : Setup) (message : BatchMessage) : NativeBatch :=
  ⟨hexString message.id, message.chunks.map fun chunk => .of setup chunk.1 chunk.2⟩

section Records

variable {setup : Setup} {payload data front rest : Bytes} {chunk : Nat × Bytes}
  {records chunks : List (Nat × Bytes)} {offset count : Nat}

theorem length_recordBytes (chunk : Nat × Bytes) :
    (recordBytes chunk).length = 8 + chunk.2.length := by
  simp only [recordBytes, List.length_append, BigEndian.length_encode]
  omega

theorem length_records_le (h : ∀ chunk ∈ records, Recordable chunk) :
    (records.flatMap recordBytes).length ≤ records.length * 32804 := by
  induction records with
  | nil => exact Nat.le_refl 0
  | cons chunk records ih =>
    have hrest := ih fun other hmem => h other (.tail _ hmem)
    have hhigh := (h chunk (.head _)).high
    rw [List.flatMap_cons, List.length_append, length_recordBytes, List.length_cons]
    omega

theorem fields_recordBytes (h : Recordable chunk) (rest : Bytes) :
    BigEndian.field 0 4 (recordBytes chunk ++ rest) = chunk.1 ∧
      BigEndian.field 4 4 (recordBytes chunk ++ rest) = chunk.2.length ∧
      (recordBytes chunk ++ rest).drop 8 = chunk.2 ++ rest := by
  have hindex : chunk.1 < 256 ^ 4 := h.index
  have hlength : chunk.2.length < 256 ^ 4 := by
    have hhigh := h.high
    omega
  simp only [recordBytes, List.append_assoc]
  refine ⟨BigEndian.field_encode hindex _, ?_, ?_⟩
  · exact (BigEndian.field_skip 4 chunk.1 0 4 _).trans (BigEndian.field_encode hlength _)
  · rw [← List.append_assoc, List.drop_left']
    simp

theorem recordBytes_fields (hlow : 28 ≤ BigEndian.field 4 4 data)
    (hhigh : BigEndian.field 4 4 data ≤ chunkSize + 28)
    (hlength : 8 + BigEndian.field 4 4 data ≤ data.length) :
    Recordable (BigEndian.field 0 4 data, (data.drop 8).take (BigEndian.field 4 4 data)) ∧
      data = recordBytes (BigEndian.field 0 4 data, (data.drop 8).take (BigEndian.field 4 4 data)) ++
        data.drop (8 + BigEndian.field 4 4 data) := by
  have hchunkSize : chunkSize = 32768 := rfl
  have hsize : ((data.drop 8).take (BigEndian.field 4 4 data)).length = BigEndian.field 4 4 data := by
    rw [List.length_take, List.length_drop]
    omega
  refine ⟨⟨BigEndian.field_lt 0 4 data, by rw [hsize]; exact hlow, by rw [hsize]; omega⟩, ?_⟩
  have hjoin : (data.drop 0).take 4 ++ (data.drop 4).take 4 = data.take 8 := by
    rw [List.drop_zero, ← List.take_add]
  rw [recordBytes, hsize, BigEndian.encode_field (by omega), BigEndian.encode_field (by omega),
    ← List.append_assoc, hjoin, List.append_assoc, ← List.drop_drop, List.take_append_drop,
    List.take_append_drop]

/-! ### The loops -/

theorem decodeChunks_records (hrecords : ∀ chunk ∈ records, Recordable chunk) (front rest : Bytes)
    (chunks : List (Nat × Bytes)) :
    decodeChunks (front ++ (records.flatMap recordBytes ++ rest)) records.length front.length chunks =
      .ok (front.length + (records.flatMap recordBytes).length, chunks ++ records) := by
  induction records generalizing front chunks with
  | nil => rw [List.append_nil]; rfl
  | cons chunk records ih =>
    have hchunk := hrecords chunk (.head _)
    have hfields := fields_recordBytes hchunk (records.flatMap recordBytes ++ rest)
    have hlength := length_recordBytes chunk
    have hchunkSize : chunkSize = 32768 := rfl
    have hlow := hchunk.low
    have hhigh := hchunk.high
    have hpayload : front ++ ((chunk :: records).flatMap recordBytes ++ rest) =
        front ++ (recordBytes chunk ++ (records.flatMap recordBytes ++ rest)) := by
      rw [List.flatMap_cons, List.append_assoc]
    rw [hpayload, List.length_cons, decodeChunks]
    have hindex : BigEndian.field front.length 4
        (front ++ (recordBytes chunk ++ (records.flatMap recordBytes ++ rest))) = chunk.1 :=
      (BigEndian.field_append rfl 0 4 _).trans hfields.1
    have hsize : BigEndian.field (front.length + 4) 4
        (front ++ (recordBytes chunk ++ (records.flatMap recordBytes ++ rest))) = chunk.2.length :=
      (BigEndian.field_append rfl 4 4 _).trans hfields.2.1
    have hdata : ((front ++ (recordBytes chunk ++ (records.flatMap recordBytes ++ rest))).drop
        (front.length + 8)).take chunk.2.length = chunk.2 := by
      rw [← List.drop_drop, List.drop_left, hfields.2.2, List.take_left]
    have htotal : (front ++ (recordBytes chunk ++ (records.flatMap recordBytes ++ rest))).length =
        front.length + 8 + chunk.2.length + (records.flatMap recordBytes ++ rest).length := by
      rw [List.length_append, List.length_append, hlength]
      omega
    dsimp only
    rw [hindex, hsize, hdata, if_neg (by omega), if_neg (by omega)]
    have hfront : front.length + 8 + chunk.2.length = (front ++ recordBytes chunk).length := by
      rw [List.length_append, hlength]
      omega
    rw [← List.append_assoc front, hfront,
      ih (fun other hmem => hrecords other (.tail _ hmem))]
    rw [List.flatMap_cons, List.length_append, List.length_append, List.append_assoc chunks]
    congr 2
    omega

theorem records_of_decodeChunks {stop : Nat} {all : List (Nat × Bytes)} (hoffset : offset ≤ payload.length)
    (h : decodeChunks payload count offset chunks = .ok (stop, all)) :
    ∃ records, all = chunks ++ records ∧ records.length = count ∧
      (∀ chunk ∈ records, Recordable chunk) ∧ stop ≤ payload.length ∧
      payload.drop offset = records.flatMap recordBytes ++ payload.drop stop := by
  induction count generalizing offset chunks with
  | zero =>
    cases h
    exact ⟨[], (List.append_nil _).symm, rfl, nofun, hoffset, rfl⟩
  | succ count ih =>
    rw [decodeChunks] at h
    dsimp only at h
    split_ifs at h with hheader hsize
    rw [not_or, not_not, not_lt] at hsize
    have hindex : BigEndian.field offset 4 payload = BigEndian.field 0 4 (payload.drop offset) :=
      BigEndian.field_add offset 0 4 payload
    rw [BigEndian.field_add offset 4] at h hsize
    rw [hindex, ← List.drop_drop] at h
    have hlength : 8 + BigEndian.field 4 4 (payload.drop offset) ≤ (payload.drop offset).length := by
      rw [List.length_drop]
      omega
    obtain ⟨hrecord, hsplit⟩ := recordBytes_fields hsize.1.1 hsize.1.2 hlength
    obtain ⟨records, rfl, hcount, hrecords, hstop, hrest⟩ := ih hsize.2 h
    refine ⟨(BigEndian.field 0 4 (payload.drop offset), ((payload.drop offset).drop 8).take
      (BigEndian.field 4 4 (payload.drop offset))) :: records, ?_, ?_, ?_, hstop, ?_⟩
    · rw [List.append_assoc]
      rfl
    · rw [List.length_cons, hcount]
    · exact List.forall_mem_cons.mpr ⟨hrecord, hrecords⟩
    · rw [List.flatMap_cons, List.append_assoc, ← hrest, Nat.add_assoc, ← List.drop_drop]
      exact hsplit

theorem parseChunks_records {seen : List Nat} {native : List NativeChunk}
    (hrecords : ∀ chunk ∈ records, Recordable chunk) (hdistinct : (records.map (·.1)).Nodup)
    (hseen : ∀ index ∈ records.map (·.1), index ∉ seen) (rest : Bytes) :
    parseChunks setup records.length (records.flatMap recordBytes ++ rest) seen native =
      .ok (rest, native ++ records.map fun chunk => .of setup chunk.1 chunk.2) := by
  induction records generalizing seen native with
  | nil => rw [List.map_nil, List.append_nil]; rfl
  | cons chunk records ih =>
    have hchunk := hrecords chunk (.head _)
    obtain ⟨hindex, hsize, hdrop⟩ := fields_recordBytes hchunk (records.flatMap recordBytes ++ rest)
    have hlength := length_recordBytes chunk
    have hchunkSize : chunkSize = 32768 := rfl
    have hlow := hchunk.low
    have hhigh := hchunk.high
    rw [List.map_cons, List.nodup_cons] at hdistinct
    have hfresh : chunk.1 ∉ seen := hseen chunk.1 (.head _)
    rw [List.flatMap_cons, List.append_assoc, List.length_cons, parseChunks]
    dsimp only
    rw [hindex, hsize, hdrop, List.take_left, List.drop_left, if_neg, if_neg]
    · rw [ih (fun other hmem => hrecords other (.tail _ hmem)) hdistinct.2]
      · rw [List.append_assoc]
        rfl
      · intro index hmem
        rw [List.mem_cons, not_or]
        refine ⟨?_, hseen index (.tail _ hmem)⟩
        rintro rfl
        exact hdistinct.1 hmem
    · rw [List.length_append]
      push Not
      exact ⟨hlow, by omega, by omega, hfresh⟩
    · rw [List.length_append]
      omega

theorem records_of_parseChunks {seen : List Nat} {native all : List NativeChunk}
    (h : parseChunks setup count data seen native = .ok (rest, all)) :
    ∃ records : List (Nat × Bytes), (all = native ++ records.map fun chunk => .of setup chunk.1 chunk.2) ∧
      records.length = count ∧ (∀ chunk ∈ records, Recordable chunk) ∧ (records.map (·.1)).Nodup ∧
      (∀ index ∈ records.map (·.1), index ∉ seen) ∧ data = records.flatMap recordBytes ++ rest := by
  induction count generalizing data seen native with
  | zero =>
    cases h
    exact ⟨[], (List.append_nil _).symm, rfl, nofun, List.nodup_nil, nofun, rfl⟩
  | succ count ih =>
    rw [parseChunks] at h
    dsimp only at h
    split_ifs at h with hheader hbad
    push Not at hbad
    obtain ⟨hlow, hhigh, hbody, hfresh⟩ := hbad
    rw [List.length_drop] at hbody
    have hlength : 8 + BigEndian.field 4 4 data ≤ data.length := by omega
    obtain ⟨hrecord, hsplit⟩ := recordBytes_fields hlow hhigh hlength
    obtain ⟨records, rfl, hcount, hrecords, hdistinct, hseen, hrest⟩ := ih h
    have hsize : ((data.drop 8).take (BigEndian.field 4 4 data)).length = BigEndian.field 4 4 data := by
      rw [List.length_take, List.length_drop]
      omega
    refine ⟨(BigEndian.field 0 4 data, (data.drop 8).take (BigEndian.field 4 4 data)) :: records,
      ?_, ?_, ?_, ?_, ?_, ?_⟩
    · rw [List.append_assoc, List.map_cons, NativeChunk.of]
      dsimp only
      rw [hsize]
      rfl
    · rw [List.length_cons, hcount]
    · exact List.forall_mem_cons.mpr ⟨hrecord, hrecords⟩
    · rw [List.map_cons, List.nodup_cons]
      exact ⟨fun hmem => hseen _ hmem (.head _), hdistinct⟩
    · intro index hmem
      rcases List.mem_cons.mp hmem with rfl | hmem
      · exact hfresh
      · exact fun hold => hseen index hmem (.tail _ hold)
    · rw [List.flatMap_cons, List.append_assoc, ← hrest, List.drop_drop]
      exact hsplit

end Records

/-! ### Both sides read the format -/

section Messages

variable {setup : Setup} {payload : Bytes} {message : BatchMessage} {batch : UploadBatch}
  {request : NativeBatch}

theorem BatchMessage.WellFormed.length_header (h : message.WellFormed) : message.header.length = 22 := by
  simp [BatchMessage.header, batchMagic, h.id]

theorem BatchMessage.WellFormed.fields (h : message.WellFormed) (rest : Bytes) :
    (message.header ++ rest).take 4 = batchMagic ∧
      ((message.header ++ rest).drop 4).take 16 = message.id ∧
      BigEndian.field 20 2 (message.header ++ rest) = message.chunks.length := by
  have hfront : (batchMagic ++ message.id).length = 20 := by simp [batchMagic, h.id]
  have hcount : message.chunks.length < 256 ^ 2 := by
    have hhigh := h.high
    omega
  simp only [BatchMessage.header, List.append_assoc]
  refine ⟨rfl, ?_, ?_⟩
  · show (message.id ++ (BigEndian.encode 2 message.chunks.length ++ rest)).take 16 = message.id
    exact List.take_left' h.id
  · rw [← List.append_assoc]
    exact (BigEndian.field_append hfront 0 2 _).trans (BigEndian.field_encode hcount rest)

theorem BatchMessage.WellFormed.length_encode (h : message.WellFormed) :
    message.encode.length = 22 + (message.chunks.flatMap recordBytes).length := by
  rw [BatchMessage.encode, List.length_append, h.length_header]

/-- The message that a payload is whose records have been read. -/
theorem message_of_records {records : List (Nat × Bytes)} (hlength : 22 ≤ payload.length)
    (hmagic : payload.take 4 = batchMagic)
    (hcount : 1 ≤ BigEndian.field 20 2 payload ∧ BigEndian.field 20 2 payload ≤ batchChunks)
    (hread : records.length = BigEndian.field 20 2 payload) (hrecords : ∀ chunk ∈ records, Recordable chunk)
    (hsplit : payload.drop 22 = records.flatMap recordBytes) :
    BatchMessage.WellFormed ⟨(payload.drop 4).take 16, records⟩ ∧
      payload = BatchMessage.encode ⟨(payload.drop 4).take 16, records⟩ := by
  refine ⟨⟨?_, hread ▸ hcount.1, hread ▸ hcount.2, hrecords⟩, ?_⟩
  · rw [List.length_take, List.length_drop]
    omega
  · have hrest := (List.take_add (l := payload.drop 4) (i := 16) (j := 2)).symm
    rw [List.drop_drop] at hrest
    rw [BatchMessage.encode, BatchMessage.header, hread, ← hsplit, BigEndian.encode_field (by omega), hrest,
      ← hmagic, ← List.take_add]
    exact (List.take_append_drop 22 payload).symm

theorem decodeUploadBatch_eq_ok : decodeUploadBatch payload = .ok batch ↔
    ∃ message : BatchMessage, message.WellFormed ∧ payload = message.encode ∧ batch = message.decoded := by
  constructor
  · intro h
    unfold decodeUploadBatch at h
    dsimp only at h
    split_ifs at h with hheader hcount
    push Not at hheader
    split at h
    · cases h
    · rename_i offset chunks hloop
      split_ifs at h with hend
      cases h
      rw [not_not] at hend
      obtain ⟨records, hchunks, hlength, hrecords, -, hsplit⟩ := records_of_decodeChunks hheader.1 hloop
      rw [List.nil_append] at hchunks
      subst hchunks
      rw [hend, List.drop_length, List.append_nil] at hsplit
      obtain ⟨hwell, hpayload⟩ := message_of_records hheader.1 hheader.2.2 hcount hlength hrecords hsplit
      exact ⟨_, hwell, hpayload, rfl⟩
  · rintro ⟨message, h, rfl, rfl⟩
    obtain ⟨hmagic, hid, hcount⟩ := h.fields (message.chunks.flatMap recordBytes)
    have hheader := h.length_header
    have hlength := h.length_encode
    have hrecords := length_records_le h.chunks
    have hmost := h.high
    have hbound : batchChunks * (chunkSize + 36) = 16 * 32804 := rfl
    have hloop := decodeChunks_records h.chunks message.header [] []
    rw [List.append_nil, hheader, List.nil_append, ← hlength] at hloop
    have hcounts : 1 ≤ message.chunks.length ∧ message.chunks.length ≤ batchChunks := ⟨h.low, h.high⟩
    rw [← BatchMessage.encode] at hmagic hid hcount hloop
    rw [decodeUploadBatch, if_neg (by simp only [hmagic, ne_eq, not_true, or_false]; omega)]
    dsimp only
    rw [hcount, if_neg (not_not_intro hcounts), hloop]
    dsimp only
    rw [if_neg (not_not_intro rfl), hid]
    rfl

/-- `parseBatch` reads exactly the messages of the format whose indices are distinct. -/
theorem parseBatch_eq_ok : parseBatch setup payload = .ok request ↔
    ∃ message : BatchMessage, message.WellFormed ∧ (message.chunks.map (·.1)).Nodup ∧ payload = message.encode ∧
      request = message.parsed setup := by
  have hfield : ∀ data : Bytes, BigEndian.field 0 2 ((data.drop 20).take 2) = BigEndian.field 20 2 data := by
    intro data
    rw [BigEndian.field_take (by decide)]
    exact (BigEndian.field_add 20 0 2 data).symm
  constructor
  · intro h
    unfold parseBatch at h
    dsimp only at h
    rw [hfield] at h
    split_ifs at h with hheader hcount
    push Not at hheader hcount
    split at h
    · cases h
    · rename_i rest chunks hloop
      split_ifs at h with hend
      cases h
      rw [not_not, List.length_eq_zero_iff] at hend
      obtain ⟨records, rfl, hlength, hrecords, hdistinct, -, hsplit⟩ := records_of_parseChunks hloop
      rw [hend, List.append_nil] at hsplit
      obtain ⟨hwell, hpayload⟩ := message_of_records hheader.1 hheader.2 hcount hlength hrecords hsplit
      exact ⟨_, hwell, hdistinct, hpayload, rfl⟩
  · rintro ⟨message, h, hdistinct, rfl, rfl⟩
    obtain ⟨hmagic, hid, hcount⟩ := h.fields (message.chunks.flatMap recordBytes)
    have hheader := h.length_header
    have hlength := h.length_encode
    have hbody : message.encode.drop 22 = message.chunks.flatMap recordBytes ++ [] := by
      rw [BatchMessage.encode, List.drop_left' hheader, List.append_nil]
    have hlow := h.low
    have hhigh := h.high
    rw [← BatchMessage.encode] at hmagic hid hcount
    rw [parseBatch, if_neg (by simp only [hmagic, ne_eq, not_true, or_false]; omega)]
    dsimp only
    rw [hfield, hcount, if_neg (by omega), hbody,
      parseChunks_records h.chunks hdistinct (fun _ _ => List.not_mem_nil)]
    dsimp only
    rw [if_neg (by simp), hid]
    rfl

/-- Both sides take the same file id and the same chunks from a message, but that the native transport
refuses an index that comes twice; and what the backend takes is exactly the format. -/
theorem upload_batches_agree (setup : Setup) :
    (∀ payload, (∃ request, parseBatch setup payload = .ok request) ↔
      ∃ batch, decodeUploadBatch payload = .ok batch ∧ (batch.chunks.map (·.1)).Nodup) ∧
    (∀ payload request batch, parseBatch setup payload = .ok request →
      decodeUploadBatch payload = .ok batch →
        request.id = batch.id ∧ request.chunks.map (fun chunk => (chunk.index, chunk.data)) = batch.chunks) ∧
    (∀ payload, (∃ batch, decodeUploadBatch payload = .ok batch) ↔
      ∃ message : BatchMessage, message.WellFormed ∧ payload = message.encode) ∧
    (∀ message : BatchMessage, message.WellFormed → decodeUploadBatch message.encode = .ok message.decoded) := by
  have hround : ∀ message : BatchMessage, message.WellFormed →
      decodeUploadBatch message.encode = .ok message.decoded :=
    fun message h => decodeUploadBatch_eq_ok.mpr ⟨message, h, rfl, rfl⟩
  refine ⟨fun payload => ⟨?_, ?_⟩, ?_, fun payload => ⟨?_, ?_⟩, hround⟩
  · rintro ⟨request, h⟩
    obtain ⟨message, hmessage, hdistinct, rfl, -⟩ := parseBatch_eq_ok.mp h
    exact ⟨message.decoded, hround message hmessage, hdistinct⟩
  · rintro ⟨batch, h, hdistinct⟩
    obtain ⟨message, hmessage, rfl, rfl⟩ := decodeUploadBatch_eq_ok.mp h
    exact ⟨message.parsed setup, parseBatch_eq_ok.mpr ⟨message, hmessage, hdistinct, rfl, rfl⟩⟩
  · intro payload request batch hparse hdecode
    obtain ⟨message, hmessage, -, rfl, rfl⟩ := parseBatch_eq_ok.mp hparse
    rw [hround message hmessage] at hdecode
    cases hdecode
    refine ⟨rfl, ?_⟩
    rw [BatchMessage.parsed, List.map_map]
    exact List.map_id _
  · rintro ⟨batch, h⟩
    obtain ⟨message, hmessage, rfl, -⟩ := decodeUploadBatch_eq_ok.mp h
    exact ⟨message, hmessage, rfl⟩
  · rintro ⟨message, hmessage, rfl⟩
    exact ⟨_, hround message hmessage⟩

end Messages

end CallBackend.Files
