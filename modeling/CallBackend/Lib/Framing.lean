import Mathlib.Data.List.Basic
import Mathlib.Tactic.Ring
import Mathlib.Tactic.Positivity

/-!
# Frames in a stream

A stream of symbols is cut into frames from the front. A grammar says what stands at the front of a
stream: a complete frame, something that is no frame, or too little to tell. Its answers are final,
more symbols do not change them, and a frame depends on its own symbols only. A parser that is given
the stream piece by piece and keeps what is incomplete then reads the same frames however the stream
is divided.

Numbers in frames are big-endian.
-/

/-! ### Big-endian numbers -/

namespace BigEndian

def encode : Nat → Nat → List UInt8
  | 0, _ => []
  | width + 1, n => UInt8.ofNat (n / 256 ^ width) :: encode width n

def decode (bytes : List UInt8) : Nat := bytes.foldl (fun n byte => n * 256 + byte.toNat) 0

@[simp] theorem length_encode (width n : Nat) : (encode width n).length = width := by
  induction width with
  | zero => rfl
  | succ width ih => simp [encode, ih]

theorem foldl_encode (width n start : Nat) :
    (encode width n).foldl (fun n byte => n * 256 + byte.toNat) start =
      start * 256 ^ width + n % 256 ^ width := by
  induction width generalizing start with
  | zero => simp [encode, Nat.mod_one]
  | succ width ih =>
    have hdigit : (UInt8.ofNat (n / 256 ^ width)).toNat = n / 256 ^ width % 256 := by simp
    have hsplit : n % 256 ^ (width + 1) = 256 ^ width * (n / 256 ^ width % 256) + n % 256 ^ width := by
      rw [pow_succ, Nat.mod_mul, Nat.add_comm]
    rw [encode, List.foldl_cons, ih, hdigit, hsplit]
    ring

theorem decode_encode {width n : Nat} (h : n < 256 ^ width) : decode (encode width n) = n := by
  rw [decode, foldl_encode, Nat.zero_mul, Nat.zero_add, Nat.mod_eq_of_lt h]

theorem decode_append (front back : List UInt8) :
    decode (front ++ back) = decode front * 256 ^ back.length + decode back := by
  induction back using List.reverseRecOn with
  | nil => simp [decode]
  | append_singleton back byte ih =>
    have hlast : ∀ bytes : List UInt8, decode (bytes ++ [byte]) = decode bytes * 256 + byte.toNat := by
      intro bytes
      simp [decode]
    rw [← List.append_assoc, hlast, hlast, ih, List.length_append, List.length_singleton, pow_succ]
    ring

theorem decode_lt (bytes : List UInt8) : decode bytes < 256 ^ bytes.length := by
  induction bytes using List.reverseRecOn with
  | nil => exact Nat.one_pos
  | append_singleton bytes byte ih =>
    have hbyte : decode [byte] = byte.toNat := by simp [decode]
    have hlt : byte.toNat < 256 := byte.toNat_lt
    rw [decode_append, hbyte, List.length_append, List.length_singleton, pow_succ]
    omega

theorem encode_add_mul (width high low : Nat) :
    encode width (high * 256 ^ width + low) = encode width low := by
  induction width generalizing high with
  | zero => rfl
  | succ width ih =>
    have hsplit : high * 256 ^ (width + 1) + low = (high * 256) * 256 ^ width + low := by ring
    rw [hsplit, encode, encode, ih, Nat.add_comm, Nat.add_mul_div_right _ _ (by positivity)]
    congr 1
    apply UInt8.toNat_inj.mp
    simp

theorem encode_decode (bytes : List UInt8) : encode bytes.length (decode bytes) = bytes := by
  induction bytes with
  | nil => rfl
  | cons byte bytes ih =>
    have hbyte : decode [byte] = byte.toNat := by simp [decode]
    have hvalue : decode (byte :: bytes) = byte.toNat * 256 ^ bytes.length + decode bytes := by
      rw [← hbyte]
      exact decode_append [byte] bytes
    have hdigit : (byte.toNat * 256 ^ bytes.length + decode bytes) / 256 ^ bytes.length =
        byte.toNat := by
      rw [Nat.add_comm, Nat.add_mul_div_right _ _ (by positivity),
        Nat.div_eq_of_lt (decode_lt bytes), Nat.zero_add]
    rw [hvalue, List.length_cons, encode, hdigit, encode_add_mul, ih]
    congr 1
    exact UInt8.ofNat_toNat

/-- The number in the `width` bytes from `offset` on. -/
def field (offset width : Nat) (bytes : List UInt8) : Nat := decode ((bytes.drop offset).take width)

theorem field_encode {width n : Nat} (h : n < 256 ^ width) (after : List UInt8) :
    field 0 width (encode width n ++ after) = n := by
  rw [field, List.drop_zero, List.take_left' (length_encode width n), decode_encode h]

theorem field_append {front : List UInt8} {skipped : Nat} (h : front.length = skipped)
    (offset width : Nat) (bytes : List UInt8) :
    field (skipped + offset) width (front ++ bytes) = field offset width bytes := by
  have hdrop : (front ++ bytes).drop (skipped + offset) = bytes.drop offset := by
    rw [← List.drop_drop, List.drop_left' h]
  rw [field, field, hdrop]

theorem field_add (skipped offset width : Nat) (bytes : List UInt8) :
    field (skipped + offset) width bytes = field offset width (bytes.drop skipped) := by
  rw [field, field, List.drop_drop]

theorem field_take {offset width size : Nat} (h : offset + width ≤ size) (bytes : List UInt8) :
    field offset width (bytes.take size) = field offset width bytes := by
  rw [field, field, List.drop_take, List.take_take, Nat.min_eq_left (by omega)]

theorem field_lt (offset width : Nat) (bytes : List UInt8) : field offset width bytes < 256 ^ width := by
  refine (decode_lt _).trans_le (Nat.pow_le_pow_right (by decide) ?_)
  rw [List.length_take]
  exact Nat.min_le_left ..

theorem encode_field {offset width : Nat} {bytes : List UInt8} (h : offset + width ≤ bytes.length) :
    encode width (field offset width bytes) = (bytes.drop offset).take width := by
  have hlength : ((bytes.drop offset).take width).length = width := by
    rw [List.length_take, List.length_drop]
    omega
  have hdecode := encode_decode ((bytes.drop offset).take width)
  rwa [hlength] at hdecode

theorem field_skip (skipped n offset width : Nat) (bytes : List UInt8) :
    field (skipped + offset) width (encode skipped n ++ bytes) = field offset width bytes :=
  field_append (length_encode skipped n) offset width bytes

end BigEndian

namespace Framing

variable {α φ ε : Type}

/-- What stands at the front of a stream. -/
inductive Front (φ ε : Type) where
  | more
  | reject (error : ε)
  | frame (value : φ) (size : Nat)

/-- How a stream is cut into frames. -/
structure Grammar (α φ ε : Type) where
  front : List α → Front φ ε
  front_nil : front [] = .more
  frame_local : ∀ {stream value size}, front stream = .frame value size →
    0 < size ∧ size ≤ stream.length ∧ ∀ rest, front (stream.take size ++ rest) = .frame value size
  reject_append : ∀ {stream error}, front stream = .reject error →
    ∀ rest, front (stream ++ rest) = .reject error

/-- The frames at the front of a stream, the error that ends them, and what is left. -/
structure Reading (α φ ε : Type) where
  frames : List φ
  error : Option ε
  rest : List α
  deriving DecidableEq

/-- A reading after earlier frames. -/
def Reading.after (earlier : List φ) (reading : Reading α φ ε) : Reading α φ ε :=
  { reading with frames := earlier ++ reading.frames }

namespace Grammar

variable (G : Grammar α φ ε) {stream stream' rest : List α} {value : φ} {error : ε} {size : Nat}

/-- Reads at most `fuel` frames. -/
def read : Nat → List α → Reading α φ ε
  | 0, stream => ⟨[], none, stream⟩
  | fuel + 1, stream =>
    match G.front stream with
    | .more => ⟨[], none, stream⟩
    | .reject error => ⟨[], some error, stream⟩
    | .frame value size => (read fuel (stream.drop size)).after [value]

/-- Reads all frames; each takes a symbol at least. -/
def parse (stream : List α) : Reading α φ ε := G.read (stream.length + 1) stream

theorem frame_append (h : G.front stream = .frame value size) (rest : List α) :
    G.front (stream ++ rest) = .frame value size := by
  have hlocal := (G.frame_local h).2.2 (stream.drop size ++ rest)
  rwa [← List.append_assoc, List.take_append_drop] at hlocal

/-- More fuel than symbols changes nothing. -/
theorem read_congr {fuel fuel' : Nat} (h : stream.length < fuel) (h' : stream.length < fuel') :
    G.read fuel stream = G.read fuel' stream := by
  induction fuel generalizing stream fuel' with
  | zero => exact absurd h (Nat.not_lt_zero _)
  | succ fuel ih =>
    cases fuel' with
    | zero => exact absurd h' (Nat.not_lt_zero _)
    | succ fuel' =>
      rw [read, read]
      cases hfront : G.front stream with
      | more => rfl
      | reject error => rfl
      | frame value size =>
        obtain ⟨hpos, hle, -⟩ := G.frame_local hfront
        have hshort : (stream.drop size).length < stream.length := by
          rw [List.length_drop]
          omega
        dsimp only
        rw [ih (hshort.trans_le (Nat.le_of_lt_succ h)) (hshort.trans_le (Nat.le_of_lt_succ h'))]

theorem parse_more (h : G.front stream = .more) : G.parse stream = ⟨[], none, stream⟩ := by
  rw [parse, read, h]

theorem parse_reject (h : G.front stream = .reject error) :
    G.parse stream = ⟨[], some error, stream⟩ := by
  rw [parse, read, h]

theorem parse_frame (h : G.front stream = .frame value size) :
    G.parse stream = (G.parse (stream.drop size)).after [value] := by
  obtain ⟨hpos, hle, -⟩ := G.frame_local h
  rw [parse, read, h]
  dsimp only
  rw [parse, G.read_congr _ (Nat.lt_succ_self _)]
  rw [List.length_drop]
  omega

/-- Induction over the frames at the front of a stream. -/
theorem induction {P : List α → Prop} (more : ∀ stream, G.front stream = .more → P stream)
    (reject : ∀ stream error, G.front stream = .reject error → P stream)
    (frame : ∀ stream value size, G.front stream = .frame value size → P (stream.drop size) →
      P stream) (stream : List α) : P stream := by
  induction hn : stream.length using Nat.strong_induction_on generalizing stream with
  | _ n ih =>
    cases hfront : G.front stream with
    | more => exact more stream hfront
    | reject error => exact reject stream error hfront
    | frame value size =>
      obtain ⟨hpos, hle, -⟩ := G.frame_local hfront
      refine frame stream value size hfront (ih _ ?_ _ rfl)
      rw [List.length_drop]
      omega

theorem front_rest (h : (G.parse stream).error = none) : G.front (G.parse stream).rest = .more := by
  induction stream using G.induction with
  | more stream hfront => rwa [G.parse_more hfront]
  | reject stream error hfront =>
    rw [G.parse_reject hfront] at h
    cases h
  | frame stream value size hfront ih =>
    rw [G.parse_frame hfront] at h ⊢
    exact ih h

theorem parse_append (h : (G.parse stream).error = none) (rest : List α) :
    G.parse (stream ++ rest) =
      (G.parse ((G.parse stream).rest ++ rest)).after (G.parse stream).frames := by
  induction stream using G.induction with
  | more stream hfront =>
    rw [G.parse_more hfront]
    rfl
  | reject stream error hfront =>
    rw [G.parse_reject hfront] at h
    cases h
  | frame stream value size hfront ih =>
    have hle := (G.frame_local hfront).2.1
    rw [G.parse_frame hfront] at h ⊢
    rw [G.parse_frame (G.frame_append hfront rest), List.drop_append_of_le_length hle, ih h]
    rfl

theorem parse_append_of_error (h : (G.parse stream).error = some error) (rest : List α) :
    (G.parse (stream ++ rest)).error = some error ∧
      (G.parse (stream ++ rest)).frames = (G.parse stream).frames := by
  induction stream using G.induction with
  | more stream hfront =>
    rw [G.parse_more hfront] at h
    cases h
  | reject stream error' hfront =>
    rw [G.parse_reject hfront] at h ⊢
    rw [G.parse_reject (G.reject_append hfront rest)]
    exact ⟨h, rfl⟩
  | frame stream value size hfront ih =>
    have hle := (G.frame_local hfront).2.1
    rw [G.parse_frame hfront] at h ⊢
    rw [G.parse_frame (G.frame_append hfront rest), List.drop_append_of_le_length hle]
    exact ⟨(ih h).1, congrArg (value :: ·) (ih h).2⟩

theorem error_none_of_append (h : (G.parse (stream ++ rest)).error = none) :
    (G.parse stream).error = none := by
  cases herror : (G.parse stream).error with
  | none => rfl
  | some error => rw [(G.parse_append_of_error herror rest).1] at h; cases h

theorem front_rest_of_error (h : (G.parse stream).error = some error) :
    G.front (G.parse stream).rest = .reject error := by
  induction stream using G.induction with
  | more stream hfront =>
    rw [G.parse_more hfront] at h
    cases h
  | reject stream error' hfront =>
    rw [G.parse_reject hfront] at h ⊢
    cases h
    exact hfront
  | frame stream value size hfront ih =>
    rw [G.parse_frame hfront] at h ⊢
    exact ih h

variable {encode : φ → List α}

/-- Where a frame can be written back, a stream is the frames that are read and what is left. -/
theorem flatMap_frames
    (h : ∀ {stream value size}, G.front stream = .frame value size →
      stream = encode value ++ stream.drop size) (stream : List α) :
    stream = (G.parse stream).frames.flatMap encode ++ (G.parse stream).rest := by
  induction stream using G.induction with
  | more stream hfront => rw [G.parse_more hfront, List.flatMap_nil, List.nil_append]
  | reject stream error hfront => rw [G.parse_reject hfront, List.flatMap_nil, List.nil_append]
  | frame stream value size hfront ih =>
    rw [G.parse_frame hfront]
    calc stream = encode value ++ stream.drop size := h hfront
      _ = encode value ++ ((G.parse (stream.drop size)).frames.flatMap encode ++
            (G.parse (stream.drop size)).rest) := congrArg (encode value ++ ·) ih
      _ = _ := (List.append_assoc ..).symm

/-- What holds of every frame at a front holds of every frame that is read. -/
theorem forall_frames {P : φ → Prop} (h : ∀ {stream value size}, G.front stream = .frame value size →
    P value) (stream : List α) : ∀ value ∈ (G.parse stream).frames, P value := by
  induction stream using G.induction with
  | more stream hfront => simp [G.parse_more hfront]
  | reject stream error hfront => simp [G.parse_reject hfront]
  | frame stream value size hfront ih =>
    rw [G.parse_frame hfront]
    intro other hmem
    rcases List.mem_cons.mp hmem with rfl | hmem
    · exact h hfront
    · exact ih other hmem

/-- Frames that are written one after the other are read back, whatever follows them. -/
theorem parse_flatMap_append {frames : List φ}
    (h : ∀ value ∈ frames, ∀ rest, G.front (encode value ++ rest) = .frame value (encode value).length)
    (rest : List α) : G.parse (frames.flatMap encode ++ rest) = (G.parse rest).after frames := by
  induction frames with
  | nil => rfl
  | cons value frames ih =>
    have hrest := ih fun other hmem => h other (.tail _ hmem)
    rw [List.flatMap_cons, List.append_assoc, G.parse_frame (h value (.head _) _),
      List.drop_left, hrest]
    rfl

theorem parse_flatMap {frames : List φ}
    (h : ∀ value ∈ frames, ∀ rest, G.front (encode value ++ rest) = .frame value (encode value).length) :
    G.parse (frames.flatMap encode) = ⟨frames, none, []⟩ := by
  have hparse := G.parse_flatMap_append h []
  rw [List.append_nil, G.parse_more G.front_nil] at hparse
  rw [hparse, Reading.after, List.append_nil]

theorem front_of_short (h : G.front (stream ++ rest) = .frame value size) (hshort : stream.length < size) :
    G.front stream = .more := by
  cases hfront : G.front stream with
  | more => rfl
  | reject error =>
    rw [G.reject_append hfront rest] at h
    cases h
  | frame value' size' =>
    have hle := (G.frame_local hfront).2.1
    rw [G.frame_append hfront rest] at h
    cases h
    omega

/-- How much of the last frame has arrived, when frames of these sizes are sent. -/
def unfinished : List Nat → Nat → Nat
  | [], arrived => arrived
  | size :: sizes, arrived => if size ≤ arrived then unfinished sizes (arrived - size) else arrived

theorem unfinished_lt {sizes : List Nat} {arrived bound : Nat} (hpos : 0 < bound)
    (hsizes : ∀ size ∈ sizes, size ≤ bound) (harrived : arrived ≤ sizes.sum) :
    unfinished sizes arrived < bound := by
  induction sizes generalizing arrived with
  | nil =>
    rw [List.sum_nil, Nat.le_zero] at harrived
    rw [harrived]
    exact hpos
  | cons size sizes ih =>
    rw [List.sum_cons] at harrived
    have hsize := hsizes size (.head _)
    rw [unfinished]
    split_ifs with hwhole
    · exact ih (fun other hmem => hsizes other (.tail _ hmem)) (by omega)
    · omega

theorem length_rest_take {frames : List φ} {arrived : Nat}
    (h : ∀ value ∈ frames, ∀ rest, G.front (encode value ++ rest) = .frame value (encode value).length)
    (harrived : arrived ≤ (frames.flatMap encode).length) :
    (G.parse ((frames.flatMap encode).take arrived)).rest.length =
      unfinished (frames.map fun value => (encode value).length) arrived := by
  induction frames generalizing arrived with
  | nil =>
    rw [List.flatMap_nil, List.length_nil, Nat.le_zero] at harrived
    rw [List.flatMap_nil, List.take_nil, G.parse_more G.front_nil, harrived]
    rfl
  | cons value frames ih =>
    have hvalue := h value (.head _)
    rw [List.flatMap_cons, List.length_append] at harrived
    rw [List.flatMap_cons, List.map_cons, unfinished]
    split_ifs with hwhole
    · have htake : (encode value ++ frames.flatMap encode).take arrived =
          encode value ++ (frames.flatMap encode).take (arrived - (encode value).length) := by
        rw [List.take_append, List.take_of_length_le hwhole]
      rw [htake, G.parse_frame (hvalue _), List.drop_left]
      exact ih (fun other hmem => h other (.tail _ hmem)) (by omega)
    · have hlength : ((encode value ++ frames.flatMap encode).take arrived).length = arrived := by
        rw [List.length_take, List.length_append]
        omega
      have hsplit : G.front ((encode value ++ frames.flatMap encode).take arrived ++
          (encode value ++ frames.flatMap encode).drop arrived) =
          .frame value (encode value).length := by
        rw [List.take_append_drop]
        exact hvalue _
      rw [G.parse_more (G.front_of_short hsplit (hlength.trans_lt (not_le.mp hwhole)))]
      exact hlength

/-! ### Frames with a header -/

/-- The front of a stream whose frames begin with a header of fixed size: the header tells the size
of the body, and both make the frame. -/
def headedFront (headerSize : Nat) (check : List α → Except ε Nat)
    (build : List α → List α → Except ε φ) (stream : List α) : Front φ ε :=
  if stream.length < headerSize then .more
  else
    match check (stream.take headerSize) with
    | .error error => .reject error
    | .ok bodySize =>
      if stream.length < headerSize + bodySize then .more
      else
        match build (stream.take headerSize) ((stream.drop headerSize).take bodySize) with
        | .error error => .reject error
        | .ok value => .frame value (headerSize + bodySize)

section Headed

omit G

variable {headerSize bodySize : Nat} {check : List α → Except ε Nat}
  {build : List α → List α → Except ε φ} {header body : List α}

theorem headedFront_frame (hheader : header.length = headerSize) (hbody : body.length = bodySize)
    (hcheck : check header = .ok bodySize) (hbuild : build header body = .ok value) (rest : List α) :
    headedFront headerSize check build (header ++ body ++ rest) =
      .frame value (headerSize + bodySize) := by
  have htake : (header ++ body ++ rest).take headerSize = header := by
    rw [List.append_assoc]
    exact List.take_left' hheader
  have hdrop : ((header ++ body ++ rest).drop headerSize).take bodySize = body := by
    rw [List.append_assoc, List.drop_left' hheader]
    exact List.take_left' hbody
  have hlength : (header ++ body ++ rest).length = headerSize + bodySize + rest.length := by
    rw [List.length_append, List.length_append, hheader, hbody]
  rw [headedFront, if_neg (by omega), htake, hcheck]
  dsimp only
  rw [if_neg (by omega), hdrop, hbuild]

theorem headedFront_of_lt (h : stream.length < headerSize) :
    headedFront headerSize check build stream = .more := if_pos h

theorem headedFront_of_error (h : headerSize ≤ stream.length)
    (hcheck : check (stream.take headerSize) = .error error) :
    headedFront headerSize check build stream = .reject error := by
  rw [headedFront, if_neg (not_lt.mpr h), hcheck]

theorem headedFront_of_ok (h : headerSize ≤ stream.length)
    (hcheck : check (stream.take headerSize) = .ok bodySize)
    (hbuild : build (stream.take headerSize) ((stream.drop headerSize).take bodySize) = .ok value) :
    headedFront headerSize check build stream =
      if stream.length < headerSize + bodySize then .more
      else .frame value (headerSize + bodySize) := by
  rw [headedFront, if_neg (not_lt.mpr h), hcheck]
  dsimp only
  rw [hbuild]

theorem headedFront_cases (h : headedFront headerSize check build stream = .frame value size) :
    ∃ header body rest bodySize, stream = header ++ body ++ rest ∧ header.length = headerSize ∧
      body.length = bodySize ∧ size = headerSize + bodySize ∧ check header = .ok bodySize ∧
      build header body = .ok value := by
  unfold headedFront at h
  split_ifs at h with hshort
  split at h
  · cases h
  · rename_i bodySize hcheck
    split_ifs at h with hbody
    split at h
    · cases h
    · rename_i hbuild
      cases h
      refine ⟨_, _, stream.drop (headerSize + bodySize), bodySize, ?_, ?_, ?_, rfl, hcheck, hbuild⟩
      · rw [List.append_assoc, ← List.drop_drop, List.take_append_drop, List.take_append_drop]
      · rw [List.length_take]
        omega
      · rw [List.length_take, List.length_drop]
        omega

theorem headedFront_reject_append (h : headedFront headerSize check build stream = .reject error)
    (rest : List α) : headedFront headerSize check build (stream ++ rest) = .reject error := by
  unfold headedFront at h
  split_ifs at h with hshort
  have htake : (stream ++ rest).take headerSize = stream.take headerSize :=
    List.take_append_of_le_length (by omega)
  have hlong : ¬(stream ++ rest).length < headerSize := by
    rw [List.length_append]
    omega
  rw [headedFront, if_neg hlong, htake]
  cases hcheck : check (stream.take headerSize) with
  | error error' =>
    rw [hcheck] at h
    exact h
  | ok bodySize =>
    rw [hcheck] at h
    dsimp only at h ⊢
    split_ifs at h with hbody
    have hbody' : ¬(stream ++ rest).length < headerSize + bodySize := by
      rw [List.length_append]
      omega
    have hdrop : ((stream ++ rest).drop headerSize).take bodySize =
        (stream.drop headerSize).take bodySize := by
      rw [List.drop_append_of_le_length (by omega), List.take_append_of_le_length]
      rw [List.length_drop]
      omega
    rw [if_neg hbody', hdrop]
    exact h

/-- Frames with a header make a grammar. -/
def headed (headerSize : Nat) (check : List α → Except ε Nat)
    (build : List α → List α → Except ε φ) (hpos : 0 < headerSize) : Grammar α φ ε where
  front := headedFront headerSize check build
  front_nil := if_pos hpos
  frame_local := by
    intro stream value size h
    obtain ⟨header, body, rest, bodySize, rfl, hheader, hbody, rfl, hcheck, hbuild⟩ :=
      headedFront_cases h
    refine ⟨by omega, by simp only [List.length_append]; omega, fun other => ?_⟩
    have hlength : (header ++ body).length = headerSize + bodySize := by
      rw [List.length_append, hheader, hbody]
    rw [List.take_left' hlength]
    exact headedFront_frame hheader hbody hcheck hbuild other
  reject_append := fun h => headedFront_reject_append h

end Headed

/-! ### Piece by piece -/

/-- The frames that a parser returns for the pieces of a stream, up to the piece in which there is an
error: the frames that stand before the error in this piece are lost. -/
def deliver (buffer : List α) : List (List α) → Reading α φ ε
  | [] => ⟨[], none, buffer⟩
  | piece :: pieces =>
    let reading := G.parse (buffer ++ piece)
    match reading.error with
    | none => (deliver reading.rest pieces).after reading.frames
    | some error => ⟨[], some error, reading.rest⟩

theorem deliver_error (buffer : List α) (pieces : List (List α)) (h : G.front buffer = .more) :
    (G.deliver buffer pieces).error = (G.parse (buffer ++ pieces.flatten)).error := by
  induction pieces generalizing buffer with
  | nil => rw [List.flatten_nil, List.append_nil, G.parse_more h]; rfl
  | cons piece pieces ih =>
    rw [deliver, List.flatten_cons, ← List.append_assoc]
    split
    · rename_i herror
      rw [G.parse_append herror]
      exact ih _ (G.front_rest herror)
    · rename_i error herror
      exact (G.parse_append_of_error herror _).1.symm

/-- Without an error the division of the stream does not matter. -/
theorem deliver_eq_parse (buffer : List α) (pieces : List (List α)) (h : G.front buffer = .more)
    (herror : (G.parse (buffer ++ pieces.flatten)).error = none) :
    G.deliver buffer pieces = G.parse (buffer ++ pieces.flatten) := by
  induction pieces generalizing buffer with
  | nil => rw [List.flatten_nil, List.append_nil, G.parse_more h]; rfl
  | cons piece pieces ih =>
    rw [List.flatten_cons, ← List.append_assoc] at herror ⊢
    have hpiece := G.error_none_of_append herror
    rw [G.parse_append hpiece] at herror ⊢
    rw [deliver, hpiece]
    dsimp only
    rw [ih _ (G.front_rest hpiece) herror]

/-- A single symbol completes one frame at most, and nothing is left of it then. -/
theorem frames_of_reject_single {buffer : List α} {symbol : α} (h : G.front buffer = .more)
    (herror : (G.parse (buffer ++ [symbol])).error = some error) :
    (G.parse (buffer ++ [symbol])).frames = [] := by
  cases hfront : G.front (buffer ++ [symbol]) with
  | more => rw [G.parse_more hfront]
  | reject error => rw [G.parse_reject hfront]
  | frame value size =>
    exfalso
    obtain ⟨hpos, hle, hlocal⟩ := G.frame_local hfront
    rw [List.length_append, List.length_singleton] at hle
    -- a frame that leaves the last symbol over would have been seen before it
    have hsize : size = buffer.length + 1 := by
      by_contra hne
      have hshort : size ≤ buffer.length := by omega
      have hbefore := hlocal (buffer.drop size)
      rw [List.take_append_of_le_length hshort, List.take_append_drop, h] at hbefore
      cases hbefore
    have hempty : (buffer ++ [symbol]).drop size = [] := by
      rw [List.drop_eq_nil_iff, List.length_append, List.length_singleton]
      omega
    rw [G.parse_frame hfront, hempty, G.parse_more G.front_nil] at herror
    cases herror

/-- Symbol by symbol no frame is lost. -/
theorem deliver_singles (buffer stream : List α) (h : G.front buffer = .more) :
    (G.deliver buffer (stream.map ([·]))).frames = (G.parse (buffer ++ stream)).frames := by
  induction stream generalizing buffer with
  | nil => rw [List.append_nil, G.parse_more h]; rfl
  | cons symbol stream ih =>
    have hsplit : buffer ++ symbol :: stream = (buffer ++ [symbol]) ++ stream := by simp
    rw [List.map_cons, deliver, hsplit]
    split
    · rename_i herror
      rw [G.parse_append herror]
      exact congrArg ((G.parse (buffer ++ [symbol])).frames ++ ·) (ih _ (G.front_rest herror))
    · rename_i error herror
      rw [(G.parse_append_of_error herror stream).2, G.frames_of_reject_single h herror]

end Grammar

end Framing
