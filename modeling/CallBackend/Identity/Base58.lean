import CallBackend.Basic
import CallBackend.Lib.Positional
import Mathlib.Data.List.GetD
import Mathlib.Data.List.Nodup

/-!
# Base58 and Qortal addresses

Public keys, signatures and addresses travel as Base58 text. Zero bytes at the front of a value
become the character `1`, one each; the rest is the number the bytes stand for, written to base 58.
The decoder counts the same characters again, and asks the number how many bytes it needs.

SHA-256 and RIPEMD-160 come from the Python library; of their digests only the lengths matter here.
-/

namespace CallBackend.Identity

def base58Alphabet : List Char :=
  "123456789ABCDEFGHJKLMNPQRSTUVWXYZabcdefghijkmnopqrstuvwxyz".toList

/-- `_BASE58_ALPHABET[remainder]`. -/
def base58Char (remainder : Nat) : Char := base58Alphabet.getD remainder '1'

/-- The loop of `base58_encode`: the characters of a number, the least significant first. -/
def base58Digits (number : Nat) : List Char :=
  if number = 0 then [] else base58Char (number % 58) :: base58Digits (number / 58)
termination_by number
decreasing_by omega

def base58Encode (value : Bytes) : String :=
  let zeroes := value.length - (value.dropWhile (· == 0)).length
  String.ofList (List.replicate zeroes '1' ++ (base58Digits (BigEndian.decode value)).reverse)

def invalidBase58 : Exn := .valueError "invalid Base58 value"

/-- `_BASE58_ALPHABET.find(c)`, for a character of the alphabet. -/
def base58Index (c : Char) : Nat := base58Alphabet.idxOf c

/-- The loop of `base58_decode`. -/
def base58Number (number : Nat) : List Char → Except Exn Nat
  | [] => .ok number
  | c :: text =>
    if c ∈ base58Alphabet then base58Number (number * 58 + base58Index c) text
    else .error invalidBase58

/-- Encoding the text as ASCII raises `UnicodeEncodeError`, which is a `ValueError`. -/
def base58Decode (value : Json) : Except Exn Bytes := do
  let some text := value.text? | throw invalidBase58
  if text = "" then throw invalidBase58
  if text.toList.any (fun c => decide (128 ≤ c.toNat)) then
    throw (.valueError "ordinal not in range(128)")
  let number ← base58Number 0 text.toList
  let decoded := if number ≠ 0 then BigEndian.encode (BigEndian.width number) number else []
  let zeroes := text.toList.length - (text.toList.dropWhile (· == '1')).length
  return List.replicate zeroes 0 ++ decoded

/-- `hashlib`. -/
structure Hashes where
  sha256 : Bytes → Bytes
  ripemd160 : Bytes → Bytes
  length_sha256 : ∀ bytes, (sha256 bytes).length = 32
  length_ripemd160 : ∀ bytes, (ripemd160 bytes).length = 20

def addressVersion : UInt8 := 58

def Hashes.checksum (hashes : Hashes) (versioned : Bytes) : Bytes :=
  (hashes.sha256 (hashes.sha256 versioned)).take 4

def qortalAddress (hashes : Hashes) (publicKey : Bytes) : Except Exn String :=
  if publicKey.length ≠ 32 then .error (.valueError "Qortal public key must be 32 bytes")
  else
    let digest := hashes.ripemd160 (hashes.sha256 publicKey)
    let versioned := addressVersion :: digest
    .ok (base58Encode (versioned ++ hashes.checksum versioned))

def isQortalAddress (hashes : Hashes) (value : Json) : Bool :=
  match base58Decode value with
  | .error _ => false
  | .ok decoded =>
    if decoded.length ≠ 25 ∨ decoded.head? ≠ some addressVersion then false
    else decoded.drop 21 = hashes.checksum (decoded.take 21)

/-! ### Characters and digits -/

/-- Not empty, and of characters of the alphabet only. -/
def IsBase58 (text : String) : Prop := text ≠ "" ∧ ∀ c ∈ text.toList, c ∈ base58Alphabet

theorem length_base58Alphabet : base58Alphabet.length = 58 := by decide

theorem nodup_base58Alphabet : base58Alphabet.Nodup := by decide +kernel

theorem ascii_of_mem {c : Char} (h : c ∈ base58Alphabet) : c.toNat < 128 := by
  have hall : base58Alphabet.all (fun c => decide (c.toNat < 128)) = true := rfl
  exact of_decide_eq_true (List.all_eq_true.1 hall c h)

theorem base58Index_lt {c : Char} (h : c ∈ base58Alphabet) : base58Index c < 58 := by
  rw [← length_base58Alphabet]
  exact List.idxOf_lt_length_of_mem h

theorem base58Char_mem {d : Nat} (h : d < 58) : base58Char d ∈ base58Alphabet := by
  rw [← length_base58Alphabet] at h
  rw [base58Char, List.getD_eq_getElem _ _ h]
  exact List.getElem_mem h

theorem base58Index_char {d : Nat} (h : d < 58) : base58Index (base58Char d) = d := by
  rw [← length_base58Alphabet] at h
  rw [base58Char, base58Index, List.getD_eq_getElem _ _ h]
  exact nodup_base58Alphabet.idxOf_getElem d h

theorem base58Char_index {c : Char} (h : c ∈ base58Alphabet) : base58Char (base58Index c) = c := by
  have hlt := List.idxOf_lt_length_of_mem h
  rw [base58Char, base58Index, List.getD_eq_getElem _ _ hlt]
  exact List.getElem_idxOf hlt

theorem base58Index_eq_zero {c : Char} (h : c ∈ base58Alphabet) (hzero : base58Index c = 0) : c = '1' := by
  rw [← base58Char_index h, hzero]
  rfl

theorem base58Digits_eq (number : Nat) :
    base58Digits number = (Nat.digits 58 number).map base58Char := by
  induction number using Nat.strong_induction_on with
  | _ number ih =>
    rw [base58Digits]
    split_ifs with hzero
    · rw [hzero, Nat.digits_zero, List.map_nil]
    · have hpos : 0 < number := Nat.pos_of_ne_zero hzero
      rw [Nat.digits_def' (by decide) hpos, List.map_cons, ih (number / 58) (by omega)]

theorem base58Number_ok {text : List Char} (h : ∀ c ∈ text, c ∈ base58Alphabet) (start : Nat) :
    base58Number start text =
      .ok ((text.map base58Index).foldl (fun n d => n * 58 + d) start) := by
  induction text generalizing start with
  | nil => rfl
  | cons c text ih =>
    rw [base58Number, if_pos (h c (.head _)), List.map_cons, List.foldl_cons]
    exact ih (fun c hc => h c (.tail _ hc)) _

theorem base58Number_error {text : List Char} (h : ∃ c ∈ text, c ∉ base58Alphabet) (start : Nat) :
    base58Number start text = .error invalidBase58 := by
  induction text generalizing start with
  | nil => exact absurd h.choose_spec.1 List.not_mem_nil
  | cons c text ih =>
    rw [base58Number]
    split_ifs with hc
    · obtain ⟨other, hother, habsent⟩ := h
      rcases List.mem_cons.mp hother with rfl | hother
      · exact absurd hc habsent
      · exact ih ⟨other, hother, habsent⟩ _
    · rfl

/-! ### Numerals -/

theorem base58Decode_numeral {k : Nat} {rest : List Char} (hne : List.replicate k '1' ++ rest ≠ [])
    (hmem : ∀ c ∈ rest, c ∈ base58Alphabet) (hhead : rest.head? ≠ some '1') :
    base58Decode (.str (String.ofList (List.replicate k '1' ++ rest))) =
      .ok (List.replicate k 0 ++
        BigEndian.encode (BigEndian.width (Positional.value 58 (rest.map base58Index)))
          (Positional.value 58 (rest.map base58Index))) := by
  have hall : ∀ c ∈ List.replicate k '1' ++ rest, c ∈ base58Alphabet := by
    intro c hc
    rcases List.mem_append.mp hc with hc | hc
    · rw [(List.mem_replicate.mp hc).2]
      decide
    · exact hmem c hc
  have hascii : (List.replicate k '1' ++ rest).any (fun c => decide (128 ≤ c.toNat)) = false := by
    rw [List.any_eq_false]
    intro c hc
    have hlt := ascii_of_mem (hall c hc)
    simpa using hlt
  have hnumber : base58Number 0 (List.replicate k '1' ++ rest) =
      .ok (Positional.value 58 (rest.map base58Index)) := by
    have hone : base58Index '1' = 0 := rfl
    rw [base58Number_ok hall, List.map_append, List.map_replicate, hone]
    exact congrArg Except.ok (Positional.value_zeros k _)
  have htext : String.ofList (List.replicate k '1' ++ rest) ≠ "" := by
    intro h
    apply hne
    rw [← String.toList_ofList (l := List.replicate k '1' ++ rest), h]
    rfl
  have hdecoded : ∀ n : Nat, (if n ≠ 0 then BigEndian.encode (BigEndian.width n) n else []) =
      BigEndian.encode (BigEndian.width n) n := by
    intro n
    split_ifs with hn
    · rfl
    · rw [not_not.mp hn]
      rfl
  simp only [base58Decode, Json.text?, if_neg htext, String.toList_ofList, hascii, hnumber, hdecoded,
    Positional.length_sub_dropWhile '1' k hhead]
  rfl

theorem base58Encode_zeros (k : Nat) {rest : Bytes} (hhead : rest.head? ≠ some 0) :
    base58Encode (List.replicate k 0 ++ rest) =
      String.ofList (List.replicate k '1' ++
        (Nat.digits 58 (BigEndian.decode rest)).reverse.map base58Char) := by
  rw [base58Encode, Positional.length_sub_dropWhile 0 k hhead, BigEndian.decode_zeros,
    base58Digits_eq, List.map_reverse]

/-! ### The two directions -/

theorem base58Decode_encode {bytes : Bytes} (h : bytes ≠ []) :
    base58Decode (.str (base58Encode bytes)) = .ok bytes := by
  obtain ⟨k, rest, rfl, hhead⟩ := Positional.exists_zeros (0 : UInt8) bytes
  let digits := (Nat.digits 58 (BigEndian.decode rest)).reverse
  have hlt : ∀ d ∈ digits, d < 58 := fun d hd =>
    Nat.digits_lt_base (by decide) (List.mem_reverse.mp hd)
  have hindex : (digits.map base58Char).map base58Index = digits := by
    rw [List.map_map]
    exact (List.map_congr_left fun d hd => base58Index_char (hlt d hd)).trans (List.map_id _)
  have hmem : ∀ c ∈ digits.map base58Char, c ∈ base58Alphabet := by
    intro c hc
    obtain ⟨d, hd, rfl⟩ := List.mem_map.mp hc
    exact base58Char_mem (hlt d hd)
  have hfirst : (digits.map base58Char).head? ≠ some '1' := by
    intro hone
    apply Positional.head?_digits 58 (BigEndian.decode rest)
    have hzero := congrArg (Option.map base58Index) hone
    rw [← List.head?_map, hindex] at hzero
    exact hzero
  have hne : List.replicate k '1' ++ digits.map base58Char ≠ [] := by
    intro hnil
    obtain ⟨hk, hdigits⟩ := List.append_eq_nil_iff.mp hnil
    have hzero : BigEndian.decode rest = 0 := by
      have hvalue : Positional.value 58 digits = BigEndian.decode rest :=
        Positional.value_digits 58 (BigEndian.decode rest)
      rw [← hvalue, List.map_eq_nil_iff.mp hdigits]
      rfl
    have hrest := BigEndian.encode_width_decode hhead
    rw [hzero] at hrest
    apply h
    rw [(List.replicate_eq_nil_iff _).mp hk, ← hrest]
    rfl
  rw [base58Encode_zeros k hhead, base58Decode_numeral hne hmem hfirst, hindex,
    Positional.value_digits, BigEndian.encode_width_decode hhead]

variable {text : String}

theorem base58Encode_decode (h : IsBase58 text) :
    ∃ bytes, base58Decode (.str text) = .ok bytes ∧ base58Encode bytes = text := by
  obtain ⟨hne, hall⟩ := h
  obtain ⟨k, rest, hsplit, hhead⟩ := Positional.exists_zeros '1' text.toList
  have htext : text = String.ofList (List.replicate k '1' ++ rest) := by
    rw [← hsplit, String.ofList_toList]
  have hmem : ∀ c ∈ rest, c ∈ base58Alphabet := by
    intro c hc
    apply hall
    rw [hsplit]
    exact List.mem_append_right _ hc
  have hnil : List.replicate k '1' ++ rest ≠ [] := by
    intro hnil
    exact hne (htext.trans (congrArg String.ofList hnil))
  let number := Positional.value 58 (rest.map base58Index)
  have hdigits : (Nat.digits 58 number).reverse = rest.map base58Index := by
    apply Positional.digits_value (by decide)
    · intro d hd
      obtain ⟨c, hc, rfl⟩ := List.mem_map.mp hd
      exact base58Index_lt (hmem c hc)
    · intro hzero
      rw [List.head?_map, Option.map_eq_some_iff] at hzero
      obtain ⟨c, hc, hindex⟩ := hzero
      exact hhead (hc.trans (congrArg some (base58Index_eq_zero (hmem c (List.mem_of_head? hc)) hindex)))
  have hchars : (rest.map base58Index).map base58Char = rest := by
    rw [List.map_map]
    exact (List.map_congr_left fun c hc => base58Char_index (hmem c hc)).trans (List.map_id _)
  refine ⟨_, htext ▸ base58Decode_numeral hnil hmem hhead, ?_⟩
  rw [base58Encode_zeros k (BigEndian.head?_encode_width number),
    BigEndian.decode_encode (BigEndian.lt_width number), hdigits, hchars, htext]

theorem base58Decode_error (h : ¬IsBase58 text) :
    ∃ message, base58Decode (.str text) = .error (.valueError message) := by
  by_cases hempty : text = ""
  · exact ⟨_, by simp only [base58Decode, Json.text?, if_pos hempty]; rfl⟩
  · have hbad : ∃ c ∈ text.toList, c ∉ base58Alphabet := by
      by_contra hall
      exact h ⟨hempty, fun c hc => by_contra fun habsent => hall ⟨c, hc, habsent⟩⟩
    cases hascii : text.toList.any (fun c => decide (128 ≤ c.toNat)) with
    | true => exact ⟨_, by simp only [base58Decode, Json.text?, if_neg hempty, hascii]; rfl⟩
    | false =>
      refine ⟨"invalid Base58 value", ?_⟩
      simp only [base58Decode, Json.text?, if_neg hempty, hascii, base58Number_error hbad]
      rfl

theorem isBase58_of_decode {bytes : Bytes}
    (h : base58Decode (.str text) = .ok bytes) : IsBase58 text := by
  by_contra hnot
  obtain ⟨message, herror⟩ := base58Decode_error hnot
  rw [h] at herror
  exact nomatch herror

theorem base58Encode_of_decode {bytes : Bytes}
    (h : base58Decode (.str text) = .ok bytes) : base58Encode bytes = text := by
  obtain ⟨other, hdecode, hencode⟩ := base58Encode_decode (isBase58_of_decode h)
  rw [h] at hdecode
  rw [Except.ok.inj hdecode, hencode]

/-! ### Addresses -/

theorem isQortalAddress_of_key (hashes : Hashes) {key : Bytes} (h : key.length = 32) :
    ∃ address, qortalAddress hashes key = .ok address ∧
      isQortalAddress hashes (.str address) = true := by
  let versioned := addressVersion :: hashes.ripemd160 (hashes.sha256 key)
  have hversioned : versioned.length = 21 := by
    rw [List.length_cons, hashes.length_ripemd160]
  have hchecksum : (hashes.checksum versioned).length = 4 := by
    rw [Hashes.checksum, List.length_take, hashes.length_sha256]
    rfl
  have hdecode : base58Decode (.str (base58Encode (versioned ++ hashes.checksum versioned))) =
      .ok (versioned ++ hashes.checksum versioned) := base58Decode_encode (List.cons_ne_nil _ _)
  refine ⟨_, by rw [qortalAddress, if_neg (not_not.mpr h)], ?_⟩
  have hshape : ¬((versioned ++ hashes.checksum versioned).length ≠ 25 ∨
      (versioned ++ hashes.checksum versioned).head? ≠ some addressVersion) := by
    rw [List.length_append, hversioned, hchecksum]
    exact not_or.mpr ⟨not_not.mpr rfl, not_not.mpr rfl⟩
  change isQortalAddress hashes (.str (base58Encode (versioned ++ hashes.checksum versioned))) = true
  rw [isQortalAddress, hdecode]
  change (if _ then false else decide _) = true
  rw [if_neg hshape, List.drop_left' hversioned, List.take_left' hversioned]
  exact decide_eq_true rfl

/-- Base58 is a bijection between byte strings that are not empty and texts that are not empty and
of the alphabet; the decoder refuses every other text. So different texts of public keys stand for
different keys, and the address of every public key is recognised. -/
theorem base58_bijective (hashes : Hashes) :
    (∀ bytes : Bytes, bytes ≠ [] → base58Decode (.str (base58Encode bytes)) = .ok bytes) ∧
    (∀ text, IsBase58 text →
      ∃ bytes, base58Decode (.str text) = .ok bytes ∧ base58Encode bytes = text) ∧
    (∀ text, ¬IsBase58 text → ∃ message, base58Decode (.str text) = .error (.valueError message)) ∧
    (∀ text text' key, base58Decode (.str text) = .ok key → base58Decode (.str text') = .ok key →
      text = text') ∧
    ∀ key : Bytes, key.length = 32 → ∃ address, qortalAddress hashes key = .ok address ∧
      isQortalAddress hashes (.str address) = true := by
  refine ⟨fun _ => base58Decode_encode, fun _ => base58Encode_decode, fun _ => base58Decode_error,
    fun text text' key h h' => ?_, fun _ => isQortalAddress_of_key hashes⟩
  rw [← base58Encode_of_decode h, base58Encode_of_decode h']

end CallBackend.Identity
