import CallBackend.Lib.Base64
import CallBackend.Call.Message

/-!
# Padding in base64url fields

Keys, tokens, hashes, nonces and signatures are base64url text with up to two `=` at the end. The
decoder is given the text without them and padding of its own, whose length is computed from the
text as it came. So a text that came with the padding it needs is decoded without any, which works
when it needs none.
-/

namespace CallBackend.Call

open Base64

/-- The base64url text of a byte string, without padding. -/
def base64url (bytes : Bytes) : String := String.ofList ((encodeSextets bytes).map urlChar)

def paddedBase64url (bytes : Bytes) : String :=
  String.ofList ((encodeSextets bytes).map urlChar ++ List.replicate (paddingFor bytes.length) '=')

def TakenFor (text : String) (bytes : Bytes) : Prop :=
  decodeBase64url (.str text) none = .ok bytes ∧
    ∀ length, (decodeBase64url (.str text) (some length)).toBool = true ↔ bytes.length = length

/-- The end of `_decode_base64url`. -/
def checkLength (bytes : Bytes) : Option Nat → Except Exn Bytes
  | some length =>
    if bytes.length = length then .ok bytes else .error (.valueError "invalid key length")
  | none => .ok bytes

theorem isIdChar_urlChar {n : Nat} (h : n < 64) : isIdChar (urlChar n) = true := by
  have hall : ∀ n : Fin 64, isIdChar (urlChar n) = true := by decide +kernel
  exact hall ⟨n, h⟩

variable {bytes : Bytes}

theorem base64urlParts_text {padding : Nat} (hne : bytes ≠ []) (hpadding : padding ≤ 2) :
    base64urlParts (String.ofList ((encodeSextets bytes).map urlChar ++ List.replicate padding '=')) =
      some ((encodeSextets bytes).map urlChar, List.replicate padding '=') := by
  have hid : ∀ c ∈ (encodeSextets bytes).map urlChar, isIdChar c = true := by
    intro c hc
    obtain ⟨n, hn, rfl⟩ := List.mem_map.mp hc
    exact isIdChar_urlChar (encodeSextets_lt bytes n hn)
  have hbody : ∀ c ∈ (encodeSextets bytes).map urlChar, decide (c ≠ '=') = true := by
    intro c hc
    refine decide_eq_true fun heq => ?_
    have hfalse := hid c hc
    rw [heq] at hfalse
    exact absurd hfalse (by decide)
  have htail : (List.replicate padding '=').takeWhile (fun c => decide (c ≠ '=')) = [] ∧
      (List.replicate padding '=').dropWhile (fun c => decide (c ≠ '=')) =
        List.replicate padding '=' := by
    cases padding with
    | zero => exact ⟨rfl, rfl⟩
    | succ padding => exact ⟨rfl, rfl⟩
  have hnonempty : ((encodeSextets bytes).map urlChar).isEmpty = false := by
    rw [List.isEmpty_eq_false_iff, Ne, List.map_eq_nil_iff, ← List.length_eq_zero_iff,
      length_encodeSextets]
    have hlength := List.length_pos_iff.mpr hne
    omega
  have hequals : (List.replicate padding '=').all (· == '=') = true := by simp
  simp only [base64urlParts, String.toList_ofList, List.takeWhile_append_of_pos hbody,
    List.dropWhile_append_of_pos hbody, htail, List.append_nil, hnonempty, hequals,
    List.all_eq_true.mpr hid, List.length_replicate, hpadding]
  rfl

theorem decodeBase64url_text {padding : Nat} (hne : bytes ≠ []) (hpadding : padding ≤ 2)
    (expected : Option Nat) :
    decodeBase64url (.str (String.ofList
        ((encodeSextets bytes).map urlChar ++ List.replicate padding '='))) expected =
      if paddingFor bytes.length ≤ (4 - ((4 * bytes.length + 2) / 3 + padding) % 4) % 4 then
        checkLength bytes expected
      else .error (.valueError "invalid base64url value") := by
  simp only [decodeBase64url, Json.text?, base64urlParts_text hne hpadding, String.toList_ofList,
    filterMap_urlChar (encodeSextets_lt bytes), List.length_append, List.length_map,
    length_encodeSextets, List.length_replicate, decode_encodeSextets]
  split_ifs
  · cases expected with
    | none => rfl
    | some length => rfl
  · rfl

theorem takenFor_of_eq {text : String}
    (h : ∀ expected, decodeBase64url (.str text) expected = checkLength bytes expected) :
    TakenFor text bytes := by
  refine ⟨h none, fun length => ?_⟩
  rw [h, checkLength]
  split_ifs with hlength
  · exact iff_of_true rfl hlength
  · exact iff_of_false Bool.false_ne_true hlength

theorem takenFor_base64url (hne : bytes ≠ []) : TakenFor (base64url bytes) bytes := by
  apply takenFor_of_eq
  intro expected
  have htext : base64url bytes =
      String.ofList ((encodeSextets bytes).map urlChar ++ List.replicate 0 '=') := by
    rw [List.replicate_zero, List.append_nil, base64url]
  rw [htext, decodeBase64url_text hne (Nat.zero_le 2), if_pos]
  obtain ⟨q, hcases⟩ := length_cases bytes.length
  omega

theorem decodeBase64url_padded (hne : bytes ≠ []) (expected : Option Nat) :
    decodeBase64url (.str (paddedBase64url bytes)) expected =
      if 3 ∣ bytes.length then checkLength bytes expected
      else .error (.valueError "invalid base64url value") := by
  have hpadding : paddingFor bytes.length ≤ 2 := by
    unfold paddingFor
    omega
  have hcomputed : (4 - ((4 * bytes.length + 2) / 3 + paddingFor bytes.length) % 4) % 4 = 0 := by
    obtain ⟨q, hcases⟩ := length_cases bytes.length
    omega
  have hdvd : paddingFor bytes.length ≤ 0 ↔ 3 ∣ bytes.length := by
    unfold paddingFor
    omega
  rw [paddedBase64url, decodeBase64url_text hne hpadding, hcomputed]
  exact if_congr hdvd rfl rfl

/-- A text without padding is always taken for the bytes it encodes. A text with the padding that
belongs to it is if and only if that padding is empty. -/
theorem padding_optional_iff (hne : bytes ≠ []) :
    TakenFor (base64url bytes) bytes ∧
      (TakenFor (base64url bytes) bytes ∧ TakenFor (paddedBase64url bytes) bytes ↔
        3 ∣ bytes.length) := by
  have hplain := takenFor_base64url hne
  refine ⟨hplain, fun h => ?_, fun hdvd => ⟨hplain, ?_⟩⟩
  · by_contra hdvd
    have hrefused := h.2.1
    rw [decodeBase64url_padded hne, if_neg hdvd] at hrefused
    exact nomatch hrefused
  · apply takenFor_of_eq
    intro expected
    rw [decodeBase64url_padded hne, if_pos hdvd]

theorem padding_optional_iff_nonce : TakenFor (paddedBase64url (List.replicate 12 7))
    (List.replicate 12 7) :=
  ((padding_optional_iff (List.cons_ne_nil 7 (List.replicate 11 7))).2.mpr (by decide)).2

/-- A key of 32 bytes is accepted without padding and refused with it. -/
theorem padded_key_refused :
    decodeBase64url (.str (base64url (List.replicate 32 7))) (some 32) =
        .ok (List.replicate 32 7) ∧
      decodeBase64url (.str (paddedBase64url (List.replicate 32 7))) (some 32) =
        .error (.valueError "invalid base64url value") := by
  decide +kernel

end CallBackend.Call
