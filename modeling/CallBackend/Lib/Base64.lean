import CallBackend.Lib.Json

/-!
# Encoding to base64

Three bytes become four sextets; one or two bytes that are left over become two or three, and
padding makes up for what is missing. Decoding the sextets gives the bytes back.
-/

namespace Base64

/-- The sextets of a byte string; the bits that are missing at the end are zero. -/
def encodeSextets : Bytes → List Nat
  | a :: b :: c :: rest =>
    a.toNat / 4 :: (a.toNat % 4 * 16 + b.toNat / 16) :: (b.toNat % 16 * 4 + c.toNat / 64) ::
      c.toNat % 64 :: encodeSextets rest
  | [a, b] => [a.toNat / 4, a.toNat % 4 * 16 + b.toNat / 16, b.toNat % 16 * 4]
  | [a] => [a.toNat / 4, a.toNat % 4 * 16]
  | [] => []

/-- The URL-safe character for a sextet. -/
def urlChar (n : Nat) : Char :=
  if n < 26 then Char.ofNat ('A'.toNat + n)
  else if n < 52 then Char.ofNat ('a'.toNat + (n - 26))
  else if n < 62 then Char.ofNat ('0'.toNat + (n - 52))
  else if n = 62 then '-'
  else '_'

def paddingFor (length : Nat) : Nat := (3 - length % 3) % 3

theorem encodeSextets_lt (bytes : Bytes) : ∀ n ∈ encodeSextets bytes, n < 64 := by
  fun_induction encodeSextets bytes with
  | case1 a b c rest ih =>
    have ha := a.toNat_lt
    have hb := b.toNat_lt
    have hc := c.toNat_lt
    simp only [List.forall_mem_cons]
    exact ⟨by omega, by omega, by omega, by omega, ih⟩
  | case2 a b =>
    have ha := a.toNat_lt
    have hb := b.toNat_lt
    simp only [List.forall_mem_cons]
    exact ⟨by omega, by omega, by omega, nofun⟩
  | case3 a =>
    have ha := a.toNat_lt
    simp only [List.forall_mem_cons]
    exact ⟨by omega, by omega, nofun⟩
  | case4 => exact nofun

theorem length_encodeSextets (bytes : Bytes) :
    (encodeSextets bytes).length = (4 * bytes.length + 2) / 3 := by
  fun_induction encodeSextets bytes with
  | case1 a b c rest ih =>
    simp only [List.length_cons, ih]
    omega
  | case2 a b => simp only [List.length_cons, List.length_nil]
  | case3 a => simp only [List.length_cons, List.length_nil]
  | case4 => rfl

theorem length_cases (length : Nat) : ∃ q,
    ((4 * length + 2) / 3 = 4 * q ∧ paddingFor length = 0) ∨
      ((4 * length + 2) / 3 = 4 * q + 2 ∧ paddingFor length = 2) ∨
      ((4 * length + 2) / 3 = 4 * q + 3 ∧ paddingFor length = 1) := by
  refine ⟨length / 3, ?_⟩
  have hthree : length % 3 = 0 ∨ length % 3 = 1 ∨ length % 3 = 2 := by omega
  rcases hthree with h | h | h
  · exact .inl ⟨by omega, by rw [paddingFor, h]⟩
  · exact .inr (.inl ⟨by omega, by rw [paddingFor, h]⟩)
  · exact .inr (.inr ⟨by omega, by rw [paddingFor, h]⟩)

theorem ofNat_eq (byte : UInt8) {n : Nat} (h : n % 256 = byte.toNat) : UInt8.ofNat n = byte := by
  apply UInt8.toNat_inj.mp
  rw [UInt8.toNat_ofNat', h]

theorem decodeSextets_encodeSextets (bytes : Bytes) : decodeSextets (encodeSextets bytes) = bytes := by
  fun_induction encodeSextets bytes with
  | case1 a b c rest ih =>
    have ha := a.toNat_lt
    have hb := b.toNat_lt
    have hc := c.toNat_lt
    rw [decodeSextets, ih, ofNat_eq a (by omega), ofNat_eq b (by omega),
      ofNat_eq c (by omega)]
  | case2 a b =>
    have ha := a.toNat_lt
    have hb := b.toNat_lt
    rw [decodeSextets, ofNat_eq a (by omega), ofNat_eq b (by omega)]
  | case3 a =>
    have ha := a.toNat_lt
    rw [decodeSextets, ofNat_eq a (by omega)]
  | case4 => rfl

theorem decode_encodeSextets (bytes : Bytes) (padding : Nat) :
    decode (encodeSextets bytes) padding =
      if paddingFor bytes.length ≤ padding then some bytes else none := by
  rw [decode, length_encodeSextets, decodeSextets_encodeSextets]
  obtain ⟨q, ⟨hlength, hpadding⟩ | ⟨hlength, hpadding⟩ | ⟨hlength, hpadding⟩⟩ :=
    length_cases bytes.length
  · rw [hlength, hpadding, Nat.mul_mod_right]
    exact (if_pos (Nat.zero_le _)).symm
  · rw [hlength, hpadding, Nat.mul_add_mod]
    rfl
  · rw [hlength, hpadding, Nat.mul_add_mod]
    rfl

theorem urlSextet_urlChar {n : Nat} (h : n < 64) : urlSextet (urlChar n) = some n := by
  have hall : ∀ n : Fin 64, urlSextet (urlChar n) = some n.val := by decide +kernel
  exact hall ⟨n, h⟩

theorem filterMap_urlChar {sextets : List Nat} (h : ∀ n ∈ sextets, n < 64) :
    (sextets.map urlChar).filterMap urlSextet = sextets := by
  induction sextets with
  | nil => rfl
  | cons n sextets ih =>
    rw [List.map_cons, List.filterMap_cons_some (urlSextet_urlChar (h n (.head _))),
      ih fun m hm => h m (.tail _ hm)]

end Base64
