import CallBackend.Lib.Framing
import Mathlib.Data.Nat.Digits.Lemmas
import Mathlib.Data.Nat.Size

/-!
# Positional notation with leading zeros

A number does not tell how many zeros stand in front of its digits. A text or a byte string is
therefore taken apart into its leading zeros and a numeral that does not begin with one; the
numeral and its value determine each other, in every base.
-/

namespace Positional

/-! ### Leading zeros -/

section Leading

variable {α : Type} [DecidableEq α]

theorem dropWhile_zeros (zero : α) (k : Nat) {rest : List α} (h : rest.head? ≠ some zero) :
    (List.replicate k zero ++ rest).dropWhile (· == zero) = rest := by
  induction k with
  | zero =>
    cases rest with
    | nil => rfl
    | cons first rest =>
      have hfirst : first ≠ zero := fun heq => h (by rw [heq, List.head?_cons])
      simp [hfirst]
  | succ k ih => simpa [List.replicate_succ] using ih

theorem length_sub_dropWhile (zero : α) (k : Nat) {rest : List α} (h : rest.head? ≠ some zero) :
    (List.replicate k zero ++ rest).length -
      ((List.replicate k zero ++ rest).dropWhile (· == zero)).length = k := by
  rw [dropWhile_zeros zero k h, List.length_append, List.length_replicate, Nat.add_sub_cancel]

theorem exists_zeros (zero : α) (l : List α) :
    ∃ k rest, l = List.replicate k zero ++ rest ∧ rest.head? ≠ some zero := by
  induction l with
  | nil => exact ⟨0, [], rfl, nofun⟩
  | cons first l ih =>
    by_cases hfirst : first = zero
    · obtain ⟨k, rest, hl, hrest⟩ := ih
      exact ⟨k + 1, rest, by rw [hfirst, hl, List.replicate_succ, List.cons_append], hrest⟩
    · refine ⟨0, first :: l, rfl, fun h => hfirst ?_⟩
      rw [List.head?_cons] at h
      exact Option.some.inj h

end Leading

/-! ### Numerals -/

section Numerals

variable {base : Nat}

def value (base : Nat) (digits : List Nat) : Nat := digits.foldl (fun n d => n * base + d) 0

theorem value_eq_ofDigits (digits : List Nat) :
    value base digits = Nat.ofDigits base digits.reverse := by
  rw [value, Nat.ofDigits_eq_foldr, List.foldr_reverse]
  congr 1
  funext n d
  rw [Nat.cast_id, Nat.add_comm, Nat.mul_comm]

theorem value_zeros (k : Nat) (digits : List Nat) :
    value base (List.replicate k 0 ++ digits) = value base digits := by
  induction k with
  | zero => rfl
  | succ k ih =>
    rw [List.replicate_succ, List.cons_append, value, List.foldl_cons, Nat.zero_mul, Nat.zero_add]
    exact ih

theorem digits_value (hbase : 1 < base) {digits : List Nat} (hlt : ∀ d ∈ digits, d < base)
    (hhead : digits.head? ≠ some 0) :
    (Nat.digits base (value base digits)).reverse = digits := by
  have hlast : ∀ h : digits.reverse ≠ [], digits.reverse.getLast h ≠ 0 := by
    intro h hzero
    apply hhead
    rw [← List.getLast?_reverse, List.getLast?_eq_some_getLast h, hzero]
  have hdigits := Nat.digits_ofDigits base hbase digits.reverse
    (fun d hd => hlt d (List.mem_reverse.mp hd)) hlast
  rw [value_eq_ofDigits, hdigits, List.reverse_reverse]

variable (base) in
theorem value_digits (n : Nat) : value base (Nat.digits base n).reverse = n := by
  rw [value_eq_ofDigits, List.reverse_reverse, Nat.ofDigits_digits]

variable (base) in
theorem head?_digits (n : Nat) : (Nat.digits base n).reverse.head? ≠ some 0 := by
  intro h
  rw [List.head?_reverse] at h
  by_cases hn : n = 0
  · rw [hn, Nat.digits_zero] at h
    exact nomatch h
  · rw [List.getLast?_eq_some_getLast (Nat.digits_ne_nil_iff_ne_zero.mpr hn)] at h
    exact Nat.getLast_digit_ne_zero base hn (Option.some.inj h)

end Numerals

end Positional

/-! ### Big-endian numbers of minimal width -/

namespace BigEndian

/-- The number of bytes a number needs: `(n.bit_length() + 7) // 8`. -/
def width (n : Nat) : Nat := (n.size + 7) / 8

theorem lt_width (n : Nat) : n < 256 ^ width n := by
  have hbits : n < 2 ^ (8 * width n) := by
    rw [← Nat.size_le]
    unfold width
    omega
  rwa [pow_mul] at hbits

theorem pow_le_of_width {n w : Nat} (h : width n = w + 1) : 256 ^ w ≤ n := by
  have hbits : 2 ^ (8 * w) ≤ n := by
    rw [← Nat.lt_size]
    unfold width at h
    omega
  rwa [pow_mul] at hbits

/-- The width is the least one that holds the number. -/
theorem width_eq {n w : Nat} (hlt : n < 256 ^ (w + 1)) (hle : 256 ^ w ≤ n) : width n = w + 1 := by
  have hupper : n.size ≤ 8 * (w + 1) := by
    rw [Nat.size_le, pow_mul]
    exact hlt
  have hlower : 8 * w < n.size := by
    rw [Nat.lt_size, pow_mul]
    exact hle
  unfold width
  omega

theorem width_decode {bytes : List UInt8} (h : bytes.head? ≠ some 0) :
    width (decode bytes) = bytes.length := by
  cases bytes with
  | nil => rfl
  | cons byte bytes =>
    have hvalue : decode (byte :: bytes) = byte.toNat * 256 ^ bytes.length + decode bytes := by
      have hbyte : decode [byte] = byte.toNat := by simp [decode]
      rw [← hbyte]
      exact decode_append [byte] bytes
    have hpos : 0 < byte.toNat := by
      rw [Nat.pos_iff_ne_zero]
      intro hzero
      apply h
      rw [List.head?_cons, UInt8.toNat_inj.mp (hzero.trans UInt8.toNat_zero.symm)]
    have hle : 256 ^ bytes.length ≤ decode (byte :: bytes) := by
      rw [hvalue]
      have hmul := Nat.le_mul_of_pos_left (256 ^ bytes.length) hpos
      omega
    exact width_eq (decode_lt (byte :: bytes)) hle

theorem head?_encode_width (n : Nat) : (encode (width n) n).head? ≠ some 0 := by
  cases hw : width n with
  | zero => exact nofun
  | succ w =>
    intro h
    rw [encode, List.head?_cons, Option.some.injEq] at h
    have hlow := pow_le_of_width hw
    have hhigh : n / 256 ^ w < 256 := by
      have hlt := lt_width n
      rw [hw, pow_succ] at hlt
      exact Nat.div_lt_of_lt_mul hlt
    have hpos : 0 < n / 256 ^ w := Nat.div_pos hlow (by positivity)
    have hzero : (UInt8.ofNat (n / 256 ^ w)).toNat = 0 := by rw [h, UInt8.toNat_zero]
    rw [UInt8.toNat_ofNat', Nat.mod_eq_of_lt hhigh] at hzero
    omega

theorem encode_width_decode {bytes : List UInt8} (h : bytes.head? ≠ some 0) :
    encode (width (decode bytes)) (decode bytes) = bytes := by
  rw [width_decode h, encode_decode]

theorem decode_zeros (k : Nat) (bytes : List UInt8) :
    decode (List.replicate k 0 ++ bytes) = decode bytes := by
  induction k with
  | zero => rfl
  | succ k ih =>
    rw [List.replicate_succ, List.cons_append, decode, List.foldl_cons]
    exact ih

end BigEndian
