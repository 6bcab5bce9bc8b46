import Mathlib.Data.List.Basic
import Mathlib.Tactic.IntervalCases

/-!
# JSON text

Flat JSON objects as text: every member is a string or a natural number. The writer makes ASCII text
without blanks and escapes every other character, those outside the basic plane as two surrogates. A
second writer leaves the characters beyond ASCII as they are. The reader takes such texts, decodes
all escapes and joins surrogates; an unpaired surrogate becomes the replacement character.

What the writer makes is read back, and a text that breaks off is no object.
-/

namespace JsonText

/-! ### Readers -/

/-- Reads a value from the front of a text, and leaves the rest. -/
abbrev Reader (α : Type) : Type := List Char → Option (α × List Char)

variable {α β : Type}

def result (value : α) : Reader α := fun text => some (value, text)

def expect (c : Char) : Reader Unit
  | [] => none
  | d :: rest => if d = c then some ((), rest) else none

def andThen (first : Reader α) (next : α → Reader β) : Reader β := fun text =>
  (first text).bind fun found => next found.1 found.2

/-- The value is read wherever the text stands in front. -/
def Reads (read : Reader α) (text : List Char) (value : α) : Prop :=
  ∀ rest, read (text ++ rest) = some (value, rest)

/-- A value that has been read stays when the text goes on. -/
def Final (read : Reader α) : Prop :=
  ∀ text value rest, read text = some (value, rest) →
    ∀ more, read (text ++ more) = some (value, rest ++ more)

theorem reads_result (value : α) : Reads (result value) [] value := fun _ => rfl

theorem reads_expect (c : Char) : Reads (expect c) [c] () := fun _ => if_pos rfl

theorem Reads.andThen {first : Reader α} {next : α → Reader β} {text text' : List Char} {a : α} {b : β}
    (hfirst : Reads first text a) (hnext : Reads (next a) text' b) :
    Reads (andThen first next) (text ++ text') b := by
  intro rest
  rw [JsonText.andThen, List.append_assoc, hfirst]
  exact hnext rest

theorem Reads.cancel {read : Reader α} {text text' rest rest' : List Char} {a a' : α}
    (h : Reads read text a) (h' : Reads read text' a') (heq : text ++ rest = text' ++ rest') :
    a = a' := by
  have hread := h rest
  rw [heq, h' rest', Option.some.injEq, Prod.mk.injEq] at hread
  exact hread.1.symm

theorem final_result (value : α) : Final (result value) := by
  intro text value' rest h more
  rw [result, Option.some.injEq, Prod.mk.injEq] at h
  rw [result, ← h.1, ← h.2]

theorem final_expect (c : Char) : Final (expect c) := by
  intro text value rest h more
  cases text with
  | nil => exact absurd h (Option.some_ne_none _).symm
  | cons d text =>
    simp only [expect, List.cons_append] at h ⊢
    split_ifs at h ⊢
    rw [Option.some.injEq, Prod.mk.injEq] at h
    rw [← h.2]

theorem Final.andThen {first : Reader α} {next : α → Reader β} (hfirst : Final first)
    (hnext : ∀ a, Final (next a)) : Final (andThen first next) := by
  intro text value rest h more
  obtain ⟨found, hfound, hread⟩ := Option.bind_eq_some_iff.1 h
  rw [JsonText.andThen, hfirst text found.1 found.2 hfound more]
  exact hnext found.1 found.2 value rest hread more

theorem Final.ite {p : Prop} [Decidable p] {read read' : Reader α} (h : Final read)
    (h' : Final read') : Final (if p then read else read') := by
  split_ifs
  · exact h
  · exact h'

/-- A text that is read to its end is not read when it breaks off. -/
theorem Final.eq_none {read : Reader α} (h : Final read) {text more : List Char} {value : α}
    (hread : read (text ++ more) = some (value, [])) (hmore : more ≠ []) : read text = none := by
  cases hshort : read text with
  | none => rfl
  | some found =>
    have hlong := h text found.1 found.2 hshort more
    rw [hread, Option.some.injEq, Prod.mk.injEq] at hlong
    exact absurd (List.append_eq_nil_iff.1 hlong.2.symm).2 hmore

/-! ### Strings -/

def quote : Char := '\x22'

def backslash : Char := '\x5c'

/-- The escape of one letter a character has, if any. -/
def shortEscape (c : Char) : Option Char :=
  if c = quote ∨ c = backslash then some c
  else if c = '\n' then some 'n'
  else if c = '\r' then some 'r'
  else if c = '\t' then some 't'
  else if c = '\x08' then some 'b'
  else if c = '\x0c' then some 'f'
  else none

def readShort (e : Char) : Option Char :=
  if e = quote ∨ e = backslash ∨ e = '/' then some e
  else if e = 'n' then some '\n'
  else if e = 'r' then some '\r'
  else if e = 't' then some '\t'
  else if e = 'b' then some '\x08'
  else if e = 'f' then some '\x0c'
  else none

theorem readShort_of_shortEscape {c e : Char} (h : shortEscape c = some e) :
    readShort e = some c ∧ e ≠ 'u' := by
  unfold shortEscape at h
  split_ifs at h with hself <;> cases h
  · constructor
    · rw [readShort, if_pos (hself.imp_right Or.inl)]
    · rcases hself with rfl | rfl <;> decide
  all_goals subst_vars; decide

/-- A code unit as four hexadecimal digits. -/
def hexDigits (n : Nat) : List Char :=
  [Nat.digitChar (n / 4096 % 16), Nat.digitChar (n / 256 % 16), Nat.digitChar (n / 16 % 16),
    Nat.digitChar (n % 16)]

def hexValue (c : Char) : Option Nat :=
  if '0' ≤ c ∧ c ≤ '9' then some (c.toNat - '0'.toNat)
  else if 'a' ≤ c ∧ c ≤ 'f' then some (c.toNat - 'a'.toNat + 10)
  else if 'A' ≤ c ∧ c ≤ 'F' then some (c.toNat - 'A'.toNat + 10)
  else none

theorem hexValue_digitChar {n : Nat} (h : n < 16) : hexValue (Nat.digitChar n) = some n := by
  interval_cases n <;> decide

/-- A part of a string: a character, or a code unit. -/
inductive Piece where
  | char (c : Char)
  | unit (n : Nat)

def isHigh (n : Nat) : Bool := 0xd800 ≤ n ∧ n < 0xdc00

def isLow (n : Nat) : Bool := 0xdc00 ≤ n ∧ n < 0xe000

def pieces (c : Char) : List Piece :=
  if (shortEscape c).isSome ∨ ' ' ≤ c ∧ c ≤ '~' then [.char c]
  else if c.toNat < 0x10000 then [.unit c.toNat]
  else [.unit (0xd800 + (c.toNat - 0x10000) / 0x400), .unit (0xdc00 + (c.toNat - 0x10000) % 0x400)]

def Piece.text : Piece → List Char
  | .char c => (shortEscape c).elim [c] fun e => [backslash, e]
  | .unit n => backslash :: 'u' :: hexDigits n

/-- The character a single code unit stands for. -/
def single (n : Nat) : Char := if isHigh n || isLow n then '\ufffd' else Char.ofNat n

def join : List Piece → List Char
  | [] => []
  | .char c :: rest => c :: join rest
  | .unit high :: .unit low :: rest =>
    if isHigh high && isLow low then
      Char.ofNat (0x10000 + (high - 0xd800) * 0x400 + (low - 0xdc00)) :: join rest
    else single high :: join (.unit low :: rest)
  | .unit n :: rest => single n :: join rest

theorem join_unit {n : Nat} (h : isHigh n = false) (rest : List Piece) :
    join (.unit n :: rest) = single n :: join rest := by
  cases rest with
  | nil => rfl
  | cons piece rest =>
    cases piece with
    | char c => rfl
    | unit low => rw [join, h, Bool.false_and, if_neg Bool.false_ne_true]

theorem join_pieces (c : Char) (rest : List Piece) : join (pieces c ++ rest) = c :: join rest := by
  have hvalid : c.toNat < 0xd800 ∨ 0xdfff < c.toNat ∧ c.toNat < 0x110000 := c.valid
  unfold pieces
  split_ifs with hchar hplane
  · rfl
  · have hhigh : isHigh c.toNat = false := by simp only [isHigh, decide_eq_false_iff_not]; omega
    have hlow : isLow c.toNat = false := by simp only [isLow, decide_eq_false_iff_not]; omega
    rw [List.singleton_append, join_unit hhigh, single, hhigh, hlow, Bool.or_self,
      if_neg Bool.false_ne_true, Char.ofNat_toNat]
  · have hhigh : isHigh (0xd800 + (c.toNat - 0x10000) / 0x400) = true := by
      simp only [isHigh, decide_eq_true_eq]; omega
    have hlow : isLow (0xdc00 + (c.toNat - 0x10000) % 0x400) = true := by
      simp only [isLow, decide_eq_true_eq]; omega
    have hsum : 0x10000 + (0xd800 + (c.toNat - 0x10000) / 0x400 - 0xd800) * 0x400 +
        (0xdc00 + (c.toNat - 0x10000) % 0x400 - 0xdc00) = c.toNat := by omega
    rw [List.cons_append, List.singleton_append, join, hhigh, hlow, Bool.and_self, if_pos rfl, hsum,
      Char.ofNat_toNat]

/-- One more part in front of those that have been read. -/
def push (piece : Piece) (found : Option (List Piece × List Char)) :
    Option (List Piece × List Char) :=
  found.map fun found => (piece :: found.1, found.2)

/-- Where in a string the reader is. -/
inductive Mode where
  | plain
  /-- After a backslash. -/
  | escaped
  /-- Before a hexadecimal digit of a code unit, with the number of digits that come after it and the
  value of those before it. -/
  | hex (left value : Nat)

/-- Reads the parts of a string up to its closing quote. -/
def readPieces : Mode → Reader (List Piece)
  | _, [] => none
  | .plain, c :: rest =>
    if c = quote then some ([], rest)
    else if c = backslash then readPieces .escaped rest
    else if c < ' ' then none
    else push (.char c) (readPieces .plain rest)
  | .escaped, c :: rest =>
    if c = 'u' then readPieces (.hex 3 0) rest
    else (readShort c).bind fun d => push (.char d) (readPieces .plain rest)
  | .hex 0 value, c :: rest =>
    (hexValue c).bind fun d => push (.unit (value * 16 + d)) (readPieces .plain rest)
  | .hex (left + 1) value, c :: rest =>
    (hexValue c).bind fun d => readPieces (.hex left (value * 16 + d)) rest

def Piece.Fits : Piece → Prop
  | .char c => (shortEscape c).isSome ∨ ' ' ≤ c ∧ c ≤ '~'
  | .unit n => n < 0x10000

theorem readPieces_hexDigits {n : Nat} (h : n < 0x10000) (rest : List Char) :
    readPieces (.hex 3 0) (hexDigits n ++ rest) = push (.unit n) (readPieces .plain rest) := by
  have hsum : (((0 * 16 + n / 4096 % 16) * 16 + n / 256 % 16) * 16 + n / 16 % 16) * 16 + n % 16 = n := by
    omega
  simp only [hexDigits, List.cons_append, List.nil_append, readPieces,
    hexValue_digitChar (Nat.mod_lt _ (by decide : 16 > 0)), Option.bind_some, hsum]

variable {piece : Piece}

theorem readPieces_text (h : piece.Fits) (rest : List Char) :
    readPieces .plain (piece.text ++ rest) = push piece (readPieces .plain rest) := by
  have hbackslash : backslash ≠ quote := by decide
  cases piece with
  | char c =>
    cases hshort : shortEscape c with
    | some e =>
      obtain ⟨hread, hne⟩ := readShort_of_shortEscape hshort
      simp only [Piece.text, hshort, Option.elim_some, List.cons_append, List.nil_append, readPieces,
        if_neg hbackslash, if_true, if_neg hne, hread, Option.bind_some]
    | none =>
      have hplain : ' ' ≤ c ∧ c ≤ '~' := by simpa [Piece.Fits, hshort] using h
      have hquote : c ≠ quote := by rintro rfl; exact absurd hshort (by decide)
      have hplain' : c ≠ backslash := by rintro rfl; exact absurd hshort (by decide)
      have hblank : ¬c < ' ' := Char.not_lt.2 hplain.1
      simp only [Piece.text, hshort, Option.elim_none, List.cons_append, List.nil_append, readPieces,
        if_neg hquote, if_neg hplain', if_neg hblank]
  | unit n =>
    simp only [Piece.text, List.cons_append, readPieces, if_neg hbackslash, if_true,
      readPieces_hexDigits h]

theorem fits_of_mem_pieces {c : Char} (h : piece ∈ pieces c) : piece.Fits := by
  have hvalid : c.toNat < 0xd800 ∨ 0xdfff < c.toNat ∧ c.toNat < 0x110000 := c.valid
  unfold pieces at h
  split_ifs at h with hchar hplane
  · rw [List.mem_singleton] at h
    rw [h]
    exact hchar
  · rw [List.mem_singleton] at h
    rw [h]
    exact hplane
  · simp only [List.mem_cons, List.not_mem_nil, or_false] at h
    rcases h with rfl | rfl <;> simp only [Piece.Fits] <;> omega

def writeString (s : String) : List Char :=
  quote :: (s.toList.flatMap fun c => (pieces c).flatMap Piece.text) ++ [quote]

def readString : Reader String :=
  andThen (expect quote) fun _ => andThen (readPieces .plain) fun parts => result (String.ofList (join parts))

theorem readPieces_flatMap {parts : List Piece} (h : ∀ piece ∈ parts, piece.Fits)
    (rest : List Char) :
    readPieces .plain (parts.flatMap Piece.text ++ quote :: rest) = some (parts, rest) := by
  induction parts with
  | nil => simp [readPieces]
  | cons piece parts ih =>
    rw [List.flatMap_cons, List.append_assoc, readPieces_text (h piece (.head _)),
      ih fun other hother => h other (.tail _ hother)]
    rfl

theorem join_flatMap (cs : List Char) : join (cs.flatMap pieces) = cs := by
  induction cs with
  | nil => rfl
  | cons c cs ih => rw [List.flatMap_cons, join_pieces, ih]

theorem reads_string (s : String) : Reads readString (writeString s) s := by
  have hfits : ∀ piece ∈ s.toList.flatMap pieces, piece.Fits := by
    intro piece hpiece
    obtain ⟨c, -, hc⟩ := List.mem_flatMap.1 hpiece
    exact fits_of_mem_pieces hc
  have hparts : Reads (readPieces .plain)
      ((s.toList.flatMap fun c => (pieces c).flatMap Piece.text) ++ [quote])
      (s.toList.flatMap pieces) := by
    intro rest
    rw [← List.flatMap_assoc, List.append_assoc, List.singleton_append, readPieces_flatMap hfits]
  have hresult : Reads (result (String.ofList (join (s.toList.flatMap pieces)))) [] s := by
    rw [join_flatMap, String.ofList_toList]
    exact reads_result s
  have hcontent : Reads (andThen (readPieces .plain) fun parts => result (String.ofList (join parts)))
      _ s := hparts.andThen hresult
  have hread : Reads readString _ s := (reads_expect quote).andThen hcontent
  rwa [List.append_nil] at hread

theorem push_append {found found' : Option (List Piece × List Char)} {more : List Char}
    (h : ∀ value rest, found = some (value, rest) → found' = some (value, rest ++ more))
    {value : List Piece} {rest : List Char} (hpush : push piece found = some (value, rest)) :
    push piece found' = some (value, rest ++ more) := by
  obtain ⟨⟨value', rest'⟩, hfound, heq⟩ := Option.map_eq_some_iff.1 hpush
  rw [Prod.mk.injEq] at heq
  rw [push, h value' rest' hfound, Option.map_some, ← heq.1, ← heq.2]

theorem final_readPieces (mode : Mode) : Final (readPieces mode) := by
  intro text
  fun_induction readPieces mode text with
  | case1 => exact fun _ _ h => absurd h (Option.some_ne_none _).symm
  | case2 rest =>
    intro value rest' h more
    rw [Option.some.injEq, Prod.mk.injEq] at h
    rw [List.cons_append, readPieces, if_pos rfl, ← h.1, ← h.2]
  | case3 rest hquote ih =>
    intro value rest' h more
    rw [List.cons_append, readPieces, if_neg hquote, if_pos rfl]
    exact ih value rest' h more
  | case4 => exact fun _ _ h => absurd h (Option.some_ne_none _).symm
  | case5 c rest hquote hbackslash hblank ih =>
    intro value rest' h more
    rw [List.cons_append, readPieces, if_neg hquote, if_neg hbackslash, if_neg hblank]
    exact push_append (fun value rest h => ih value rest h more) h
  | case6 rest ih =>
    intro value rest' h more
    rw [List.cons_append, readPieces, if_pos rfl]
    exact ih value rest' h more
  | case7 c rest hunit ih =>
    intro value rest' h more
    obtain ⟨d, hd, hpush⟩ := Option.bind_eq_some_iff.1 h
    rw [List.cons_append, readPieces, if_neg hunit, hd]
    exact push_append (fun value rest h => ih value rest h more) hpush
  | case8 n c rest ih =>
    intro value rest' h more
    obtain ⟨d, hd, hpush⟩ := Option.bind_eq_some_iff.1 h
    rw [List.cons_append, readPieces, hd]
    exact push_append (fun value rest h => ih value rest h more) hpush
  | case9 left n c rest ih =>
    intro value rest' h more
    obtain ⟨d, hd, hread⟩ := Option.bind_eq_some_iff.1 h
    rw [List.cons_append, readPieces, hd]
    exact ih d value rest' hread more

theorem final_readString : Final readString :=
  (final_expect quote).andThen fun _ => (final_readPieces .plain).andThen fun _ => final_result _

/-! ### Numbers -/

def writeNat (n : Nat) : List Char := Nat.toDigits 10 n

/-- What ends a member: a comma, or the brace that ends the object. -/
def endMark (last : Bool) : Char := if last then '\x7d' else ','

def readEnd : Reader Bool
  | [] => none
  | c :: rest =>
    if c = endMark false then some (false, rest)
    else if c = endMark true then some (true, rest)
    else none

/-- Reads a number and what ends its member. A number of several digits does not begin with zero. -/
def readNat : Reader (Nat × Bool) := fun text =>
  let digits := text.takeWhile Char.isDigit
  if digits = [] ∨ digits.head? = some '0' ∧ digits ≠ ['0'] then none
  else (readEnd (text.dropWhile Char.isDigit)).map fun found =>
    ((Nat.ofDigitChars 10 digits 0, found.1), found.2)

theorem reads_end (last : Bool) : Reads readEnd [endMark last] last := by
  intro rest
  cases last <;> rfl

theorem final_readEnd : Final readEnd := by
  intro text value rest h more
  cases text with
  | nil => exact absurd h (Option.some_ne_none _).symm
  | cons c text =>
    simp only [readEnd, List.cons_append] at h ⊢
    split_ifs at h ⊢ <;>
    · rw [Option.some.injEq, Prod.mk.injEq] at h
      rw [← h.1, ← h.2]

theorem head?_toDigits {n : Nat} (h : 0 < n) : (Nat.toDigits 10 n).head? ≠ some '0' := by
  induction n using Nat.strongRecOn with
  | ind n ih =>
    by_cases hsmall : n < 10
    · rw [Nat.toDigits_of_lt_base hsmall]
      interval_cases n <;> decide
    · rw [Nat.toDigits_of_base_le (by decide) (not_lt.1 hsmall),
        List.head?_append_of_ne_nil _ Nat.toDigits_ne_nil]
      exact ih (n / 10) (by omega) (by omega)

theorem wellformed_toDigits (n : Nat) : ¬(Nat.toDigits 10 n = [] ∨
    (Nat.toDigits 10 n).head? = some '0' ∧ Nat.toDigits 10 n ≠ ['0']) := by
  rintro (hnil | ⟨hhead, hne⟩)
  · exact Nat.toDigits_ne_nil hnil
  · rcases Nat.eq_zero_or_pos n with rfl | hpos
    · exact hne (Nat.toDigits_zero 10)
    · exact head?_toDigits hpos hhead

theorem reads_nat (n : Nat) (last : Bool) : Reads readNat (writeNat n ++ [endMark last]) (n, last) := by
  intro rest
  have hdigits : ∀ c ∈ Nat.toDigits 10 n, c.isDigit = true := fun c hc =>
    Nat.isDigit_of_mem_toDigits (by decide) le_rfl hc
  have hend : (endMark last).isDigit = false := by cases last <;> rfl
  have htake : (writeNat n ++ [endMark last] ++ rest).takeWhile Char.isDigit = Nat.toDigits 10 n := by
    rw [writeNat, List.append_assoc, List.takeWhile_append_of_pos hdigits, List.singleton_append,
      List.takeWhile_cons_of_neg (by simp [hend]), List.append_nil]
  have hdrop : (writeNat n ++ [endMark last] ++ rest).dropWhile Char.isDigit = [endMark last] ++ rest := by
    rw [writeNat, List.append_assoc, List.dropWhile_append_of_pos hdigits, List.singleton_append,
      List.dropWhile_cons_of_neg (by simp [hend])]
  rw [readNat, htake, hdrop, reads_end last rest, if_neg (wellformed_toDigits n), Option.map_some,
    Nat.ofDigitChars_toDigits (by decide) le_rfl]

theorem final_readNat : Final readNat := by
  intro text value rest h more
  simp only [readNat] at h ⊢
  split_ifs at h with hdigits
  obtain ⟨⟨last, rest'⟩, hend, heq⟩ := Option.map_eq_some_iff.1 h
  rw [Prod.mk.injEq] at heq
  -- the digits end within the text, since something has been read after them
  have hdrop : (text.dropWhile Char.isDigit).isEmpty = false := by
    cases hempty : text.dropWhile Char.isDigit with
    | nil => rw [hempty] at hend; exact absurd hend (Option.some_ne_none _).symm
    | cons c rest => rfl
  have hlength : (text.takeWhile Char.isDigit).length ≠ text.length := by
    intro hall
    have hsplit := congrArg List.length (List.takeWhile_append_dropWhile (p := Char.isDigit) (l := text))
    rw [List.length_append, hall, Nat.add_eq_left, List.length_eq_zero_iff] at hsplit
    rw [hsplit] at hdrop
    exact absurd hdrop (by decide)
  rw [List.takeWhile_append, if_neg hlength, List.dropWhile_append, hdrop, if_neg Bool.false_ne_true,
    if_neg hdigits, final_readEnd _ _ _ hend more, Option.map_some, ← heq.1, ← heq.2]

/-! ### Objects -/

/-- The value of a member. -/
inductive Scalar where
  | str (s : String)
  | nat (n : Nat)
  deriving DecidableEq

def Scalar.write : Scalar → List Char
  | .str s => writeString s
  | .nat n => writeNat n

def readValue : Reader (Scalar × Bool)
  | [] => none
  | c :: rest =>
    if c = quote then
      andThen readString (fun s => andThen readEnd fun last => result (.str s, last)) (c :: rest)
    else andThen readNat (fun found => result (.nat found.1, found.2)) (c :: rest)

theorem reads_value_string {text : List Char} {s : String} (h : Reads readString (quote :: text) s)
    (last : Bool) : Reads readValue (quote :: text ++ [endMark last]) (.str s, last) := by
  intro rest
  have hread : Reads (andThen readString fun s => andThen readEnd fun last => result (.str s, last))
      (quote :: text ++ ([endMark last] ++ [])) (Scalar.str s, last) :=
    h.andThen ((reads_end last).andThen (reads_result _))
  rw [List.append_nil] at hread
  rw [← hread rest]
  simp only [List.cons_append, readValue, if_true]

theorem reads_value_nat (n : Nat) (last : Bool) :
    Reads readValue (writeNat n ++ [endMark last]) (.nat n, last) := by
  intro rest
  have hread : Reads (andThen readNat fun found => result (.nat found.1, found.2))
      (writeNat n ++ [endMark last] ++ []) (Scalar.nat n, last) :=
    (reads_nat n last).andThen (reads_result _)
  rw [List.append_nil] at hread
  obtain ⟨c, digits, hdigits⟩ := List.exists_cons_of_ne_nil (Nat.toDigits_ne_nil (n := n) (b := 10))
  have hdigit : c.isDigit = true :=
    Nat.isDigit_of_mem_toDigits (by decide) le_rfl (hdigits ▸ List.mem_cons_self)
  have hquote : c ≠ quote := by rintro rfl; exact absurd hdigit (by decide)
  rw [← hread rest, writeNat, hdigits]
  exact if_neg hquote

theorem reads_value (value : Scalar) (last : Bool) :
    Reads readValue (value.write ++ [endMark last]) (value, last) := by
  cases value with
  | str s => exact reads_value_string (reads_string s) last
  | nat n => exact reads_value_nat n last

theorem final_readValue : Final readValue := by
  intro text value rest h more
  cases text with
  | nil => exact absurd h (Option.some_ne_none _).symm
  | cons c text =>
    simp only [readValue, List.cons_append] at h ⊢
    split_ifs at h ⊢
    · exact final_readString.andThen (fun _ => final_readEnd.andThen fun _ => final_result _) _ _ _ h more
    · exact final_readNat.andThen (fun _ => final_result _) _ _ _ h more

abbrev Member : Type := String × Scalar

/-- A member and what ends it. -/
def writeMember (member : Member) (last : Bool) : List Char :=
  writeString member.1 ++ (':' :: member.2.write ++ [endMark last])

def readMember : Reader (Member × Bool) :=
  andThen readString fun key => andThen (expect ':') fun _ => andThen readValue fun found =>
    result ((key, found.1), found.2)

theorem reads_member_of {member : Member} {key value : List Char} {last : Bool}
    (hkey : Reads readString key member.1)
    (hvalue : Reads readValue (value ++ [endMark last]) (member.2, last)) :
    Reads readMember (key ++ (':' :: value ++ [endMark last])) (member, last) := by
  have hmember : Reads (andThen readValue fun found => result ((member.1, found.1), found.2))
      (value ++ [endMark last] ++ []) (member, last) :=
    hvalue.andThen (reads_result _)
  rw [List.append_nil] at hmember
  have hrest : Reads (andThen (expect ':') fun _ => andThen readValue fun found =>
      result ((member.1, found.1), found.2)) (':' :: value ++ [endMark last]) (member, last) :=
    (reads_expect ':').andThen hmember
  exact hkey.andThen hrest

theorem reads_member (member : Member) (last : Bool) :
    Reads readMember (writeMember member last) (member, last) :=
  reads_member_of (reads_string member.1) (reads_value member.2 last)

theorem final_readMember : Final readMember :=
  final_readString.andThen fun _ => (final_expect ':').andThen fun _ =>
    final_readValue.andThen fun _ => final_result _

/-- The members of an object after its opening brace; there is one at least. -/
def writeMembers : Member → List Member → List Char
  | first, [] => writeMember first true
  | first, second :: rest => writeMember first false ++ writeMembers second rest

def readMembers : Nat → Reader (List Member)
  | 0 => fun _ => none
  | fuel + 1 => andThen readMember fun found =>
    if found.2 then result [found.1]
    else andThen (readMembers fuel) fun rest => result (found.1 :: rest)

/-- The members one after the other, as some writer of members has them. -/
def listMembers (write : Member → Bool → List Char) : Member → List Member → List Char
  | first, [] => write first true
  | first, second :: rest => write first false ++ listMembers write second rest

theorem reads_listMembers {write : Member → Bool → List Char}
    (hwrite : ∀ member last, Reads readMember (write member last) (member, last)) (first : Member)
    (rest : List Member) {fuel : Nat} (h : rest.length < fuel) :
    Reads (readMembers fuel) (listMembers write first rest) (first :: rest) := by
  induction rest generalizing first fuel with
  | nil =>
    cases fuel with
    | zero => exact absurd h (Nat.not_lt_zero _)
    | succ fuel =>
      have hread : Reads (readMembers (fuel + 1)) (write first true ++ []) [first] :=
        (hwrite first true).andThen (reads_result _)
      rwa [List.append_nil] at hread
  | cons second rest ih =>
    cases fuel with
    | zero => exact absurd h (Nat.not_lt_zero _)
    | succ fuel =>
      have hothers : Reads (andThen (readMembers fuel) fun rest => result (first :: rest))
          (listMembers write second rest ++ []) (first :: second :: rest) :=
        (ih second (Nat.lt_of_succ_lt_succ h)).andThen (reads_result _)
      rw [List.append_nil] at hothers
      exact (hwrite first false).andThen hothers

theorem writeMembers_eq (first : Member) (rest : List Member) :
    writeMembers first rest = listMembers writeMember first rest := by
  induction rest generalizing first with
  | nil => rfl
  | cons second rest ih => rw [writeMembers, listMembers, ih]

theorem reads_members (first : Member) (rest : List Member) {fuel : Nat} (h : rest.length < fuel) :
    Reads (readMembers fuel) (writeMembers first rest) (first :: rest) := by
  rw [writeMembers_eq]
  exact reads_listMembers reads_member first rest h

theorem final_readMembers (fuel : Nat) : Final (readMembers fuel) := by
  induction fuel with
  | zero => exact fun _ _ _ h => absurd h (Option.some_ne_none _).symm
  | succ fuel ih =>
    apply final_readMember.andThen
    intro found
    apply Final.ite
    · exact final_result _
    · exact ih.andThen fun _ => final_result _

def writeObject (first : Member) (rest : List Member) : List Char :=
  '\x7b' :: writeMembers first rest

def readObject (fuel : Nat) : Reader (List Member) :=
  andThen (expect '\x7b') fun _ => readMembers fuel

theorem reads_object (first : Member) (rest : List Member) {fuel : Nat} (h : rest.length < fuel) :
    Reads (readObject fuel) (writeObject first rest) (first :: rest) :=
  (reads_expect '\x7b').andThen (reads_members first rest h)

theorem final_readObject (fuel : Nat) : Final (readObject fuel) :=
  (final_expect '\x7b').andThen fun _ => final_readMembers fuel

/-- An object of which only the first characters are there is not read. -/
theorem readObject_take {first : Member} {rest : List Member} {fuel limit : Nat}
    (hfuel : rest.length < fuel) (hlimit : limit < (writeObject first rest).length) :
    readObject fuel ((writeObject first rest).take limit) = none := by
  have hread := reads_object first rest hfuel []
  rw [List.append_nil, ← List.take_append_drop limit (writeObject first rest)] at hread
  refine (final_readObject fuel).eq_none hread fun hnil => ?_
  have hlength := congrArg List.length hnil
  rw [List.length_drop, List.length_nil] at hlength
  omega

/-! ### Text that is not confined to ASCII -/

/-- The part of a character that is only escaped if it must be. -/
def rawPiece (c : Char) : Piece :=
  if (shortEscape c).isSome ∨ ' ' ≤ c then .char c else .unit c.toNat

/-- A string as text, with its quotes; the characters beyond ASCII stand for themselves. -/
def writeRawString (s : String) : List Char :=
  quote :: (s.toList.flatMap fun c => (rawPiece c).text) ++ [quote]

theorem readPieces_rawPiece (c : Char) (rest : List Char) :
    readPieces .plain ((rawPiece c).text ++ rest) = push (rawPiece c) (readPieces .plain rest) := by
  have hvalid : c.toNat < 0xd800 ∨ 0xdfff < c.toNat ∧ c.toNat < 0x110000 := c.valid
  unfold rawPiece
  split_ifs with hraw
  · cases hshort : shortEscape c with
    | some e =>
      have hfits : (Piece.char c).Fits := .inl (by rw [hshort]; rfl)
      exact readPieces_text hfits rest
    | none =>
      have hblank : ¬c < ' ' := by
        have hle : ' ' ≤ c := by simpa [hshort] using hraw
        exact Char.not_lt.2 hle
      have hquote : c ≠ quote := by rintro rfl; exact absurd hshort (by decide)
      have hbackslash : c ≠ backslash := by rintro rfl; exact absurd hshort (by decide)
      simp only [Piece.text, hshort, Option.elim_none, List.cons_append, List.nil_append, readPieces,
        if_neg hquote, if_neg hbackslash, if_neg hblank]
  · have hcontrol : c < ' ' := by
      by_contra hle
      exact hraw (.inr (Char.not_lt.1 hle))
    have hsmall : (Piece.unit c.toNat).Fits := Nat.lt_trans hcontrol (by decide)
    exact readPieces_text hsmall rest

theorem join_rawPiece (c : Char) (rest : List Piece) : join (rawPiece c :: rest) = c :: join rest := by
  unfold rawPiece
  split_ifs with hraw
  · rfl
  · have hcontrol : c < ' ' := by
      by_contra hle
      exact hraw (.inr (Char.not_lt.1 hle))
    have hsmall : c.toNat < 0x20 := hcontrol
    have hhigh : isHigh c.toNat = false := by simp only [isHigh, decide_eq_false_iff_not]; omega
    have hlow : isLow c.toNat = false := by simp only [isLow, decide_eq_false_iff_not]; omega
    rw [join_unit hhigh, single, hhigh, hlow, Bool.or_self, if_neg Bool.false_ne_true, Char.ofNat_toNat]

theorem reads_rawString (s : String) : Reads readString (writeRawString s) s := by
  have hparts : ∀ cs : List Char, Reads (readPieces .plain)
      ((cs.flatMap fun c => (rawPiece c).text) ++ [quote]) (cs.map rawPiece) := by
    intro cs rest
    induction cs with
    | nil => simp [readPieces]
    | cons c cs ih =>
      rw [List.flatMap_cons, List.append_assoc, List.append_assoc, readPieces_rawPiece,
        ← List.append_assoc, ih]
      rfl
  have hjoin : ∀ cs : List Char, join (cs.map rawPiece) = cs := by
    intro cs
    induction cs with
    | nil => rfl
    | cons c cs ih => rw [List.map_cons, join_rawPiece, ih]
  have hresult : Reads (result (String.ofList (join (s.toList.map rawPiece)))) [] s := by
    rw [hjoin, String.ofList_toList]
    exact reads_result s
  have hcontent : Reads (andThen (readPieces .plain) fun parts => result (String.ofList (join parts)))
      _ s := (hparts s.toList).andThen hresult
  have hread : Reads readString _ s := (reads_expect quote).andThen hcontent
  rwa [List.append_nil] at hread

def Scalar.writeRaw : Scalar → List Char
  | .str s => writeRawString s
  | .nat n => writeNat n

def writeRawMember (member : Member) (last : Bool) : List Char :=
  writeRawString member.1 ++ (':' :: member.2.writeRaw ++ [endMark last])

theorem reads_rawMember (member : Member) (last : Bool) :
    Reads readMember (writeRawMember member last) (member, last) := by
  refine reads_member_of (reads_rawString member.1) ?_
  cases member.2 with
  | str s => exact reads_value_string (reads_rawString s) last
  | nat n => exact reads_value_nat n last

/-- An object whose text is not confined to ASCII. -/
def writeRawObject : List Member → List Char
  | [] => ['\x7b', '\x7d']
  | first :: rest => '\x7b' :: listMembers writeRawMember first rest

/-- The text of an object determines its members. -/
theorem writeRawObject_inj {members members' : List Member} (hmembers : members ≠ [])
    (hmembers' : members' ≠ []) (h : writeRawObject members = writeRawObject members') :
    members = members' := by
  obtain ⟨first, rest, rfl⟩ := List.exists_cons_of_ne_nil hmembers
  obtain ⟨first', rest', rfl⟩ := List.exists_cons_of_ne_nil hmembers'
  have hread : Reads (readMembers (rest.length + rest'.length + 1)) _ (first :: rest) :=
    reads_listMembers reads_rawMember first rest (by omega)
  have hread' : Reads (readMembers (rest.length + rest'.length + 1)) _ (first' :: rest') :=
    reads_listMembers reads_rawMember first' rest' (by omega)
  refine hread.cancel hread' (congrArg (· ++ []) ?_)
  exact (List.cons.inj h).2

/-! ### Lengths -/

theorem length_text_le : piece.text.length ≤ 6 := by
  cases piece with
  | char c => cases hshort : shortEscape c <;> simp [Piece.text, hshort]
  | unit n => simp [Piece.text, hexDigits]

theorem length_pieces_le (c : Char) : (pieces c).length ≤ 2 := by
  unfold pieces
  split_ifs <;> simp

theorem length_writeString_le (s : String) : (writeString s).length ≤ 12 * s.length + 2 := by
  have hchars : ∀ cs : List Char,
      (cs.flatMap fun c => (pieces c).flatMap Piece.text).length ≤ 12 * cs.length := by
    intro cs
    induction cs with
    | nil => simp
    | cons c cs ih =>
      have hpieces : ((pieces c).flatMap Piece.text).length ≤ 6 * (pieces c).length := by
        induction pieces c with
        | nil => simp
        | cons piece rest ih =>
          have hpiece : piece.text.length ≤ 6 := length_text_le
          rw [List.flatMap_cons, List.length_append, List.length_cons]
          omega
      have hcount := length_pieces_le c
      rw [List.flatMap_cons, List.length_append, List.length_cons]
      omega
  have hlength := hchars s.toList
  rw [String.length_toList] at hlength
  rw [writeString, List.length_append, List.length_cons, List.length_singleton]
  omega

/-- A character that stands for itself. -/
def isPlain (c : Char) : Bool := shortEscape c = none && ' ' ≤ c && c ≤ '~'

theorem length_writeString_of_plain {s : String} (h : s.toList.all isPlain = true) :
    (writeString s).length = s.length + 2 := by
  have hchars : ∀ cs : List Char, cs.all isPlain = true →
      cs.flatMap (fun c => (pieces c).flatMap Piece.text) = cs := by
    intro cs
    induction cs with
    | nil => intro _; rfl
    | cons c cs ih =>
      intro hcs
      rw [List.all_cons, Bool.and_eq_true] at hcs
      have hplain := hcs.1
      simp only [isPlain, Bool.and_eq_true, decide_eq_true_eq] at hplain
      rw [List.flatMap_cons, ih hcs.2, pieces, if_pos (.inr ⟨hplain.1.2, hplain.2⟩)]
      simp [Piece.text, hplain.1.1]
  rw [writeString, hchars s.toList h, List.length_append, List.length_cons, List.length_singleton,
    String.length_toList]

theorem length_writeNat_le {n width : Nat} (hwidth : 0 < width) (h : n < 10 ^ width) :
    (writeNat n).length ≤ width := by
  unfold writeNat
  induction width generalizing n with
  | zero => exact absurd hwidth (Nat.lt_irrefl 0)
  | succ width ih =>
    by_cases hsmall : n < 10
    · rw [Nat.toDigits_of_lt_base hsmall, List.length_singleton]
      omega
    · rw [Nat.toDigits_of_base_le (by decide) (not_lt.1 hsmall), List.length_append,
        List.length_singleton]
      have hwidth' : 0 < width := by
        rcases Nat.eq_zero_or_pos width with rfl | hpos
        · exact absurd h hsmall
        · exact hpos
      have hquotient : n / 10 < 10 ^ width := by
        rw [pow_succ] at h
        omega
      have := ih hwidth' hquotient
      omega

end JsonText
