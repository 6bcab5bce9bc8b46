import Mathlib.Data.Finset.Basic
import Mathlib.Data.Rat.Defs
import CallBackend.Lib.Dict

/-!
# JSON values and base64 text

Parsed JSON documents, as a dynamically typed program sees them, and the decoding of base64 text
into bytes. The decoder takes the sextets and the number of padding characters that follow them; it
ignores superfluous padding and rejects missing padding, as lenient decoders do.
-/

abbrev Bytes : Type := List UInt8

/-- A parsed JSON document. -/
inductive Json where
  | null
  | bool (b : Bool)
  | int (n : Int)
  | float (q : ℚ)
  | str (s : String)
  | arr (items : List Json)
  | obj (fields : List (String × Json))

namespace Json

def lookup : List (String × Json) → String → Option Json
  | [], _ => none
  | (name, value) :: rest, key => if name = key then some value else lookup rest key

def get : Json → String → Json
  | .obj fields, key => (lookup fields key).getD .null
  | _, _ => .null

def find? : Json → String → Option Json
  | .obj fields, key => lookup fields key
  | _, _ => none

def text? : Json → Option String
  | .str s => some s
  | _ => none

/-- The value is an object with exactly these members. -/
def hasExactly (members : List String) : Json → Bool
  | .obj fields => (fields.map Prod.fst).toFinset = members.toFinset
  | _ => false

/-! ### Repeated members -/

mutual

/-- The value of a document whose objects may repeat a member: the last one counts. -/
def loads : Json → Json
  | .arr items => .arr (loadsItems items)
  | .obj fields => .obj (loadsFields [] fields)
  | value => value

def loadsItems : List Json → List Json
  | [] => []
  | item :: rest => loads item :: loadsItems rest

def loadsFields (read : List (String × Json)) : List (String × Json) → List (String × Json)
  | [] => read
  | (name, value) :: rest => loadsFields (Dict.assign read name (loads value)) rest

end

/-- The last member of this name. -/
def last (key : String) (fields : List (String × Json)) : Option Json :=
  fields.foldl (fun found field => if field.1 = key then some field.2 else found) none

theorem lookup_eq_dict (fields : List (String × Json)) (key : String) :
    lookup fields key = Dict.lookup fields key := by
  induction fields with
  | nil => rfl
  | cons field rest ih => simp [lookup, Dict.lookup, ih]

theorem lookup_loadsFields (key : String) (fields read : List (String × Json)) (found : Option Json)
    (hread : lookup read key = found.map loads) :
    lookup (loadsFields read fields) key =
      (fields.foldl (fun found field => if field.1 = key then some field.2 else found) found).map
        loads := by
  induction fields generalizing read found with
  | nil => simpa [loadsFields] using hread
  | cons field rest ih =>
    obtain ⟨name, value⟩ := field
    rw [loadsFields, List.foldl_cons]
    apply ih
    rw [lookup_eq_dict] at hread ⊢
    rw [Dict.lookup_assign, hread]
    split_ifs <;> rfl

theorem get_loads (key : String) (fields : List (String × Json)) :
    (loads (.obj fields)).get key = ((last key fields).map loads).getD .null := by
  rw [loads, get, lookup_loadsFields key fields [] none rfl]
  rfl

@[simp] theorem text?_loads (value : Json) : (loads value).text? = value.text? := by
  cases value <;> simp [loads, text?]

theorem text?_eq_some {value : Json} {s : String} : value.text? = some s ↔ value = .str s := by
  cases value <;> simp [text?]

/-- The text of a member of a document with repetitions is that of the last one. -/
theorem text?_get_loads (key : String) (fields : List (String × Json)) :
    ((loads (.obj fields)).get key).text? = (last key fields).bind text? := by
  rw [get_loads]
  cases last key fields with
  | none => rfl
  | some value => simp

end Json

namespace Base64

/-- The sextet a URL-safe base64 character stands for. -/
def urlSextet (c : Char) : Option Nat :=
  if 'A' ≤ c ∧ c ≤ 'Z' then some (c.toNat - 'A'.toNat)
  else if 'a' ≤ c ∧ c ≤ 'z' then some (c.toNat - 'a'.toNat + 26)
  else if '0' ≤ c ∧ c ≤ '9' then some (c.toNat - '0'.toNat + 52)
  else if c = '-' then some 62
  else if c = '_' then some 63
  else none

/-- The sextet a character of the standard alphabet stands for. -/
def sextet (c : Char) : Option Nat :=
  if c = '+' then some 62
  else if c = '/' then some 63
  else if c = '-' ∨ c = '_' then none
  else urlSextet c

/-- The bytes a sequence of sextets carries; left-over bits are dropped. -/
def decodeSextets : List Nat → Bytes
  | a :: b :: c :: d :: rest =>
    UInt8.ofNat (a * 4 + b / 16) :: UInt8.ofNat (b * 16 + c / 4) :: UInt8.ofNat (c * 64 + d) ::
      decodeSextets rest
  | [a, b, c] => [UInt8.ofNat (a * 4 + b / 16), UInt8.ofNat (b * 16 + c / 4)]
  | [a, b] => [UInt8.ofNat (a * 4 + b / 16)]
  | _ => []

/-- Decodes sextets followed by padding characters; `none` when padding is missing or a single
sextet is left over. -/
def decode (sextets : List Nat) (padding : Nat) : Option Bytes :=
  match sextets.length % 4 with
  | 0 => some (decodeSextets sextets)
  | 2 => if 2 ≤ padding then some (decodeSextets sextets) else none
  | 3 => if 1 ≤ padding then some (decodeSextets sextets) else none
  | _ => none

/-- Decodes text of the standard alphabet with exactly the padding it needs. -/
def decodeExact (text : String) : Option Bytes :=
  let body := text.toList.takeWhile (· ≠ '=')
  let padding := text.toList.dropWhile (· ≠ '=')
  if padding.all (· == '=') ∧ padding.length ≤ 2 ∧ text.toList.length % 4 = 0 then
    (body.mapM sextet).bind fun sextets => decode sextets padding.length
  else none

end Base64
