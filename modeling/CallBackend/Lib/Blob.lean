import CallBackend.Lib.Json

/-!
# Files of bytes

A file as positioned reads and writes see it. A write beyond the end fills the gap with zeros; a read
beyond the end is short.
-/

structure Blob where
  bytes : Bytes := []
  deriving DecidableEq

namespace Blob

def read (b : Blob) (offset length : Nat) : Bytes := (b.bytes.drop offset).take length

/-- The bytes before an offset, with zeros where the file is shorter. -/
def front (b : Blob) (offset : Nat) : Bytes :=
  b.bytes.take offset ++ List.replicate (offset - b.bytes.length) 0

def write (b : Blob) (offset : Nat) (data : Bytes) : Blob where
  bytes := b.front offset ++ data ++ b.bytes.drop (offset + data.length)

theorem length_front (b : Blob) (offset : Nat) : (b.front offset).length = offset := by
  simp only [front, List.length_append, List.length_take, List.length_replicate]
  omega

theorem read_write_self (b : Blob) (offset : Nat) (data : Bytes) :
    (b.write offset data).read offset data.length = data := by
  simp only [read, write, List.append_assoc]
  rw [List.drop_left' (b.length_front offset), List.take_left]

variable {b : Blob} {start : Nat} {content : Bytes}

theorem read_eq_iff :
    b.read start content.length = content ↔
      ∀ i < content.length, b.bytes[start + i]? = content[i]? := by
  constructor
  · intro h i hi
    rw [← h, read, List.getElem?_take_of_lt hi, List.getElem?_drop]
  · intro h
    refine List.ext_getElem? fun i => ?_
    by_cases hi : i < content.length
    · rw [read, List.getElem?_take_of_lt hi, List.getElem?_drop, h i hi]
    · rw [read, List.getElem?_take_eq_none (by omega), List.getElem?_eq_none (by omega)]

variable {offset i : Nat}

theorem getElem?_write_before (data : Bytes) (hi : i < offset) (hlength : i < b.bytes.length) :
    (b.write offset data).bytes[i]? = b.bytes[i]? := by
  have hfront : i < (b.front offset).length := by rwa [length_front]
  have htake : i < (b.bytes.take offset).length := by
    rw [List.length_take]
    omega
  rw [write, List.append_assoc, List.getElem?_append_left hfront, front,
    List.getElem?_append_left htake, List.getElem?_take_of_lt hi]

variable {data : Bytes}

theorem getElem?_write_behind (hi : offset + data.length ≤ i) :
    (b.write offset data).bytes[i]? = b.bytes[i]? := by
  have hlength : (b.front offset ++ data).length = offset + data.length := by
    rw [List.length_append, length_front]
  rw [write, List.getElem?_append_right (by omega), List.getElem?_drop, hlength]
  congr 1
  omega

theorem getElem?_write_inside (hlow : offset ≤ i) (hhigh : i < offset + data.length) :
    (b.write offset data).bytes[i]? = data[i - offset]? := by
  rw [write, List.append_assoc, List.getElem?_append_right (by rwa [length_front]), length_front,
    List.getElem?_append_left (by omega)]

theorem getElem?_write_gap (data : Bytes) (hi : i < offset) (hlength : b.bytes.length ≤ i) :
    (b.write offset data).bytes[i]? = some 0 := by
  have hfront : i < (b.front offset).length := by rwa [length_front]
  have htake : (b.bytes.take offset).length = b.bytes.length := by
    rw [List.length_take]
    omega
  rw [write, List.append_assoc, List.getElem?_append_left hfront, front,
    List.getElem?_append_right (by omega), List.getElem?_replicate_of_lt (by omega)]

theorem getElem?_write (b : Blob) (offset i : Nat) (data : Bytes) :
    (b.write offset data).bytes[i]? =
      if offset ≤ i ∧ i < offset + data.length then data[i - offset]?
      else if i < offset ∧ b.bytes.length ≤ i then some 0 else b.bytes[i]? := by
  split_ifs with hinside hgap
  · exact getElem?_write_inside hinside.1 hinside.2
  · exact getElem?_write_gap data hgap.1 hgap.2
  · rcases Nat.lt_or_ge i offset with hbefore | hbehind
    · exact getElem?_write_before data hbefore (by omega)
    · exact getElem?_write_behind (by omega)

theorem length_write (b : Blob) (offset : Nat) (data : Bytes) :
    (b.write offset data).bytes.length = max b.bytes.length (offset + data.length) := by
  simp only [write, List.length_append, length_front, List.length_drop]
  omega

theorem write_comm (b : Blob) {offset' : Nat} {data' : Bytes}
    (h : offset + data.length ≤ offset' ∨ offset' + data'.length ≤ offset) :
    (b.write offset data).write offset' data' = (b.write offset' data').write offset data := by
  have hbytes : ((b.write offset data).write offset' data').bytes =
      ((b.write offset' data').write offset data).bytes := by
    refine List.ext_getElem? fun i => ?_
    rw [getElem?_write, getElem?_write, getElem?_write, getElem?_write, length_write, length_write]
    split_ifs <;> first | rfl | omega
  cases hleft : (b.write offset data).write offset' data'
  cases hright : (b.write offset' data').write offset data
  rw [hleft, hright] at hbytes
  exact congrArg Blob.mk hbytes

def writeAll (b : Blob) (pieces : List (Nat × Bytes)) : Blob :=
  pieces.foldl (fun b piece => b.write piece.1 piece.2) b

theorem writeAll_append (b : Blob) (first second : List (Nat × Bytes)) :
    b.writeAll (first ++ second) = (b.writeAll first).writeAll second :=
  List.foldl_append ..

def Disjoint (pieces : List (Nat × Bytes)) : Prop :=
  ∀ first ∈ pieces, ∀ second ∈ pieces, first = second ∨
    first.1 + first.2.length ≤ second.1 ∨ second.1 + second.2.length ≤ first.1

theorem writeAll_perm (b : Blob) {pieces pieces' : List (Nat × Bytes)} (hperm : pieces.Perm pieces')
    (h : Disjoint pieces) : b.writeAll pieces = b.writeAll pieces' := by
  refine hperm.foldl_eq' (fun first hfirst second hsecond b => ?_) b
  rcases h first hfirst second hsecond with rfl | hplaces
  · rfl
  · exact write_comm b hplaces

theorem read_write_of_disjoint (h : b.read start content.length = content)
    (hdisjoint : start + content.length ≤ offset ∨ offset + data.length ≤ start) :
    (b.write offset data).read start content.length = content := by
  rw [read_eq_iff] at h ⊢
  intro i hi
  rw [← h i hi]
  rcases hdisjoint with hbefore | hbehind
  · have hsome : b.bytes[start + i]? = some content[i] := by
      rw [h i hi, List.getElem?_eq_getElem hi]
    exact getElem?_write_before data (by omega) (List.getElem?_eq_some_iff.mp hsome).1
  · exact getElem?_write_behind (by omega)

theorem read_write_of_same (hdata : b.read offset data.length = data) (n : Nat)
    (h : b.read start content.length = content) :
    (b.write offset (data.take n)).read start content.length = content := by
  rw [read_eq_iff] at hdata h ⊢
  intro i hi
  have hsome : b.bytes[start + i]? = some content[i] := by
    rw [h i hi, List.getElem?_eq_getElem hi]
  have hlength := (List.getElem?_eq_some_iff.mp hsome).1
  rw [← h i hi, getElem?_write]
  split_ifs with hinside hgap
  · rw [List.length_take] at hinside
    rw [List.getElem?_take_of_lt (by omega), ← hdata _ (by omega)]
    congr 1
    omega
  · omega
  · rfl

end Blob
