import Mathlib.Algebra.Order.Ring.Nat
import Mathlib.Tactic.Common

/-!
# Internet addresses

Addresses, blocks of addresses, and two ways to classify an address: by a few tests on its leading bits,
and by a registry of blocks for special purposes, each of which may contain blocks that are reachable
after all.
-/

namespace Ip

/-- An address; an IPv6 address without a zone has the empty one. -/
inductive Addr where
  | v4 (value : BitVec 32)
  | v6 (value : BitVec 128) (zone : String)
  deriving DecidableEq

/-- The addresses that begin like `base`, in `length` bits. -/
structure Block (w : Nat) where
  base : Nat
  length : Nat

def Block.contains {w : Nat} (block : Block w) (value : BitVec w) : Bool :=
  value.toNat / 2 ^ (w - block.length) = block.base / 2 ^ (w - block.length)

/-- `a.b.c.d/length`. -/
def block4 (a b c d length : Nat) : Block 32 := ⟨((a * 256 + b) * 256 + c) * 256 + d, length⟩

/-- The groups that are not given are zero. -/
def block6 (groups : List Nat) (length : Nat) : Block 128 :=
  ⟨groups.foldl (fun base group => base * 65536 + group) 0 * 65536 ^ (8 - groups.length), length⟩

/-- A byte of an IPv4 address, the first one for 0. -/
def byte (value : BitVec 32) (i : Nat) : Nat := value.toNat / 256 ^ (3 - i) % 256

/-! ### Tests on the leading bits -/

/-- The IPv4 address within `::ffff:0:0/96`. -/
def mapped (value : BitVec 128) : Option (BitVec 32) :=
  if (block6 [0, 0, 0, 0, 0, 0xffff] 96).contains value then some (value.truncate 32) else none

namespace Addr

def unmap : Addr → Addr
  | .v4 value => .v4 value
  | .v6 value zone =>
    match mapped value with
    | some inner => .v4 inner
    | none => .v6 value zone

theorem mapped_of_unmap {addr : Addr} {value : BitVec 128} {zone : String} (h : addr.unmap = .v6 value zone) :
    mapped value = none := by
  cases addr with
  | v4 => cases h
  | v6 value' zone' =>
    cases hmapped : mapped value' with
    | some inner =>
      simp only [unmap, hmapped] at h
      cases h
    | none =>
      simp only [unmap, hmapped] at h
      cases h
      exact hmapped

theorem unmap_unmap (addr : Addr) : addr.unmap.unmap = addr.unmap := by
  cases h : addr.unmap with
  | v4 => rfl
  | v6 value zone => simp only [unmap, mapped_of_unmap h]

def isLoopback (addr : Addr) : Bool :=
  match addr.unmap with
  | .v4 value => byte value 0 = 127
  | .v6 value _ => value.toNat = 1

def isMulticast (addr : Addr) : Bool :=
  match addr.unmap with
  | .v4 value => (block4 224 0 0 0 4).contains value
  | .v6 value _ => (block6 [0xff00] 8).contains value

def isLinkLocalUnicast (addr : Addr) : Bool :=
  match addr.unmap with
  | .v4 value => (block4 169 254 0 0 16).contains value
  | .v6 value _ => (block6 [0xfe80] 10).contains value

/-- The address without bits; one with a zone is another one. -/
def isUnspecified (addr : Addr) : Bool := addr = .v4 0 ∨ addr = .v6 0 ""

def isGlobalUnicast (addr : Addr) : Bool :=
  !(addr.unmap.isUnspecified || addr.unmap = .v4 (.allOnes 32) || addr.isLoopback || addr.isMulticast ||
    addr.isLinkLocalUnicast)

def isPrivate (addr : Addr) : Bool :=
  match addr.unmap with
  | .v4 value => (block4 10 0 0 0 8).contains value || (block4 172 16 0 0 12).contains value ||
      (block4 192 168 0 0 16).contains value
  | .v6 value _ => (block6 [0xfc00] 7).contains value

/-- An IPv6 block contains no address with a zone. -/
def within6 (block : Block 128) : Addr → Bool
  | .v4 _ => false
  | .v6 value zone => zone = "" && block.contains value

end Addr

/-! ### Registries -/

/-- Blocks that are not globally reachable, and blocks within them that are. -/
structure Registry where
  special4 : List (Block 32)
  reachable4 : List (Block 32)
  special6 : List (Block 128)
  reachable6 : List (Block 128)

namespace Registry

def isGlobal4 (registry : Registry) (value : BitVec 32) : Bool :=
  !(registry.special4.any (·.contains value)) || registry.reachable4.any (·.contains value)

/-- The zone does not matter, and a mapped address counts as the IPv4 address. -/
def isGlobal (registry : Registry) : Addr → Bool
  | .v4 value => registry.isGlobal4 value
  | .v6 value _ =>
    match mapped value with
    | some inner => registry.isGlobal4 inner
    | none => !(registry.special6.any (·.contains value)) || registry.reachable6.any (·.contains value)

/-- The special-purpose registries as Python's `ipaddress` has them: 5f00::/16, which is not reachable,
and 2001:1::3/128, which is, are missing there. A block counts as not reachable where they leave it
open. -/
def iana : Registry where
  special4 :=
    [block4 0 0 0 0 8, block4 10 0 0 0 8, block4 100 64 0 0 10, block4 127 0 0 0 8,
      block4 169 254 0 0 16, block4 172 16 0 0 12, block4 192 0 0 0 24, block4 192 0 2 0 24,
      block4 192 168 0 0 16, block4 198 18 0 0 15, block4 198 51 100 0 24, block4 203 0 113 0 24,
      block4 240 0 0 0 4]
  reachable4 := [block4 192 0 0 9 32, block4 192 0 0 10 32]
  special6 :=
    [block6 [] 128, block6 [0, 0, 0, 0, 0, 0, 0, 1] 128, block6 [0x64, 0xff9b, 1] 48, block6 [0x100] 64,
      block6 [0x2001] 23, block6 [0x2001, 0xdb8] 32, block6 [0x2002] 16, block6 [0x3fff] 20,
      block6 [0xfc00] 7, block6 [0xfe80] 10]
  reachable6 :=
    [block6 [0x2001, 1, 0, 0, 0, 0, 0, 1] 128, block6 [0x2001, 1, 0, 0, 0, 0, 0, 2] 128,
      block6 [0x2001, 3] 32, block6 [0x2001, 4, 0x112] 48, block6 [0x2001, 0x20] 28,
      block6 [0x2001, 0x30] 28]

end Registry

end Ip
