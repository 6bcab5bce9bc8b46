import CallBackend.Config
import CallBackend.Lib.Ip
import CallBackend.Lib.JsonText

/-!
# The address the backend announces

The network helper finds out under which address the backend can be reached and writes it into a file,
with the ports and the time. `checkState` is the helper's own health check; `resolve_public_host` is how
the backend reads the file. Each side decides by tables of its own which addresses are public, and the
backend reads at most 4096 bytes.

The texts of addresses and of JSON values are made and read by the libraries of the two languages; they
are parameters here. The clock counts nanoseconds, and what the backend computes with it is exact.
-/

namespace CallBackend.Network

open Ip

/-! ### The helper -/

def stateMaxAge : Nanos := seconds (3 * 60 * 60)

def refused4 (value : BitVec 32) : Bool :=
  byte value 0 = 0 ∨ 224 ≤ byte value 0 ∨
    (byte value 0 = 100 ∧ 64 ≤ byte value 1 ∧ byte value 1 ≤ 127) ∨
    (byte value 0 = 192 ∧ byte value 1 = 0) ∨
    (byte value 0 = 198 ∧ (byte value 1 = 18 ∨ byte value 1 = 19)) ∨
    (byte value 0 = 198 ∧ byte value 1 = 51 ∧ byte value 2 = 100) ∨
    (byte value 0 = 203 ∧ byte value 1 = 0 ∧ byte value 2 = 113)

/-- `isPublicInternetAddress`; `none` is the zero `Addr`. -/
def isPublicInternetAddress (address : Option Addr) : Bool :=
  match address.map Addr.unmap with
  | none => false
  | some address =>
    if !address.isGlobalUnicast || address.isPrivate || address.isLoopback ||
        address.isLinkLocalUnicast then false
    else
      match address with
      | .v4 value => !refused4 value
      | .v6 _ _ => !address.within6 (block6 [0x2001, 0xdb8] 32)

/-- The document in the file. -/
structure State where
  version : Nat
  publicHost : String
  ports : List UInt16
  mode : String
  /-- In milliseconds. -/
  updatedAt : Nat
  deriving DecidableEq

/-- What the libraries of both languages do. -/
structure Library where
  /-- Go: `Addr.String`. -/
  string : Addr → String
  /-- Go: `netip.ParseAddr`. -/
  parseAddr : String → Option Addr
  /-- Go: a string as `json.Marshal` writes it. -/
  quoted : String → Bytes
  /-- Go: `json.Unmarshal`. -/
  unmarshal : Bytes → Except String State
  /-- Python: `str.strip`. -/
  strip : String → String
  /-- Python: `str.lower`. -/
  lower : String → String
  /-- Python: `ipaddress.ip_address`. -/
  ipAddress : String → Except Exn Addr
  /-- Python: `compressed`. -/
  compressed : Addr → String
  /-- Python: `json.loads`, or one of the two exceptions that are caught. -/
  loads : Bytes → Option Json
  /-- Python: what `is_global` goes by. -/
  registry : Registry

def text (s : String) : Bytes := s.toUTF8.data.toList

def number (n : Nat) : Bytes := (Nat.toDigits 10 n).map fun c => UInt8.ofNat c.toNat

def commaSeparated : List Bytes → Bytes
  | [] => []
  | [item] => item
  | item :: rest => item ++ text "," ++ commaSeparated rest

variable (lib : Library)

def State.document (s : State) : Bytes :=
  text "\x7b\"version\":" ++ number s.version ++ text ",\"publicHost\":" ++ lib.quoted s.publicHost ++
    text ",\"ports\":[" ++ commaSeparated (s.ports.map fun port => number port.toNat) ++
    text "],\"mode\":" ++ lib.quoted s.mode ++ text ",\"updatedAt\":" ++ number s.updatedAt ++
    text "\x7d" ++ text "\n"

/-- `writeState`: the content of the file. -/
def writeState (host : Option Addr) (ports : List UInt16) (mode : String) (now : Nanos) :
    Except String Bytes :=
  match host with
  | none => .error "resolved host is not a public internet address"
  | some addr =>
    if isPublicInternetAddress (some addr) then
      .ok (State.document lib ⟨1, lib.string addr.unmap, ports, mode, millis now⟩)
    else .error "resolved host is not a public internet address"

/-- The time of a document lies more than a minute ahead, or more than three hours back. -/
def Stale (updatedAt : Int) (now : Nanos) : Prop :=
  now + seconds 60 < updatedAt * 1000000 ∨ stateMaxAge < now - updatedAt * 1000000

instance (updatedAt : Int) (now : Nanos) : Decidable (Stale updatedAt now) :=
  inferInstanceAs (Decidable (_ ∨ _))

def checkState (raw : Bytes) (now : Nanos) : Except String Unit :=
  match lib.unmarshal raw with
  | .error message => .error message
  | .ok value =>
    if lib.parseAddr value.publicHost = none ∨ value.version ≠ 1 ∨
        ¬isPublicInternetAddress (lib.parseAddr value.publicHost) ∨ value.ports = [] then
      .error "invalid reachability state"
    else if Stale value.updatedAt now then .error "stale reachability state"
    else .ok ()

/-! ### The backend -/

def stateVersion : Int := 1

/-- `value == n`. -/
def equalsInt (n : Int) : Json → Bool
  | .int m => m = n
  | .float q => q = n
  | .bool b => (if b then 1 else 0) = n
  | _ => false

def int? : Json → Option Int
  | .int n => some n
  | _ => none

def ints? : Json → Option (List Int)
  | .arr items => items.mapM int?
  | _ => none

def modes : List String := ["configured", "direct", "upnp"]

def members : List String := ["version", "publicHost", "ports", "mode", "updatedAt"]

def invalidState : Exn := .runtimeError "automatic network state is invalid"

/-- The checks of the document, up to its age: the host and the time. -/
def readDocument (document : Json) (port : Int) : Except Exn (String × Int) :=
  if document.hasExactly members then
    match (document.get "publicHost").text?, (document.get "mode").text?,
        ints? (document.get "ports"), int? (document.get "updatedAt") with
    | some publicHost, some mode, some ports, some updatedAt =>
      if equalsInt stateVersion (document.get "version") ∧ mode ∈ modes ∧ port ∈ ports then
        .ok (publicHost, updatedAt)
      else .error invalidState
    | _, _, _, _ => .error invalidState
  else .error invalidState

/-- `resolve_public_host`; there is no file if it cannot be read. -/
def resolvePublicHost (configuredHost : String) (port : Int) (file : Option Bytes) (now : Nanos) :
    Except Exn String :=
  let value := lib.strip configuredHost
  if lib.lower value ≠ "auto" then (lib.ipAddress value).map lib.compressed
  else
    match file with
    | none => .error (.runtimeError "automatic network state is unavailable")
    | some raw =>
      if 4096 < raw.length then .error invalidState
      else
        match lib.loads raw with
        | none => .error invalidState
        | some document =>
          match readDocument document port with
          | .error exn => .error exn
          | .ok (publicHost, updatedAt) =>
            if Stale updatedAt now then .error (.runtimeError "automatic network state is stale")
            else
              match lib.ipAddress publicHost with
              | .error (.valueError _) => .error (.runtimeError "automatic public host is invalid")
              | .error exn => .error exn
              | .ok host =>
                if lib.registry.isGlobal host then .ok (lib.compressed host)
                else
                  .error (.runtimeError "automatic public host is not globally routable")

/-! ### What the backend makes of a document -/

def State.json (s : State) : Json :=
  .obj [("version", .int s.version), ("publicHost", .str s.publicHost),
    ("ports", .arr (s.ports.map fun port => .int port.toNat)), ("mode", .str s.mode),
    ("updatedAt", .int s.updatedAt)]

/-- A zone that `ip_address` takes. -/
def Readable : Addr → Prop
  | .v4 _ => True
  | .v6 _ zone => '%' ∉ zone.toList ∧ '/' ∉ zone.toList

/-- The libraries read a document and the address in it as they have been written. -/
structure Library.Reads (lib : Library) (s : State) (address : Addr) : Prop where
  unmarshal : lib.unmarshal (s.document lib) = .ok s
  loads : lib.loads (s.document lib) = some s.json
  auto : lib.lower (lib.strip "auto") = "auto"
  readable : Readable address → lib.ipAddress (lib.string address) = .ok address
  unreadable : ¬Readable address →
    ∃ message, lib.ipAddress (lib.string address) = .error (.valueError message)
  compressed : lib.compressed address = lib.string address

def digits (n : Nat) : Nat := (Nat.toDigits 10 n).length

def documentSize (host : Addr) (ports : List UInt16) (mode : String) (updatedAt : Nat) : Nat :=
  60 + (lib.quoted (lib.string host)).length + (ports.map fun port => digits port.toNat).sum +
    (ports.length - 1) + (lib.quoted mode).length + digits updatedAt

theorem length_commaSeparated (items : List Bytes) :
    (commaSeparated items).length = (items.map List.length).sum + (items.length - 1) := by
  induction items with
  | nil => rfl
  | cons item rest ih =>
    cases rest with
    | nil => simp [commaSeparated]
    | cons next rest =>
      have hcomma : (text ",").length = 1 := rfl
      rw [commaSeparated.eq_3 _ _ (List.cons_ne_nil _ _), List.length_append, List.length_append,
        hcomma, ih]
      simp only [List.map_cons, List.sum_cons, List.length_cons]
      omega

variable {lib} {s : State} {address : Addr} {port : UInt16} {now : Nanos}

theorem length_document (hversion : s.version = 1) (hhost : s.publicHost = lib.string address) :
    (s.document lib).length = documentSize lib address s.ports s.mode s.updatedAt := by
  have hnumber : ∀ n, (number n).length = digits n := fun n => List.length_map _
  have hports : ((s.ports.map fun port => number port.toNat).map List.length).sum =
      (s.ports.map fun port => digits port.toNat).sum := by
    rw [List.map_map]
    exact congrArg List.sum (List.map_congr_left fun port _ => hnumber _)
  rw [State.document, hversion, hhost]
  simp only [List.length_append, hnumber, length_commaSeparated, hports, List.length_map]
  have htexts : (text "\x7b\"version\":").length = 11 ∧ digits 1 = 1 ∧
      (text ",\"publicHost\":").length = 14 ∧ (text ",\"ports\":[").length = 10 ∧
      (text "],\"mode\":").length = 9 ∧ (text ",\"updatedAt\":").length = 13 ∧
      (text "\x7d").length = 1 ∧ (text "\n").length = 1 := by decide
  unfold documentSize
  omega

theorem ints?_ports (ports : List UInt16) :
    ints? (.arr (ports.map fun port => .int port.toNat)) =
      some (ports.map fun port => (port.toNat : Int)) := by
  rw [ints?]
  induction ports with
  | nil => rfl
  | cons port rest ih => simp [int?, ih]

theorem readDocument_json (hversion : s.version = 1) (hport : port ∈ s.ports) :
    readDocument s.json port.toNat =
      if s.mode ∈ modes then .ok (s.publicHost, (s.updatedAt : Int)) else .error invalidState := by
  have hexactly : s.json.hasExactly members = true := by
    simp [State.json, Json.hasExactly, members]
  have hmem : (port.toNat : Int) ∈ s.ports.map fun port => (port.toNat : Int) :=
    List.mem_map_of_mem hport
  have hone : equalsInt stateVersion (s.json.get "version") = true := by
    simp [State.json, Json.get, Json.lookup, equalsInt, hversion, stateVersion]
  have hports : ints? (s.json.get "ports") = some (s.ports.map fun port => (port.toNat : Int)) :=
    ints?_ports s.ports
  have hhost : (s.json.get "publicHost").text? = some s.publicHost := rfl
  have hmode : (s.json.get "mode").text? = some s.mode := rfl
  have hupdated : int? (s.json.get "updatedAt") = some (s.updatedAt : Int) := rfl
  rw [readDocument, if_pos hexactly, hhost, hmode, hports, hupdated]
  by_cases hknown : s.mode ∈ modes
  · rw [if_pos hknown]
    exact if_pos ⟨hone, hknown, hmem⟩
  · rw [if_neg hknown]
    exact if_neg fun h => hknown h.2.1

/-- The backend returns the host of a fresh document for a port in it exactly under these conditions. -/
theorem resolve_document_iff (hlib : lib.Reads s address) (hversion : s.version = 1)
    (hhost : s.publicHost = lib.string address) (hport : port ∈ s.ports)
    (hfresh : ¬Stale s.updatedAt now) :
    resolvePublicHost lib "auto" port.toNat (some (s.document lib)) now = .ok (lib.string address) ↔
      lib.registry.isGlobal address = true ∧ Readable address ∧ s.mode ∈ modes ∧
        documentSize lib address s.ports s.mode s.updatedAt ≤ 4096 := by
  rw [resolvePublicHost, hlib.auto, if_neg (not_not.2 rfl), length_document hversion hhost]
  by_cases hsize : 4096 < documentSize lib address s.ports s.mode s.updatedAt
  · rw [if_pos hsize]
    exact iff_of_false (fun h => nomatch h) fun h => absurd hsize (Nat.not_lt.2 h.2.2.2)
  rw [if_neg hsize, hlib.loads]
  dsimp only
  rw [readDocument_json hversion hport]
  by_cases hmode : s.mode ∈ modes
  swap
  · rw [if_neg hmode]
    exact iff_of_false (fun h => nomatch h) fun h => hmode h.2.2.1
  rw [if_pos hmode]
  dsimp only
  rw [if_neg hfresh, hhost]
  by_cases hreadable : Readable address
  swap
  · obtain ⟨message, hmessage⟩ := hlib.unreadable hreadable
    rw [hmessage]
    exact iff_of_false (fun h => nomatch h) fun h => hreadable h.2.1
  rw [hlib.readable hreadable]
  by_cases hglobal : lib.registry.isGlobal address = true
  · dsimp only
    rw [if_pos hglobal, hlib.compressed]
    exact iff_of_true rfl ⟨hglobal, hreadable, hmode, Nat.le_of_not_lt hsize⟩
  · dsimp only
    rw [if_neg hglobal]
    exact iff_of_false (fun h => nomatch h) fun h => hglobal h.1

theorem not_stale_self (updatedAt : Nat) : ¬Stale updatedAt (updatedAt * 1000000) := by
  unfold Stale stateMaxAge seconds
  push_cast
  omega

/-- The same for every port and every time at which the document is fresh. -/
theorem document_resolves_iff (hlib : lib.Reads s address) (hversion : s.version = 1)
    (hhost : s.publicHost = lib.string address) (hports : s.ports ≠ []) :
    (∀ port ∈ s.ports, ∀ now, ¬Stale s.updatedAt now →
        resolvePublicHost lib "auto" port.toNat (some (s.document lib)) now = .ok (lib.string address)) ↔
      lib.registry.isGlobal address = true ∧ Readable address ∧ s.mode ∈ modes ∧
        documentSize lib address s.ports s.mode s.updatedAt ≤ 4096 := by
  constructor
  · intro h
    obtain ⟨port, hport⟩ := List.exists_mem_of_ne_nil s.ports hports
    have hfresh := not_stale_self s.updatedAt
    exact (resolve_document_iff hlib hversion hhost hport hfresh).1 (h port hport _ hfresh)
  · intro h port hport now hfresh
    exact (resolve_document_iff hlib hversion hhost hport hfresh).2 h

/-- What `writeState` writes and `checkState` accepts names the unmapped address, and has a port. -/
theorem published {host : Addr} {ports : List UInt16} {mode : String} {raw : Bytes}
    {written checked : Nanos} (hwrite : writeState lib (some host) ports mode written = .ok raw)
    (hcheck : checkState lib raw checked = .ok ())
    (hlib : lib.Reads ⟨1, lib.string host.unmap, ports, mode, millis written⟩ host.unmap) :
    raw = State.document lib ⟨1, lib.string host.unmap, ports, mode, millis written⟩ ∧ ports ≠ [] ∧
      isPublicInternetAddress (some host) = true := by
  simp only [writeState] at hwrite
  split_ifs at hwrite with hpublic
  cases hwrite
  refine ⟨rfl, ?_, hpublic⟩
  rintro rfl
  rw [checkState, hlib.unmarshal] at hcheck
  dsimp only at hcheck
  rw [if_pos (.inr (.inr (.inr rfl)))] at hcheck
  cases hcheck

/-- The backend returns the host of every healthy document, for every port in it and for as long as the
document is fresh, exactly if the host is global by the registry, its zone can be read, the mode is one
of the three, and the document fits into 4096 bytes. -/
theorem published_host_resolves_iff {host : Addr} {ports : List UInt16} {mode : String} {raw : Bytes}
    {written checked : Nanos} (hwrite : writeState lib (some host) ports mode written = .ok raw)
    (hcheck : checkState lib raw checked = .ok ())
    (hlib : lib.Reads ⟨1, lib.string host.unmap, ports, mode, millis written⟩ host.unmap) :
    (∀ port ∈ ports, ∀ now, ¬Stale (millis written) now →
        resolvePublicHost lib "auto" port.toNat (some raw) now = .ok (lib.string host.unmap)) ↔
      lib.registry.isGlobal host.unmap = true ∧ Readable host.unmap ∧ mode ∈ modes ∧
        documentSize lib host.unmap ports mode (millis written) ≤ 4096 := by
  obtain ⟨rfl, hports, -⟩ := published hwrite hcheck hlib
  exact document_resolves_iff hlib rfl rfl hports

/-! ### The two classifications -/

theorem refused4_of_contains {value : BitVec 32} {block : Block 32}
    (hblock : block ∈ [block4 0 0 0 0 8, block4 100 64 0 0 10, block4 192 0 0 0 24, block4 192 0 2 0 24,
      block4 198 18 0 0 15, block4 198 51 100 0 24, block4 203 0 113 0 24, block4 240 0 0 0 4])
    (h : block.contains value = true) : refused4 value = true := by
  have hlt := value.isLt
  have h := of_decide_eq_true h
  refine decide_eq_true ?_
  unfold byte
  simp only [List.mem_cons, List.not_mem_nil, or_false] at hblock
  rcases hblock with rfl | rfl | rfl | rfl | rfl | rfl | rfl | rfl
  · change value.toNat / 2 ^ 24 = 0 at h
    exact .inl (by omega)
  · change value.toNat / 2 ^ 22 = 401 at h
    exact .inr (.inr (.inl ⟨by omega, by omega, by omega⟩))
  · change value.toNat / 2 ^ 8 = 12582912 at h
    exact .inr (.inr (.inr (.inl ⟨by omega, by omega⟩)))
  · change value.toNat / 2 ^ 8 = 12582914 at h
    exact .inr (.inr (.inr (.inl ⟨by omega, by omega⟩)))
  · change value.toNat / 2 ^ 17 = 25353 at h
    exact .inr (.inr (.inr (.inr (.inl ⟨by omega, by omega⟩))))
  · change value.toNat / 2 ^ 8 = 12989284 at h
    exact .inr (.inr (.inr (.inr (.inr (.inl ⟨by omega, by omega, by omega⟩)))))
  · change value.toNat / 2 ^ 8 = 13303921 at h
    exact .inr (.inr (.inr (.inr (.inr (.inr ⟨by omega, by omega, by omega⟩)))))
  · change value.toNat / 2 ^ 28 = 15 at h
    exact .inr (.inl (by omega))

theorem special4_of_public {value : BitVec 32} (h : isPublicInternetAddress (some (.v4 value)) = true) :
    Registry.iana.special4.any (·.contains value) = false := by
  simp only [isPublicInternetAddress, Option.map_some, Addr.unmap] at h
  split_ifs at h with htests
  simp only [Addr.isPrivate, Addr.isLoopback, Addr.isLinkLocalUnicast, Addr.unmap, Bool.or_eq_true,
    not_or] at htests
  obtain ⟨⟨⟨-, ⟨h10, h172⟩, h192⟩, hloopback⟩, hlocal⟩ := htests
  have hkept : refused4 value ≠ true := by simpa using h
  refine List.any_eq_false.2 fun block hblock hin => ?_
  simp only [Registry.iana, List.mem_cons, List.not_mem_nil, or_false] at hblock
  rcases hblock with rfl | rfl | rfl | rfl | rfl | rfl | rfl | rfl | rfl | rfl | rfl | rfl | rfl
  · exact hkept (refused4_of_contains (by simp) hin)
  · exact h10 hin
  · exact hkept (refused4_of_contains (by simp) hin)
  · have hin : value.toNat / 2 ^ 24 = 127 := of_decide_eq_true hin
    exact hloopback (decide_eq_true (by unfold byte; omega))
  · exact hlocal hin
  · exact h172 hin
  · exact hkept (refused4_of_contains (by simp) hin)
  · exact hkept (refused4_of_contains (by simp) hin)
  · exact h192 hin
  · exact hkept (refused4_of_contains (by simp) hin)
  · exact hkept (refused4_of_contains (by simp) hin)
  · exact hkept (refused4_of_contains (by simp) hin)
  · exact hkept (refused4_of_contains (by simp) hin)

/-- An IPv4 address that the helper takes for public is global. -/
theorem isGlobal_of_public4 {value : BitVec 32} (h : isPublicInternetAddress (some (.v4 value)) = true) :
    Registry.iana.isGlobal (.v4 value) = true := by
  simp only [Registry.isGlobal, Registry.isGlobal4, special4_of_public h, Bool.not_false, Bool.true_or]

/-- The address `8.8.8.8`. -/
theorem isGlobal_of_public4_resolver : isPublicInternetAddress (some (.v4 0x08080808#32)) = true ∧
    Registry.iana.isGlobal (.v4 0x08080808#32) = true :=
  ⟨by decide +kernel, isGlobal_of_public4 (by decide +kernel)⟩

/-- The IPv6 blocks that the helper takes for public, though they are not global as a whole. -/
def overlooked : List (Block 128) :=
  [block6 [0x64, 0xff9b, 1] 48, block6 [0x100] 64, block6 [0x2001] 23, block6 [0x2002] 16,
    block6 [0x3fff] 20]

theorem special6_of_public {value : BitVec 128} (hmapped : mapped value = none)
    (h : isPublicInternetAddress (some (.v6 value "")) = true) :
    Registry.iana.special6.any (·.contains value) = overlooked.any (·.contains value) := by
  have hunmap : (Addr.v6 value "").unmap = .v6 value "" := by simp only [Addr.unmap, hmapped]
  simp only [isPublicInternetAddress, Option.map_some, hunmap] at h
  split_ifs at h with htests
  simp only [Addr.isGlobalUnicast, Addr.isPrivate, Addr.isLoopback, Addr.isLinkLocalUnicast, hunmap,
    Bool.or_eq_true, not_or, Bool.not_eq_true] at htests
  obtain ⟨⟨⟨hunicast, hprivate⟩, hloopback⟩, hlocal⟩ := htests
  have hzero : (block6 [] 128).contains value = false := by
    rw [Bool.eq_false_iff]
    intro hin
    have hin : value.toNat / 1 = 0 := of_decide_eq_true hin
    have hvalue : value = 0 := BitVec.eq_of_toNat_eq (by simpa using hin)
    simp [hvalue, Addr.isUnspecified] at hunicast
  have hdocumentation : (block6 [0x2001, 0xdb8] 32).contains value = false := by
    simpa [Addr.within6] using h
  have hone : (block6 [0, 0, 0, 0, 0, 0, 0, 1] 128).contains value = false := by
    rw [Bool.eq_false_iff]
    intro hin
    have hin : value.toNat / 1 = 1 := of_decide_eq_true hin
    exact of_decide_eq_false hloopback (by omega)
  simp only [Registry.iana, overlooked, List.any_cons, List.any_nil, hzero, hone, hdocumentation, hprivate,
    hlocal, Bool.false_or, Bool.or_false]

/-- An IPv6 address without a zone that the helper takes for public is global unless it lies in one of
these blocks, and there only in a part that is reachable. -/
theorem isGlobal_of_public6 {value : BitVec 128} (hmapped : mapped value = none)
    (h : isPublicInternetAddress (some (.v6 value "")) = true) :
    Registry.iana.isGlobal (.v6 value "") =
      (!overlooked.any (·.contains value) || Registry.iana.reachable6.any (·.contains value)) := by
  simp only [Registry.isGlobal, hmapped, special6_of_public hmapped h]

/-- The address `100::1` of the block for discarded traffic. -/
theorem isGlobal_of_public6_discarded :
    let value := BitVec.ofNat 128 (0x100 * 65536 ^ 7 + 1)
    isPublicInternetAddress (some (.v6 value "")) = true ∧ Registry.iana.isGlobal (.v6 value "") = false :=
  ⟨by decide +kernel, (isGlobal_of_public6 (by decide +kernel) (by decide +kernel)).trans (by decide +kernel)⟩

/-- In one of these blocks, and not in a part that is reachable. -/
def Overlooked : Addr → Prop
  | .v4 _ => False
  | .v6 value _ => overlooked.any (·.contains value) = true ∧
      Registry.iana.reachable6.any (·.contains value) = false

theorem isGlobal_iff_not_overlooked {host : Addr} (h : isPublicInternetAddress (some host) = true)
    (hzone : ∀ value zone, host.unmap = .v6 value zone → zone = "") :
    Registry.iana.isGlobal host.unmap = true ↔ ¬Overlooked host.unmap := by
  have hpublic : isPublicInternetAddress (some host.unmap) = true := by
    simpa only [isPublicInternetAddress, Option.map_some, Addr.unmap_unmap] using h
  cases hunmap : host.unmap with
  | v4 value =>
    rw [hunmap] at hpublic
    simp [Registry.isGlobal, Registry.isGlobal4, special4_of_public hpublic, Overlooked]
  | v6 value zone =>
    cases hzone value zone hunmap
    rw [hunmap] at hpublic
    have hmapped := Addr.mapped_of_unmap hunmap
    simp only [Registry.isGlobal, hmapped, special6_of_public hmapped hpublic, Overlooked]
    cases overlooked.any (·.contains value) <;> simp

/-- With the tables of `ipaddress`, the backend returns a healthy document's host without a zone unless
the helper overlooks its block, the mode is none of the three or the document is too long. -/
theorem published_resolves_iff_not_overlooked {host : Addr} {ports : List UInt16} {mode : String}
    {raw : Bytes} {written checked : Nanos} (hregistry : lib.registry = .iana)
    (hzone : ∀ value zone, host.unmap = .v6 value zone → zone = "")
    (hwrite : writeState lib (some host) ports mode written = .ok raw)
    (hcheck : checkState lib raw checked = .ok ())
    (hlib : lib.Reads ⟨1, lib.string host.unmap, ports, mode, millis written⟩ host.unmap) :
    (∀ port ∈ ports, ∀ now, ¬Stale (millis written) now →
        resolvePublicHost lib "auto" port.toNat (some raw) now = .ok (lib.string host.unmap)) ↔
      ¬Overlooked host.unmap ∧ mode ∈ modes ∧
        documentSize lib host.unmap ports mode (millis written) ≤ 4096 := by
  obtain ⟨rfl, hports, hpublic⟩ := published hwrite hcheck hlib
  have hreadable : Readable host.unmap := by
    cases hunmap : host.unmap with
    | v4 => exact trivial
    | v6 value zone =>
      cases hzone value zone hunmap
      exact ⟨List.not_mem_nil, List.not_mem_nil⟩
  have hglobal := isGlobal_iff_not_overlooked hpublic hzone
  rw [← hregistry] at hglobal
  rw [← hglobal]
  refine (document_resolves_iff hlib rfl rfl hports).trans (and_congr_right fun _ => ?_)
  exact and_iff_right hreadable

namespace Sample

def discarded : Addr := .v6 (BitVec.ofNat 128 (0x100 * 65536 ^ 7 + 1)) ""

/-- `8.8.8.8`. -/
def resolver : Addr := .v4 0x08080808#32

def written : Nanos := 1700000000 * 1000000000

/-- Libraries that know a single address with its text, and a single document. -/
def library (address : Addr) (host : String) : Library where
  string _ := host
  parseAddr _ := some address
  quoted s := text "\"" ++ text s ++ text "\""
  unmarshal _ := .ok ⟨1, host, [4445], "direct", millis written⟩
  strip s := s
  lower s := s
  ipAddress _ := .ok address
  compressed _ := host
  loads _ := some (State.json ⟨1, host, [4445], "direct", millis written⟩)
  registry := .iana

theorem reads (address : Addr) (host : String) (h : Readable address) :
    (library address host).Reads ⟨1, host, [4445], "direct", millis written⟩ address where
  unmarshal := rfl
  loads := rfl
  auto := rfl
  readable := fun _ => rfl
  unreadable := fun hnot => absurd h hnot
  compressed := rfl

end Sample

open Sample in
theorem published_host_resolves_iff_resolver :
    ∃ raw, writeState (library resolver "8.8.8.8") (some resolver) [4445] "direct" written = .ok raw ∧
      resolvePublicHost (library resolver "8.8.8.8") "auto" (4445 : UInt16).toNat (some raw) written =
        .ok "8.8.8.8" := by
  have hwrite : writeState (library resolver "8.8.8.8") (some resolver) [4445] "direct" written =
      .ok (State.document (library resolver "8.8.8.8")
        ⟨1, "8.8.8.8", [4445], "direct", millis written⟩) := rfl
  have hcheck : checkState (library resolver "8.8.8.8") (State.document (library resolver "8.8.8.8")
      ⟨1, "8.8.8.8", [4445], "direct", millis written⟩) written = .ok () := rfl
  have hiff := published_host_resolves_iff hwrite hcheck (reads resolver "8.8.8.8" trivial)
  have hglobal : Registry.iana.isGlobal resolver = true := rfl
  have hsize : documentSize (library resolver "8.8.8.8") resolver [4445] "direct" (millis written) ≤
      4096 := by decide
  exact ⟨_, hwrite, hiff.2 ⟨hglobal, trivial, by decide, hsize⟩ 4445 (.head _) written
    (by decide)⟩

open Sample in
/-- The helper publishes `100::1` and is healthy, and the backend does not start. -/
theorem published_host_refused :
    ∃ raw, writeState (library discarded "100::1") (some discarded) [4445] "direct" written = .ok raw ∧
      checkState (library discarded "100::1") raw written = .ok () ∧
      resolvePublicHost (library discarded "100::1") "auto" 4445 (some raw) written =
        .error (.runtimeError "automatic public host is not globally routable") :=
  ⟨_, rfl, rfl, rfl⟩

end CallBackend.Network
