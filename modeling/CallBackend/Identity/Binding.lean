import CallBackend.Identity.Challenge

/-!
# Owner bindings

An attach token is bound to its owner by a hash over seven fields, which are joined with NUL
characters. The fields at the end and the service are free of NULs. The name of a Q-App and the id of
a logical connection need not be, so the text does not always say where the service stands: it may
be read at an earlier or at a later segment, if what is then left for the name is canonical and what is
left for the id is not too long.
-/

namespace CallBackend.Identity

open Server (TextLibrary Purpose servicePattern noncePattern normalizeQAppIdentity)

/-- The arguments of `owner_binding_hash`. -/
structure Owner where
  name : String
  service : String
  logicalConnectionId : String
  backendDestination : String
  logicalSessionId : SessionId
  nonce : String
  purpose : Purpose
  deriving DecidableEq

def bindingLabel : String := "qortal-private-owner-v2\x00"

def Owner.value (owner : Owner) : String :=
  bindingLabel ++
    owner.name ++ "\x00" ++ owner.service ++ "\x00" ++ owner.logicalConnectionId ++ "\x00" ++
    owner.backendDestination ++ "\x00" ++
    owner.logicalSessionId ++ "\x00" ++ owner.nonce ++ "\x00" ++ owner.purpose.text

def ownerBindingHash (sha256Hex : String → String) (owner : Owner) : String := sha256Hex owner.value

def maxLogicalConnectionIdLength : Nat := 128

/-- An identity that `normalize_qapp_identity` accepts as it is. -/
def Canonical (library : TextLibrary) (name service : String) : Prop :=
  normalizeQAppIdentity library (name, service) = .ok (name, service)

/-- What `decode_data_envelope` accepts. -/
def LogicalConnectionId (id : String) : Prop := 1 ≤ id.length ∧ id.length ≤ maxLogicalConnectionIdLength

instance (id : String) : Decidable (LogicalConnectionId id) :=
  inferInstanceAs (Decidable (1 ≤ id.length ∧ id.length ≤ maxLogicalConnectionIdLength))

structure Owner.Valid (library : TextLibrary) (owner : Owner) : Prop where
  identity : Canonical library owner.name owner.service
  connection : LogicalConnectionId owner.logicalConnectionId
  destination : destinationPattern owner.backendDestination = true
  session : owner.logicalSessionId.toList.all Call.isIdChar = true
  nonce : noncePattern owner.nonce = true

/-- Another service can be read in the logical id: with all that is before it the name is canonical,
and an id is left. -/
def Owner.ReadsLater (library : TextLibrary) (owner : Owner) : Prop :=
  ∃ between service id, "\x00" ++ owner.logicalConnectionId = between ++ "\x00" ++ service ++ "\x00" ++ id ∧
    Canonical library (owner.name ++ "\x00" ++ owner.service ++ between) service ∧ LogicalConnectionId id

/-- Another service can be read in the name: what is before it is canonical, and with all that is
after it the id is not too long. -/
def Owner.ReadsEarlier (library : TextLibrary) (owner : Owner) : Prop :=
  ∃ name service between id, owner.name = name ++ "\x00" ++ service ++ between ∧
    between ++ "\x00" ++ owner.service ++ "\x00" ++ owner.logicalConnectionId = "\x00" ++ id ∧
    Canonical library name service ∧ LogicalConnectionId id

/-! ### Texts joined with NULs -/

section Separators

variable {α : Type} {sep : α} {a b a' b' : List α}

theorem append_cons_inj_last (hb : sep ∉ b) (hb' : sep ∉ b') (h : a ++ sep :: b = a' ++ sep :: b') :
    a = a' ∧ b = b' := by
  obtain ⟨rest, ha, hrest⟩ | ⟨rest, ha, hrest⟩ := List.append_eq_append_iff.1 h
  · cases rest with
    | nil => exact ⟨by rw [ha, List.append_nil], (List.cons.inj hrest).2⟩
    | cons x rest =>
      rw [(List.cons.inj hrest).2] at hb
      exact absurd (List.mem_append_right _ (.head _)) hb
  · cases rest with
    | nil => exact ⟨by rw [ha, List.append_nil], (List.cons.inj hrest).2.symm⟩
    | cons x rest =>
      rw [(List.cons.inj hrest).2] at hb'
      exact absurd (List.mem_append_right _ (.head _)) hb'

theorem append_cons_eq_of_notMem (ha : sep ∉ a) (h : a ++ sep :: b = a' ++ sep :: b') :
    ∃ rest, a' = a ++ rest ∧ sep :: b = rest ++ sep :: b' := by
  obtain ⟨rest, ha', hrest⟩ | ⟨rest, ha', hrest⟩ := List.append_eq_append_iff.1 h
  · exact ⟨rest, ha', hrest⟩
  · cases rest with
    | nil => exact ⟨[], by rw [ha', List.append_nil, List.append_nil], hrest.symm⟩
    | cons x rest =>
      rw [ha', ← (List.cons.inj hrest).1] at ha
      exact absurd (List.mem_append_right _ (.head _)) ha

end Separators

theorem notMem_of_fullmatch {allowed : Char → Bool} {low high : Nat} {text : String}
    (hallowed : allowed '\x00' = false) (h : fullmatch allowed low high text = true) :
    '\x00' ∉ text.toList := by
  intro hmem
  simp only [fullmatch, Bool.and_eq_true, List.all_eq_true] at h
  have hnul := h.1.1 _ hmem
  rw [hallowed] at hnul
  cases hnul

theorem Canonical.service {library : TextLibrary} {name service : String}
    (h : Canonical library name service) : '\x00' ∉ service.toList := by
  simp only [Canonical, normalizeQAppIdentity] at h
  split_ifs at h with hname hservice
  rw [(Prod.mk.inj (Except.ok.inj h)).2] at hservice
  exact notMem_of_fullmatch rfl hservice

theorem Purpose.text_nulFree (purpose : Purpose) : '\x00' ∉ purpose.text.toList := by
  cases purpose <;> decide

theorem Purpose.text_inj {purpose other : Purpose} (h : purpose.text = other.text) : purpose = other := by
  cases purpose <;> cases other <;> first | rfl | exact absurd h (by decide)

/-! ### Readings of a text -/

def Owner.front (owner : Owner) : List Char :=
  owner.name.toList ++ '\x00' :: (owner.service.toList ++ '\x00' :: owner.logicalConnectionId.toList)

theorem Owner.toList_value (owner : Owner) :
    owner.value.toList = ((((bindingLabel.toList ++ owner.front) ++
      '\x00' :: owner.backendDestination.toList) ++ '\x00' :: owner.logicalSessionId.toList) ++
      '\x00' :: owner.nonce.toList) ++ '\x00' :: owner.purpose.text.toList := by
  have hnul : "\x00".toList = ['\x00'] := rfl
  simp only [value, front, String.toList_append, hnul, List.append_assoc, List.cons_append,
    List.nil_append]

variable {library : TextLibrary} {owner other : Owner}

theorem Owner.Valid.nulFree (h : owner.Valid library) :
    '\x00' ∉ owner.backendDestination.toList ∧ '\x00' ∉ owner.logicalSessionId.toList ∧
      '\x00' ∉ owner.nonce.toList := by
  refine ⟨notMem_of_fullmatch rfl h.destination, fun hmem => ?_, notMem_of_fullmatch rfl h.nonce⟩
  have hnul := List.all_eq_true.1 h.session _ hmem
  cases hnul

theorem Owner.value_eq_iff (h : owner.Valid library) (hother : other.Valid library) :
    owner.value = other.value ↔ owner.front = other.front ∧
      owner.backendDestination = other.backendDestination ∧
      owner.logicalSessionId = other.logicalSessionId ∧ owner.nonce = other.nonce ∧
      owner.purpose = other.purpose := by
  rw [← String.toList_inj, toList_value, toList_value]
  constructor
  · intro heq
    obtain ⟨hdestination, hsession, hnonce⟩ := h.nulFree
    obtain ⟨hdestination', hsession', hnonce'⟩ := hother.nulFree
    obtain ⟨heq, hpurpose⟩ := append_cons_inj_last (Purpose.text_nulFree _) (Purpose.text_nulFree _) heq
    obtain ⟨heq, hnonces⟩ := append_cons_inj_last hnonce hnonce' heq
    obtain ⟨heq, hsessions⟩ := append_cons_inj_last hsession hsession' heq
    obtain ⟨heq, hdestinations⟩ := append_cons_inj_last hdestination hdestination' heq
    exact ⟨List.append_cancel_left heq, String.toList_inj.1 hdestinations, String.toList_inj.1 hsessions,
      String.toList_inj.1 hnonces, Purpose.text_inj (String.toList_inj.1 hpurpose)⟩
  · rintro ⟨hfront, hdestination, hsession, hnonce, hpurpose⟩
    rw [hfront, hdestination, hsession, hnonce, hpurpose]

/-- The service of `other` is after the one of `owner` in a common text. -/
def Owner.Shifts (owner other : Owner) : Prop :=
  ∃ between, other.name = owner.name ++ "\x00" ++ owner.service ++ between ∧
    "\x00" ++ owner.logicalConnectionId =
      between ++ "\x00" ++ other.service ++ "\x00" ++ other.logicalConnectionId

theorem Owner.shifts_iff : owner.Shifts other ↔ ∃ between : List Char,
    other.name.toList = owner.name.toList ++ '\x00' :: (owner.service.toList ++ between) ∧
    '\x00' :: owner.logicalConnectionId.toList =
      between ++ '\x00' :: (other.service.toList ++ '\x00' :: other.logicalConnectionId.toList) := by
  have hnul : "\x00".toList = ['\x00'] := rfl
  simp only [Shifts, ← String.toList_inj, String.toList_append, hnul, List.append_assoc,
    List.cons_append, List.nil_append]
  constructor
  · rintro ⟨between, hname, hid⟩
    exact ⟨between.toList, hname, hid⟩
  · rintro ⟨between, hname, hid⟩
    refine ⟨String.ofList between, ?_⟩
    rw [String.toList_ofList]
    exact ⟨hname, hid⟩

theorem Owner.Shifts.front (h : owner.Shifts other) : owner.front = other.front := by
  obtain ⟨between, hname, hid⟩ := shifts_iff.1 h
  rw [Owner.front, Owner.front, hname, hid]
  simp only [List.append_assoc, List.cons_append]

theorem Owner.Shifts.ne (h : owner.Shifts other) : owner ≠ other := by
  rintro rfl
  obtain ⟨between, hname, -⟩ := shifts_iff.1 h
  have hlength := congrArg List.length hname
  rw [List.length_append, List.length_cons] at hlength
  omega

theorem Owner.same_or_shifts (hservice : '\x00' ∉ owner.service.toList)
    (hservice' : '\x00' ∉ other.service.toList) {rest : List Char}
    (hname : other.name.toList = owner.name.toList ++ rest)
    (hrest : '\x00' :: (owner.service.toList ++ '\x00' :: owner.logicalConnectionId.toList) =
      rest ++ '\x00' :: (other.service.toList ++ '\x00' :: other.logicalConnectionId.toList)) :
    (owner.name = other.name ∧ owner.service = other.service ∧
      owner.logicalConnectionId = other.logicalConnectionId) ∨ owner.Shifts other := by
  cases rest with
  | nil =>
    rw [List.append_nil] at hname
    obtain ⟨between, hbetween, hid⟩ := append_cons_eq_of_notMem hservice (List.cons.inj hrest).2
    cases between with
    | nil =>
      rw [List.append_nil] at hbetween
      exact .inl ⟨String.toList_inj.1 hname.symm, String.toList_inj.1 hbetween.symm,
        String.toList_inj.1 (List.cons.inj hid).2⟩
    | cons x between =>
      rw [hbetween, ← (List.cons.inj hid).1] at hservice'
      exact absurd (List.mem_append_right _ (.head _)) hservice'
  | cons x rest =>
    rw [List.cons_append] at hrest
    obtain ⟨rfl, htail⟩ := List.cons.inj hrest
    obtain ⟨between, hbetween, hid⟩ := append_cons_eq_of_notMem hservice htail
    exact .inr (shifts_iff.2 ⟨between, by rw [hname, hbetween], hid⟩)

theorem Owner.front_eq (hservice : '\x00' ∉ owner.service.toList)
    (hservice' : '\x00' ∉ other.service.toList) (h : owner.front = other.front) :
    (owner.name = other.name ∧ owner.service = other.service ∧
      owner.logicalConnectionId = other.logicalConnectionId) ∨
      owner.Shifts other ∨ other.Shifts owner := by
  obtain ⟨rest, hname, hrest⟩ | ⟨rest, hname, hrest⟩ := List.append_eq_append_iff.1 h
  · exact (same_or_shifts hservice hservice' hname hrest).imp_right .inl
  · obtain ⟨hname, hservice, hid⟩ | hshifts := same_or_shifts hservice' hservice hname hrest
    · exact .inl ⟨hname.symm, hservice.symm, hid.symm⟩
    · exact .inr (.inr hshifts)

def Owner.reread (owner : Owner) (name service id : String) : Owner :=
  { owner with name, service, logicalConnectionId := id }

theorem Owner.Valid.reread (h : owner.Valid library) {name service id : String}
    (hidentity : Canonical library name service) (hid : LogicalConnectionId id) :
    (owner.reread name service id).Valid library :=
  ⟨hidentity, hid, h.destination, h.session, h.nonce⟩

/-- The hashed text of an owner is the text of no other owner, exactly when no other service can be
read in the name or in the logical id. -/
theorem owner_binding_unambiguous_iff (h : owner.Valid library) :
    (∀ other : Owner, other.Valid library → owner.value = other.value → owner = other) ↔
      ¬owner.ReadsLater library ∧ ¬owner.ReadsEarlier library := by
  constructor
  · intro hunique
    constructor
    · rintro ⟨between, service, id, htext, hidentity, hid⟩
      have hvalid := h.reread hidentity hid
      have hshift : owner.Shifts (owner.reread _ service id) := ⟨between, rfl, htext⟩
      exact hshift.ne (hunique _ hvalid
        ((Owner.value_eq_iff h hvalid).2 ⟨hshift.front, rfl, rfl, rfl, rfl⟩))
    · rintro ⟨name, service, between, id, hname, htext, hidentity, hid⟩
      have hvalid := h.reread hidentity hid
      have hshift : (owner.reread name service id).Shifts owner := ⟨between, hname, htext.symm⟩
      exact hshift.ne (hunique _ hvalid
        ((Owner.value_eq_iff h hvalid).2 ⟨hshift.front.symm, rfl, rfl, rfl, rfl⟩)).symm
  · rintro ⟨hlater, hearlier⟩ other hother hvalue
    obtain ⟨hfront, hdestination, hsession, hnonce, hpurpose⟩ := (Owner.value_eq_iff h hother).1 hvalue
    obtain ⟨hname, hservice, hid⟩ | ⟨between, hname, htext⟩ | ⟨between, hname, htext⟩ :=
      Owner.front_eq h.identity.service hother.identity.service hfront
    · cases owner
      cases other
      simp only [Owner.mk.injEq]
      exact ⟨hname, hservice, hid, hdestination, hsession, hnonce, hpurpose⟩
    · exact absurd ⟨between, _, _, htext, hname ▸ hother.identity, hother.connection⟩ hlater
    · exact absurd ⟨_, _, between, _, hname, htext.symm, hother.identity, hother.connection⟩ hearlier

/-- Without a NUL in the logical id, no service can be read there. -/
theorem Owner.not_readsLater (h : '\x00' ∉ owner.logicalConnectionId.toList) : ¬owner.ReadsLater library := by
  rintro ⟨between, service, id, htext, -⟩
  have hcount := congrArg (fun text : String => text.toList.count '\x00') htext
  simp [List.count_eq_zero.2 h] at hcount
  omega

theorem Owner.not_readsEarlier (h : '\x00' ∉ owner.name.toList) : ¬owner.ReadsEarlier library := by
  rintro ⟨name, service, between, id, hname, -⟩
  exact h (by simp [hname])

namespace Sample

def plainOwner : Owner where
  name := "a"
  service := "1"
  logicalConnectionId := "2\x00x"
  backendDestination := "0123456789abcdef0123456789abcdef"
  logicalSessionId := "c2Vzc2lvbi1pZC1vZi1hbGlj"
  nonce := "bm9uY2Utb2YtYWxpY2UtZm9yLXRlc3Rz"
  purpose := .game

/-- The owner whose name has a NUL. -/
def namesake : Owner := plainOwner.reread "a\x001" "2" "x"

theorem valid_plainOwner : plainOwner.Valid Server.Sample.library :=
  ⟨rfl, by decide, by decide, by decide, by decide⟩

def tabOwner : Owner := plainOwner.reread "chat" "APP" "alice-tab"

theorem valid_tabOwner : tabOwner.Valid Server.Sample.library := valid_plainOwner.reread rfl (by decide)

end Sample

open Sample in
/-- The first owner can be read with a longer name, the second has one reading. -/
theorem owner_binding_unambiguous_iff_plainOwner :
    ((∀ other : Owner, other.Valid Server.Sample.library → plainOwner.value = other.value →
        plainOwner = other) ↔
      ¬plainOwner.ReadsLater Server.Sample.library ∧
        ¬plainOwner.ReadsEarlier Server.Sample.library) ∧
    ∀ other : Owner, other.Valid Server.Sample.library → tabOwner.value = other.value → tabOwner = other :=
  ⟨owner_binding_unambiguous_iff valid_plainOwner,
    (owner_binding_unambiguous_iff valid_tabOwner).2
      ⟨Owner.not_readsLater (by decide), Owner.not_readsEarlier (by decide)⟩⟩

open Sample in
/-- Two owners with one binding. -/
theorem owner_binding_ambiguous :
    plainOwner.Valid Server.Sample.library ∧ namesake.Valid Server.Sample.library ∧
      plainOwner.value = namesake.value ∧ plainOwner ≠ namesake :=
  ⟨valid_plainOwner, valid_plainOwner.reread rfl (by decide), rfl, by decide⟩

end CallBackend.Identity
