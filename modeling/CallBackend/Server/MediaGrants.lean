import CallBackend.Lib.JsonText
import CallBackend.Server.Run

/-!
# Grant documents

A realtime grant goes from the Python process to the media service as a JSON document. Each side
checks what it handles with rules of its own: `bootstrap` asks for a session in order, a canonical
Q-App identity and a room; `grantStore.consume` reads at most 4097 bytes, allows no other members, and
asks for the service `APP`, for safe ids and for an expiry that is still to come, in milliseconds.

The document itself carries everything over: what is written is what is decoded, unless it is cut
off. So a token that `bootstrap` returns is of use exactly when its session meets the rules of the
media service as well.

String methods and the hash come from the libraries of the two languages.
-/

namespace CallBackend.Server

open Exec JsonText

/-- Functions of the Python library (`strip`, `lower`, `upper`) and of the Go library, and the hash. -/
structure TextLibrary where
  strip : String → String
  lower : String → String
  upper : String → String
  trimSpace : String → String
  toLower : String → String
  /-- The SHA-256 of a token, in hexadecimal digits. -/
  sha256Hex : Token → String

/-- Text that Python finds stripped and in lower case, Go does too. -/
structure TextLibrary.Agrees (library : TextLibrary) : Prop where
  trimmed : ∀ text, library.lower (library.strip text) = text → library.trimSpace text = text
  lowered : ∀ text, library.lower (library.strip text) = text → library.toLower text = text

/-! ### The rules of the two sides -/

/-- `_SERVICE_RE`. -/
def servicePattern : String → Bool := fullmatch (fun c => c.isUpper || c.isDigit || c == '_') 1 32

def normalizeQAppIdentity (library : TextLibrary) (identity : QAppIdentity) :
    Except Exn QAppIdentity :=
  let name := library.lower (library.strip identity.1)
  let service := library.upper (library.strip identity.2)
  if name = "" ∨ 128 < name.length then .error (.valueError "Q-App name is invalid")
  else if servicePattern service then .ok (name, service)
  else .error (.valueError "Q-App service is invalid")

/-- `validQAppName`. Decoded strings are valid UTF-8. -/
def validQAppName (library : TextLibrary) (value : String) : Bool :=
  value ≠ "" && value.length ≤ 128 && library.trimSpace value = value && library.toLower value = value

/-- The two sides of the deployment apply these rules. -/
structure Setup.Uses (setup : Setup) (library : TextLibrary) : Prop where
  normalizes : setup.platform.normalizeQAppIdentity = normalizeQAppIdentity library
  accepts : setup.validQAppName = Server.validQAppName library

/-! ### Documents -/

/-- The members of the document after the first; they are sorted. -/
def MediaGrant.members (library : TextLibrary) (grant : MediaGrant) : List Member :=
  [("expiresAt", .nat grant.expiresAt), ("logicalSessionId", .str grant.logicalSessionId),
    ("participantId", .str grant.participantId), ("purpose", .str grant.purpose),
    ("qappName", .str grant.qappName), ("qappService", .str grant.qappService),
    ("roomId", .str grant.roomId), ("tokenSha256", .str (library.sha256Hex grant.token)),
    ("version", .nat grant.version)]

/-- The text `_write_media_grant` writes. -/
def MediaGrant.document (library : TextLibrary) (grant : MediaGrant) : List Char :=
  writeObject ("authenticatedUser", .str grant.authenticatedUser) (grant.members library)

/-- `grant` of the media service. A member that is missing has the zero value. -/
structure GrantDocument where
  version : Nat := 0
  tokenSha256 : String := ""
  logicalSessionId : String := ""
  authenticatedUser : String := ""
  qappName : String := ""
  qappService : String := ""
  purpose : String := ""
  roomId : String := ""
  participantId : String := ""
  expiresAt : Nat := 0
  deriving DecidableEq

/-- Numbers are decoded into 64 bits with a sign. -/
def decodeInt64 (n : Nat) : Option Nat := if n < 2 ^ 63 then some n else none

/-- A member is decoded into its field; members that are unknown or of another type are errors. -/
def GrantDocument.assign (value : GrantDocument) : Member → Option GrantDocument
  | ("version", .nat n) => (decodeInt64 n).map fun n => { value with version := n }
  | ("tokenSha256", .str s) => some { value with tokenSha256 := s }
  | ("logicalSessionId", .str s) => some { value with logicalSessionId := s }
  | ("authenticatedUser", .str s) => some { value with authenticatedUser := s }
  | ("qappName", .str s) => some { value with qappName := s }
  | ("qappService", .str s) => some { value with qappService := s }
  | ("purpose", .str s) => some { value with purpose := s }
  | ("roomId", .str s) => some { value with roomId := s }
  | ("participantId", .str s) => some { value with participantId := s }
  | ("expiresAt", .nat n) => (decodeInt64 n).map fun n => { value with expiresAt := n }
  | _ => none

def isBlank (c : Char) : Bool := c = ' ' || c = '\t' || c = '\r' || c = '\n'

def maxGrantBytes : Nat := 4096

/-- The decoding in `grantStore.consume`: one object with nothing after it. The text is ASCII, so a
character is a byte. -/
def decodeGrant (text : List Char) : Option GrantDocument := do
  let (members, rest) ← readObject (maxGrantBytes + 1) (text.take (maxGrantBytes + 1))
  guard (rest.all isBlank)
  members.foldlM GrantDocument.assign {}

def GrantDocument.accepted (library : TextLibrary) (value : GrantDocument) (token : Token)
    (now : Nanos) : Bool :=
  value.version = 1 && value.tokenSha256 = library.sha256Hex token && value.purpose = "realtime" &&
    validQAppName library value.qappName && value.qappService = "APP" &&
    millis now < value.expiresAt && safeId value.roomId && safeId value.participantId &&
    value.logicalSessionId ≠ "" && value.authenticatedUser = value.participantId

/-- `grantStore.consume`, as one step, with the grant it returns. -/
def consumeGrant (library : TextLibrary) (st : ServerState) (token : Token) (now : Nanos) :
    Except Exn GrantDocument :=
  if 32 ≤ token.utf8ByteSize ∧ token.utf8ByteSize ≤ 128 then
    match st.grantFiles token with
    | none => .error (.valueError "attachment credential unavailable")
    | some file =>
      match decodeGrant (file.document library) with
      | none => .error (.valueError "invalid attachment credential")
      | some value =>
        if value.accepted library token now then .ok value
        else .error (.valueError "invalid attachment credential")
  else .error (.valueError "invalid attachment credential")

/-- What the media service knows of a grant. -/
def MediaGrant.decoded (library : TextLibrary) (grant : MediaGrant) : GrantDocument where
  version := grant.version
  tokenSha256 := library.sha256Hex grant.token
  logicalSessionId := grant.logicalSessionId
  authenticatedUser := grant.authenticatedUser
  qappName := grant.qappName
  qappService := grant.qappService
  purpose := grant.purpose
  roomId := grant.roomId
  participantId := grant.participantId
  expiresAt := grant.expiresAt

/-- The document is not cut off, and its numbers are not too large. -/
structure MediaGrant.Decodable (library : TextLibrary) (grant : MediaGrant) : Prop where
  size : (grant.document library).length ≤ maxGrantBytes + 1
  version : grant.version < 2 ^ 63
  expiry : grant.expiresAt < 2 ^ 63

section Documents

variable {library : TextLibrary} {grant : MediaGrant}

theorem decodeInt64_eq_some {n m : Nat} : decodeInt64 n = some m ↔ n < 2 ^ 63 ∧ m = n := by
  rw [decodeInt64, Option.ite_none_right_eq_some, Option.some.injEq, eq_comm (a := n)]

variable {value : GrantDocument}

/-- The members of a document are assigned to the fields they have been written from. -/
theorem foldlM_assign :
    List.foldlM GrantDocument.assign {}
        (("authenticatedUser", .str grant.authenticatedUser) :: grant.members library) = some value ↔
      (grant.version < 2 ^ 63 ∧ grant.expiresAt < 2 ^ 63) ∧ value = grant.decoded library := by
  simp only [MediaGrant.members, List.foldlM_cons, List.foldlM_nil, GrantDocument.assign,
    Option.bind_eq_bind, Option.bind_some, Option.pure_def, Option.bind_eq_some_iff,
    Option.map_eq_some_iff, decodeInt64_eq_some, Option.some.injEq]
  constructor
  · rintro ⟨_, ⟨_, ⟨hexpiry, rfl⟩, rfl⟩, _, ⟨_, ⟨hversion, rfl⟩, rfl⟩, rfl⟩
    exact ⟨⟨hversion, hexpiry⟩, rfl⟩
  · rintro ⟨⟨hversion, hexpiry⟩, rfl⟩
    exact ⟨_, ⟨_, ⟨hexpiry, rfl⟩, rfl⟩, _, ⟨_, ⟨hversion, rfl⟩, rfl⟩, rfl⟩

theorem decodeGrant_document :
    decodeGrant (grant.document library) = some value ↔
      grant.Decodable library ∧ value = grant.decoded library := by
  have hmembers : (grant.members library).length < maxGrantBytes + 1 := by
    simp [MediaGrant.members, maxGrantBytes]
  by_cases hsize : (grant.document library).length ≤ maxGrantBytes + 1
  · have hread : readObject (maxGrantBytes + 1) (grant.document library) =
        some (("authenticatedUser", .str grant.authenticatedUser) :: grant.members library, []) := by
      have hobject := reads_object ("authenticatedUser", .str grant.authenticatedUser) _ hmembers []
      rwa [List.append_nil] at hobject
    rw [decodeGrant, List.take_of_length_le hsize, hread]
    refine foldlM_assign.trans ⟨fun h => ?_, fun h => ?_⟩
    · exact ⟨⟨hsize, h.1.1, h.1.2⟩, h.2⟩
    · exact ⟨⟨h.1.version, h.1.expiry⟩, h.2⟩
  · have hcut : readObject (maxGrantBytes + 1) ((grant.document library).take (maxGrantBytes + 1)) =
        none := readObject_take hmembers (not_le.1 hsize)
    rw [decodeGrant, hcut]
    exact ⟨fun h => absurd h (Option.some_ne_none _).symm, fun h => absurd h.1.size hsize⟩

theorem consumeGrant_eq_ok {st : ServerState} {token : Token} {now : Nanos} :
    consumeGrant library st token now = .ok value ↔
      (32 ≤ token.utf8ByteSize ∧ token.utf8ByteSize ≤ 128) ∧ ∃ file, st.grantFiles token = some file ∧
        file.Decodable library ∧ value = file.decoded library ∧
        value.accepted library token now = true := by
  unfold consumeGrant
  split_ifs with hlength
  · cases hfile : st.grantFiles token with
    | none => simp
    | some file =>
      simp only [hlength, and_self, true_and, Option.some.injEq, exists_eq_left']
      rw [← and_assoc, ← decodeGrant_document]
      cases decodeGrant (file.document library) with
      | none => simp
      | some decoded =>
        dsimp only
        split_ifs with haccepted
        · rw [Except.ok.injEq, Option.some.injEq]
          exact ⟨fun h => ⟨h, h ▸ haccepted⟩, fun h => h.1⟩
        · refine ⟨fun h => (nomatch h), fun h => ?_⟩
          rw [Option.some.inj h.1] at haccepted
          exact absurd h.2 haccepted
  · exact ⟨fun h => (nomatch h), fun h => absurd h.1 hlength⟩

end Documents

/-! ### From the session to the media service -/

/-- The file of a realtime grant for a session. -/
def ServerState.mediaGrant (st : ServerState) (setup : Setup) (now : Nanos) (id : SessionId)
    (token : Token) : MediaGrant where
  version := 1
  token := token
  logicalSessionId := id
  authenticatedUser := (st.objects id).authenticatedUser.getD ""
  qappName := ((st.objects id).qappIdentity.getD ("", "")).1
  qappService := ((st.objects id).qappIdentity.getD ("", "")).2
  purpose := "realtime"
  roomId := (st.call.callRoomId id).getD ""
  participantId := (st.objects id).authenticatedUser.getD ""
  expiresAt := millis (now + setup.config.privateTransportAttachTtl)

/-- The grant is for this session: its user, its room and its Q-App. -/
structure GrantDocument.Describes (value : GrantDocument) (st : ServerState) (id : SessionId) : Prop where
  session : value.logicalSessionId = id
  participant : (st.objects id).authenticatedUser = some value.participantId
  user : value.authenticatedUser = value.participantId
  room : st.call.callRoomId id = some value.roomId
  identity : (st.objects id).qappIdentity = some (value.qappName, value.qappService)

/-- What the media service asks of a grant beyond what `bootstrap` does. -/
structure MediaGrant.Usable (library : TextLibrary) (grant : MediaGrant) (now : Nanos) : Prop where
  service : grant.qappService = "APP"
  room : safeId grant.roomId = true
  participant : safeId grant.participantId = true
  session : grant.logicalSessionId ≠ ""
  size : (grant.document library).length ≤ maxGrantBytes + 1
  expiry : grant.expiresAt < 2 ^ 63
  /-- The millisecond of the expiry has not begun. -/
  current : millis now < grant.expiresAt

section Bootstrap

variable {library : TextLibrary} {setup : Setup} {env : ServerEnv} {request : BootstrapCall}
  {id : SessionId} {st st₁ st₂ : ServerState} {token : Token} {grant : AttachGrant} {now : Nanos}

/-- The grant file of a token that has been issued describes the session at that time. -/
structure Filed (setup : Setup) (env : ServerEnv) (request : BootstrapCall) (st : ServerState)
    (token : Token) (st' : ServerState) (id : SessionId) : Prop where
  sender : request.sender setup st env.now = some id
  room : (st.call.callRoomId id).isSome
  file : st'.grantFiles token = some (st.mediaGrant setup env.now id token)

theorem filed_issueToken (nonce : String) (purpose : Purpose) {t : Nanos} {n : Nat}
    (hsender : request.sender setup st env.now = some id) :
    wp (issueToken setup request id nonce purpose) env (st.persisted id t n)
      (fun reply st' => ∀ token grant, reply = .written token grant →
        Filed setup env request st token st' id) fun _ _ => True := by
  simp only [issueToken, wp_do, wp_ite]
  refine ⟨fun _ _ _ h => (by cases h), fun _ => ?_⟩
  have hissued : ∀ grant, wp (do
      let issued ← issue setup request.token grant
      if issued then return Reply.issued request.token grant
      else return Reply.refused "bootstrap_rate_limited") env (st.persisted id t n)
      (fun reply st' => ∀ token grant, reply = .written token grant →
        Filed setup env request st token st' id) fun _ _ => True := by
    intro grant
    simp only [wp_do, wp_ite]
    apply wp_issue
    · exact ⟨fun _ _ _ h => (by cases h), fun h => absurd rfl h⟩
    · exact ⟨fun h => absurd h Bool.false_ne_true, fun _ _ _ h => (by cases h)⟩
  cases purpose with
  | game => exact hissued _
  | fileTransfer => exact hissued _
  | realtime =>
    cases hroom : st.call.callRoomId id with
    | none =>
      simp only [ServerState.persisted, hroom, wp_pure]
      exact fun _ _ h => by cases h
    | some roomId =>
      simp only [ServerState.persisted, hroom, writeMediaGrant, wp_do, wp_ite, wp_ensure]
      apply wp_issue
      · refine ⟨fun _ => ⟨fun _ token grant h => ?_, fun _ => trivial⟩, fun h => absurd rfl h⟩
        cases h
        refine ⟨hsender, by rw [hroom]; rfl, ?_⟩
        simp [ServerState.mediaGrant, AttachGrant.mediaGrant, BootstrapCall.grant, Purpose.text, hroom]
      · exact ⟨fun h => absurd h Bool.false_ne_true, fun _ _ _ h => (by cases h)⟩

theorem filed_bootstrap :
    wp (bootstrap setup request) env st
      (fun reply st' => ∀ token grant, reply = .written token grant →
        ∃ id, Filed setup env request st token st' id) fun _ _ => True := by
  unfold bootstrap
  cases BootstrapRequest.parse request.payload with
  | error code => exact fun _ _ h => by cases h
  | ok parsed =>
    simp only [wp_do]
    cases hsender : request.sender setup st env.now with
    | none => exact fun _ _ h => by cases h
    | some id =>
      have hissues : ∀ t n, wp (do
          if (← getSession id).privateTransport.isSome then
            return Reply.refused "transport_already_attached"
          issueToken setup request id parsed.1 parsed.2) env (st.persisted id t n)
          (fun reply st' => ∀ token grant, reply = .written token grant →
            ∃ id, Filed setup env request st token st' id) fun _ _ => True := by
        intro t n
        simp only [getSession, wp_do, wp_ite]
        refine ⟨fun _ _ _ h => (by cases h), fun _ => ?_⟩
        refine wp_mono (filed_issueToken parsed.1 parsed.2 hsender) ?_ fun _ _ _ => trivial
        exact fun _ _ hfiled token grant h => ⟨id, hfiled token grant h⟩
      have hrevoked : ∀ code, wp (do revoke setup id request.fault; return Reply.refused code) env st
          (fun reply st' => ∀ token grant, reply = .written token grant →
            ∃ id, Filed setup env request st token st' id) fun _ _ => True := by
        intro code
        rw [wp_bind]
        exact wp_mono (wp_true _) (fun _ _ _ _ _ h => (by cases h)) fun _ _ _ => trivial
      simp only [bootstrapSession]
      cases request.access with
      | denied => exact hrevoked _
      | unavailable => exact hrevoked _
      | granted =>
        have hissue := hissues (st.objects id).lastPersistedAt st.dbWrites
        rwa [persisted_self] at hissue
      | refreshed =>
        simp only [if_true]
        rw [wp_bind]
        exact wp_persist hissues fun _ => trivial

theorem canonical_of_sender (h : request.sender setup st now = some id) :
    ∃ identity, (st.objects id).qappIdentity = some identity ∧
      setup.platform.normalizeQAppIdentity identity = .ok identity := by
  simp only [BootstrapCall.sender, Option.bind_eq_bind, Option.bind_eq_some_iff,
    Option.guard_eq_some', Option.pure_def, Option.some.injEq] at h
  obtain ⟨c, -, logicalId, -, -, -, id', -, -, -, identity, hidentity, normalized, hnormalized, -, heq,
    rfl⟩ := h
  rw [heq] at hnormalized
  exact ⟨identity, hidentity, except_toOption_eq_some.1 hnormalized⟩

theorem validQAppName_of_canonical {identity : QAppIdentity} (hagrees : library.Agrees)
    (h : normalizeQAppIdentity library identity = .ok identity) :
    validQAppName library identity.1 = true := by
  obtain ⟨name, service⟩ := identity
  simp only [normalizeQAppIdentity] at h
  split_ifs at h with hlength
  have hfixed : library.lower (library.strip name) = name := (Prod.mk.inj (Except.ok.inj h)).1
  rw [hfixed] at hlength
  simp only [validQAppName, hagrees.trimmed name hfixed, hagrees.lowered name hfixed,
    Bool.and_eq_true, decide_eq_true_eq]
  exact ⟨⟨⟨fun hempty => hlength (.inl hempty), not_lt.1 fun hlong => hlength (.inr hlong)⟩, trivial⟩, trivial⟩

theorem accepted_iff_usable
    (hname : validQAppName library ((st.objects id).qappIdentity.getD ("", "")).1 = true) :
    ((st.mediaGrant setup env.now id token).Decodable library ∧
      ((st.mediaGrant setup env.now id token).decoded library).accepted library token now = true) ↔
      (st.mediaGrant setup env.now id token).Usable library now := by
  constructor
  · rintro ⟨hdecodable, haccepted⟩
    simp only [GrantDocument.accepted, Bool.and_eq_true, decide_eq_true_eq] at haccepted
    obtain ⟨⟨⟨⟨⟨⟨⟨⟨⟨-, -⟩, -⟩, -⟩, hservice⟩, hcurrent⟩, hroom⟩, huser⟩, hsession⟩, -⟩ := haccepted
    exact ⟨hservice, hroom, huser, hsession, hdecodable.size, hdecodable.expiry, hcurrent⟩
  · intro h
    have hversion : 1 < 2 ^ 63 := by decide
    refine ⟨⟨h.size, hversion, h.expiry⟩, ?_⟩
    simp only [GrantDocument.accepted, Bool.and_eq_true, decide_eq_true_eq]
    exact ⟨⟨⟨⟨⟨⟨⟨⟨⟨rfl, rfl⟩, rfl⟩, hname⟩, h.service⟩, h.current⟩, h.room⟩, h.participant⟩, h.session⟩, rfl⟩

theorem isPlain_of_isIdChar {c : Char} (h : Call.isIdChar c = true) : isPlain c = true := by
  have hne : ∀ d, Call.isIdChar d = false → c ≠ d := by
    rintro d hd rfl
    rw [hd] at h
    exact absurd h Bool.false_ne_true
  have hshort : shortEscape c = none := by
    simp [shortEscape, hne quote rfl, hne backslash rfl, hne '\n' rfl, hne '\r' rfl, hne '\t' rfl,
      hne '\x08' rfl, hne '\x0c' rfl]
  have hwithin : ∀ {low high : UInt32}, 32 ≤ low.toNat → high.toNat ≤ 126 → low ≤ c.val ∧ c.val ≤ high →
      32 ≤ c.val.toNat ∧ c.val.toNat ≤ 126 := fun hlow hhigh h =>
    ⟨hlow.trans (UInt32.le_iff_toNat_le.1 h.1), (UInt32.le_iff_toNat_le.1 h.2).trans hhigh⟩
  simp only [Call.isIdChar, Char.isAlphanum, Char.isDigit] at h
  delta Char.isAlpha Char.isUpper Char.isLower at h
  simp only [Bool.or_eq_true, Bool.and_eq_true, decide_eq_true_eq, beq_iff_eq] at h
  simp only [isPlain, hshort, decide_true, Bool.true_and, Bool.and_eq_true, decide_eq_true_eq,
    Char.le_def, UInt32.le_iff_toNat_le]
  rcases h with (((h | h) | h) | rfl) | rfl
  · exact hwithin (by decide) (by decide) h
  · exact hwithin (by decide) (by decide) h
  · exact hwithin (by decide) (by decide) h
  · decide
  · decide

theorem length_writeString_of_safeId {text : String} (h : safeId text = true) :
    (writeString text).length ≤ 130 := by
  simp only [safeId, fullmatch, Bool.and_eq_true, decide_eq_true_eq, List.all_eq_true] at h
  have hplain : text.toList.all isPlain = true :=
    List.all_eq_true.2 fun c hc => isPlain_of_isIdChar (h.1.1 c hc)
  rw [length_writeString_of_plain hplain, ← String.length_toList]
  omega

theorem usable_of_safeId (hname : ((st.objects id).qappIdentity.getD ("", "")).1.length ≤ 128)
    (hhash : (writeString (library.sha256Hex token)).length = 66)
    (hservice : ((st.objects id).qappIdentity.getD ("", "")).2 = "APP")
    (hroom : safeId ((st.call.callRoomId id).getD "") = true)
    (huser : safeId ((st.objects id).authenticatedUser.getD "") = true) (hsession : safeId id = true)
    (hexpiry : millis (env.now + setup.config.privateTransportAttachTtl) < 2 ^ 63)
    (hcurrent : millis now < millis (env.now + setup.config.privateTransportAttachTtl)) :
    (st.mediaGrant setup env.now id token).Usable library now := by
  refine ⟨hservice, hroom, huser, ?_, ?_, hexpiry, hcurrent⟩
  · rintro hempty
    rw [show id = "" from hempty] at hsession
    exact absurd hsession (by decide)
  · have hname' := (length_writeString_le _).trans (Nat.add_le_add_right (Nat.mul_le_mul_left 12 hname) 2)
    have hroom' := length_writeString_of_safeId hroom
    have huser' := length_writeString_of_safeId huser
    have hsession' := length_writeString_of_safeId hsession
    have hexpiry' : (writeNat (millis (env.now + setup.config.privateTransportAttachTtl))).length ≤ 19 :=
      length_writeNat_le (by decide) (hexpiry.trans (by decide))
    have hversion : (writeNat 1).length = 1 := rfl
    have hpurpose : (writeString "realtime").length = 10 := by decide
    have hservice' : (writeString "APP").length = 5 := by decide
    have hkeys : (writeString "authenticatedUser").length + (writeString "expiresAt").length +
        (writeString "logicalSessionId").length + (writeString "participantId").length +
        (writeString "purpose").length + (writeString "qappName").length +
        (writeString "qappService").length + (writeString "roomId").length +
        (writeString "tokenSha256").length + (writeString "version").length = 125 := by decide
    simp only [MediaGrant.document, MediaGrant.members, ServerState.mediaGrant, writeObject, writeMembers,
      writeMember, Scalar.write, List.length_cons, List.length_append, List.length_nil, hhash, hservice,
      hservice', hpurpose, hversion, maxGrantBytes]
    omega

/-- A realtime token that `bootstrap` has issued to a session is of use while its file is
there exactly when the session meets the rules of the media service. -/
theorem realtime_token_usable (hlibrary : setup.Uses library)
    (hagrees : library.Agrees) (hid : request.session = some id)
    (hissued : bootstrap setup request env st = (.ok (.written token grant), st₁))
    (hlength : token.utf8ByteSize = 43) (hfile : st₂.grantFiles token = st₁.grantFiles token) :
    (∃ value, consumeGrant library st₂ token now = .ok value ∧ value.Describes st id) ↔
      (st.mediaGrant setup env.now id token).Usable library now := by
  obtain ⟨id', hfiled⟩ := wp_ok filed_bootstrap hissued token grant rfl
  obtain ⟨hsession, huser, -, -⟩ := BootstrapCall.sender_eq_some hfiled.sender
  obtain rfl : id' = id := Option.some.inj (hsession.symm.trans hid)
  obtain ⟨identity, hidentity, hcanonical⟩ := canonical_of_sender hfiled.sender
  rw [hlibrary.normalizes] at hcanonical
  have hname : validQAppName library ((st.objects id').qappIdentity.getD ("", "")).1 = true := by
    rw [hidentity]
    exact validQAppName_of_canonical hagrees hcanonical
  rw [hfiled.file] at hfile
  rw [← accepted_iff_usable hname]
  constructor
  · rintro ⟨value, hconsumed, -⟩
    obtain ⟨-, file, hfile', hdecodable, rfl, haccepted⟩ := consumeGrant_eq_ok.1 hconsumed
    obtain rfl := Option.some.inj (hfile.symm.trans hfile')
    exact ⟨hdecodable, haccepted⟩
  · rintro ⟨hdecodable, haccepted⟩
    have hconsumed : consumeGrant library st₂ token now =
        .ok ((st.mediaGrant setup env.now id' token).decoded library) :=
      consumeGrant_eq_ok.2 ⟨by rw [hlength]; decide, _, hfile, hdecodable, rfl, haccepted⟩
    obtain ⟨user, huser⟩ := Option.isSome_iff_exists.1 huser
    obtain ⟨roomId, hroom⟩ := Option.isSome_iff_exists.1 hfiled.room
    refine ⟨_, hconsumed, rfl, ?_, rfl, ?_, ?_⟩
    · simp [MediaGrant.decoded, ServerState.mediaGrant, huser]
    · simp [MediaGrant.decoded, ServerState.mediaGrant, hroom]
    · simp [MediaGrant.decoded, ServerState.mediaGrant, hidentity]

end Bootstrap

/-! ### A session that can use its tokens, and one that cannot -/

namespace Sample

def mediaToken : Token := "tttttttttttttttttttttttttttttttttttttttttt-"

/-- The names of the sample are stripped and in lower case, its services in upper case. The hash is
right for its token and for the empty text. -/
def library : TextLibrary where
  strip := id
  lower := id
  upper := id
  trimSpace := id
  toLower := id
  sha256Hex token :=
    if token = mediaToken then "9aae001e382c69ed636bcb3a9457fe256bfe76b10e8cb1633951e5949d7ac5b0"
    else "e3b0c44298fc1c149afbf4c8996fb92427ae41e4649b934ca495991b7852b855"

theorem agrees_library : library.Agrees := ⟨fun _ _ => rfl, fun _ _ => rfl⟩

def mediaSetup : Setup :=
  { setup with
    platform := { setup.platform with normalizeQAppIdentity := normalizeQAppIdentity library }
    validQAppName := validQAppName library }

theorem uses_library : mediaSetup.Uses library := ⟨rfl, rfl⟩

/-- Alice on link 1, in a room. -/
def calling (identity : QAppIdentity) : ServerState where
  objects := Function.update (fun _ => {}) "alice-session"
    { provisional := false
      authenticatedUser := some "alice"
      expiresAt := seconds 600
      connection := some 1
      qappConnectionId := some "alice-tab"
      qappIdentity := some identity }
  known := ["alice-session"]
  registry := ["alice-session"]
  logicalSessions := Function.update (fun _ => none) "alice-tab" (some "alice-session")
  connections := Function.update (fun _ => {}) 1 { logicalIds := ["alice-tab"] }
  call := { callRoomId := Function.update (fun _ => none) "alice-session" (some "room-1") }

/-- Alice asks for a realtime token. -/
def realtimeRequest : BootstrapCall where
  connection := some 1
  logicalId := some "alice-tab"
  session := some "alice-session"
  payload := .obj [("version", .int 1), ("transport", .str "quic-masque-inner-v1"),
    ("nonce", .str "nnnnnnnnnnnnnnnnnnnnnnnnnnnnnnnn"), ("purpose", .str "realtime")]
  access := .granted
  endpoint := true
  mediaEndpoint := true
  token := mediaToken
  grantWritten := true
  fault := none

/-- What the authority notes for such a token. -/
def mediaAttachGrant (identity : QAppIdentity) : AttachGrant where
  logicalSessionId := "alice-session"
  logicalConnectionId := "alice-tab"
  authenticatedUser := "alice"
  qappIdentity := identity
  purpose := .realtime
  ownerBindingHash := "binding"
  nonce := "nnnnnnnnnnnnnnnnnnnnnnnnnnnnnnnn"
  expiresAt := seconds 31

end Sample

open Sample in
theorem realtime_token_usable_app :
    (bootstrap mediaSetup realtimeRequest (clock 1) (calling ("chat", "APP"))).1 =
        .ok (.written mediaToken (mediaAttachGrant ("chat", "APP"))) ∧
      ∃ value, consumeGrant library (bootstrap mediaSetup realtimeRequest
        (clock 1) (calling ("chat", "APP"))).2 mediaToken (seconds 30) = .ok value ∧
        value.Describes (calling ("chat", "APP")) "alice-session" := by
  have hissued : (bootstrap mediaSetup realtimeRequest (clock 1)
      (calling ("chat", "APP"))).1 =
      .ok (.written mediaToken (mediaAttachGrant ("chat", "APP"))) := by decide +kernel
  refine ⟨hissued, ?_⟩
  have hsession : realtimeRequest.session = some "alice-session" := rfl
  apply (realtime_token_usable uses_library agrees_library hsession
    (Prod.ext hissued rfl) (by decide +kernel) rfl).2
  exact usable_of_safeId (by decide +kernel) (by decide +kernel) (by decide +kernel) (by decide +kernel)
    (by decide +kernel) (by decide +kernel) (by decide +kernel) (by decide +kernel)

open Sample in
/-- The Q-App of the session is a website. Its token is written, and the media service refuses it
although it has not expired. -/
theorem website_token_refused :
    mediaSetup.Uses library ∧ library.Agrees ∧
      mediaToken.utf8ByteSize = 43 ∧
      (bootstrap mediaSetup realtimeRequest (clock 1)
        (calling ("chat", "WEBSITE"))).1 =
        .ok (.written mediaToken (mediaAttachGrant ("chat", "WEBSITE"))) ∧
      seconds 2 < (mediaAttachGrant ("chat", "WEBSITE")).expiresAt ∧
      consumeGrant library (bootstrap mediaSetup realtimeRequest (clock 1)
        (calling ("chat", "WEBSITE"))).2 mediaToken (seconds 2) =
        .error (.valueError "invalid attachment credential") :=
  ⟨uses_library, agrees_library, by decide +kernel, by decide +kernel, by decide +kernel,
    by decide +kernel⟩

end CallBackend.Server
