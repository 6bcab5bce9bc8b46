import CallBackend.Call.Types

/-!
# What a call message must look like

The checks a handler makes before it takes the service lock. They read the message and the session's
identity, change nothing, and either raise `ValueError` or yield the request the locked part of the
handler works on.
-/

namespace CallBackend.Call

def isIdChar (c : Char) : Bool := c.isAlphanum || c == '_' || c == '-'

def isRequestChar (c : Char) : Bool := isIdChar c || c == '.' || c == ':'

def roomIdPattern : String → Bool := fullmatch isIdChar 3 64

def participantIdPattern : String → Bool := fullmatch isIdChar 3 128

def requestIdPattern : String → Bool := fullmatch isRequestChar 8 128

def keyIdPattern : String → Bool := fullmatch isLowerHex 32 32

def base64urlParts (text : String) : Option (List Char × List Char) :=
  let body := text.toList.takeWhile (· ≠ '=')
  let tail := text.toList.dropWhile (· ≠ '=')
  if !body.isEmpty && body.all isIdChar && tail.all (· == '=') && decide (tail.length ≤ 2) then
    some (body, tail)
  else none

/-- The padding the decoder is given is computed from the whole text, padding included. -/
def decodeBase64url (value : Json) (expectedLength : Option Nat) : Except Exn Bytes := do
  let some text := value.text? | throw (.valueError "invalid base64url value")
  let some (body, _) := base64urlParts text | throw (.valueError "invalid base64url value")
  let padding := (4 - text.toList.length % 4) % 4
  let some decoded := Base64.decode (body.filterMap Base64.urlSextet) padding
    | throw (.valueError "invalid base64url value")
  match expectedLength with
  | some length =>
    if decoded.length = length then pure decoded else throw (.valueError "invalid key length")
  | none => pure decoded

def requireAuthenticated (session : SessionView) : Except Exn ParticipantId :=
  match session.authenticatedUser with
  | some user =>
    if session.provisional ∨ user = "" then throw (.valueError "authenticated session required")
    else pure user
  | none => throw (.valueError "authenticated session required")

/-- The public keys of a member, as the texts the message carried. -/
def validatePublicKeys (setup : Setup) (agreementKey signingKey : Json) :
    Except Exn (String × String) := do
  let agreementBytes ← decodeBase64url agreementKey (some 65)
  if agreementBytes.head? ≠ some 4 then throw (.valueError "invalid P-256 public key")
  if !setup.isP256Point agreementBytes then throw (.valueError "invalid P-256 public key")
  let _ ← decodeBase64url signingKey (some 32)
  return ((agreementKey.text?).getD "", (signingKey.text?).getD "")

/-- A text member of the message that must match a pattern. -/
def textField (message : Json) (name : String) (pattern : String → Bool) (error : String) :
    Except Exn String :=
  match (message.get name).text? with
  | some text => if pattern text then pure text else throw (.valueError error)
  | none => throw (.valueError error)

def requestIdOf (message : Json) : Except Exn String :=
  textField message "requestId" requestIdPattern "invalid requestId"

def roomIdOf (message : Json) : Except Exn RoomId :=
  textField message "roomId" roomIdPattern "invalid roomId"

def checkMembers (message : Json) (members : List String) (error : String) : Except Exn Unit :=
  if message.hasExactly members then pure () else throw (.valueError error)

/-- The identity under which a session creates or joins a room. -/
def requireParticipant (session : SessionView) : Except Exn ParticipantId := do
  let participantId ← requireAuthenticated session
  if participantIdPattern participantId then pure participantId
  else throw (.valueError "invalid authenticated participant")

structure CreateRequest where
  initiatorId : ParticipantId
  requestId : String
  roomId : RoomId
  inviteTokenHash : Bytes
  agreementKey : String
  signingKey : String
  deriving DecidableEq

def CreateRequest.parse (setup : Setup) (session : SessionView) (message : Json) :
    Except Exn CreateRequest := do
  let initiatorId ← requireParticipant session
  checkMembers message
    ["type", "requestId", "roomId", "inviteTokenHash", "keyAgreementPublicKey", "signingPublicKey"]
    "invalid call_create message"
  let requestId ← requestIdOf message
  let roomId ← roomIdOf message
  let inviteTokenHash ← decodeBase64url (message.get "inviteTokenHash") (some 32)
  let keys ← validatePublicKeys setup (message.get "keyAgreementPublicKey")
    (message.get "signingPublicKey")
  return ⟨initiatorId, requestId, roomId, inviteTokenHash, keys.1, keys.2⟩

structure JoinRequest where
  participantId : ParticipantId
  requestId : String
  roomId : RoomId
  inviteToken : Bytes
  agreementKey : String
  signingKey : String
  deriving DecidableEq

def JoinRequest.parse (setup : Setup) (session : SessionView) (message : Json) :
    Except Exn JoinRequest := do
  let participantId ← requireParticipant session
  checkMembers message
    ["type", "requestId", "roomId", "inviteToken", "keyAgreementPublicKey", "signingPublicKey"]
    "invalid call_join message"
  let requestId ← requestIdOf message
  let roomId ← roomIdOf message
  let inviteToken ← decodeBase64url (message.get "inviteToken") (some 32)
  let keys ← validatePublicKeys setup (message.get "keyAgreementPublicKey")
    (message.get "signingPublicKey")
  return ⟨participantId, requestId, roomId, inviteToken, keys.1, keys.2⟩

structure LeaveRequest where
  participantId : ParticipantId
  requestId : String
  roomId : RoomId

def LeaveRequest.parse (session : SessionView) (message : Json) : Except Exn LeaveRequest := do
  let participantId ← requireAuthenticated session
  checkMembers message ["type", "requestId", "roomId"] "invalid call_leave message"
  let requestId ← requestIdOf message
  let roomId ← roomIdOf message
  return ⟨participantId, requestId, roomId⟩

structure GroupKeyRequest where
  senderId : ParticipantId
  requestId : String
  roomId : RoomId
  targetId : ParticipantId
  keyId : String
  nonce : String
  ciphertext : String
  signature : String

def GroupKeyRequest.parse (session : SessionView) (message : Json) :
    Except Exn GroupKeyRequest := do
  let senderId ← requireAuthenticated session
  checkMembers message
    ["type", "requestId", "roomId", "targetParticipantId", "keyId", "nonce", "ciphertext", "signature"]
    "invalid call_group_key message"
  let requestId ← requestIdOf message
  let roomId ← roomIdOf message
  let targetId ← textField message "targetParticipantId"
    (fun target => participantIdPattern target && target != senderId) "invalid group key metadata"
  let keyId ← textField message "keyId" keyIdPattern "invalid group key metadata"
  let _ ← decodeBase64url (message.get "nonce") (some 12)
  let ciphertext ← decodeBase64url (message.get "ciphertext") none
  if ciphertext.length ≠ groupKeyEnvelopeCiphertextBytes then
    throw (.valueError "invalid group key ciphertext")
  let _ ← decodeBase64url (message.get "signature") (some 64)
  return ⟨senderId, requestId, roomId, targetId, keyId, ((message.get "nonce").text?).getD "",
    ((message.get "ciphertext").text?).getD "", ((message.get "signature").text?).getD ""⟩

inductive Moderation where
  | mute
  | allowMic
  | remove
  | reAdmit
  deriving DecidableEq

def Moderation.parse : Json → Option Moderation
  | .str "mute" => some .mute
  | .str "allow_mic" => some .allowMic
  | .str "remove" => some .remove
  | .str "readmit" => some .reAdmit
  | _ => none

structure ModerateRequest where
  actor : ParticipantId
  requestId : String
  roomId : RoomId
  target : ParticipantId
  operation : Moderation
  deriving DecidableEq

def ModerateRequest.parse (session : SessionView) (message : Json) :
    Except Exn ModerateRequest := do
  let actor ← requireAuthenticated session
  checkMembers message ["type", "requestId", "roomId", "targetParticipantId", "operation"]
    "invalid moderation request"
  let requestId ← requestIdOf message
  let roomId ← roomIdOf message
  let target ← textField message "targetParticipantId" participantIdPattern
    "invalid moderation operation"
  let some operation := Moderation.parse (message.get "operation")
    | throw (.valueError "invalid moderation operation")
  return ⟨actor, requestId, roomId, target, operation⟩

inductive ScreenAction where
  | start
  | stop
  | renew
  deriving DecidableEq

def ScreenAction.parse : Json → Option ScreenAction
  | .str "call_screen_start" => some .start
  | .str "call_screen_stop" => some .stop
  | .str "call_screen_renew" => some .renew
  | _ => none

structure ScreenRequest where
  participantId : ParticipantId
  requestId : String
  roomId : RoomId
  shareId : String
  action : ScreenAction

def ScreenRequest.parse (session : SessionView) (message : Json) : Except Exn ScreenRequest := do
  let participantId ← requireAuthenticated session
  checkMembers message ["type", "requestId", "roomId", "shareId"] "invalid screen control message"
  let some action := ScreenAction.parse (message.get "type")
    | throw (.valueError "invalid screen control message")
  let requestId ← requestIdOf message
  let roomId ← roomIdOf message
  let shareId ← textField message "shareId" requestIdPattern "invalid screen share id"
  return ⟨participantId, requestId, roomId, shareId, action⟩

/-! ### What a parsed request says about the session -/

variable {session : SessionView}

theorem requireAuthenticated_ok {user : ParticipantId} (h : requireAuthenticated session = .ok user) :
    session.authenticatedUser = some user ∧ session.provisional = false := by
  unfold requireAuthenticated at h
  cases huser : session.authenticatedUser with
  | none => simp [huser, throw, throwThe, MonadExceptOf.throw] at h
  | some name =>
    simp only [huser] at h
    split_ifs at h with hbad
    have hname : name = user := Except.ok.inj h
    push Not at hbad
    exact ⟨by rw [hname], by simpa using hbad.1⟩

theorem requireParticipant_ok {user : ParticipantId} (h : requireParticipant session = .ok user) :
    session.authenticatedUser = some user ∧ session.provisional = false := by
  obtain ⟨name, hname, h⟩ := except_bind_eq_ok.1 h
  split_ifs at h
  rw [← Except.ok.inj h]
  exact requireAuthenticated_ok hname

variable {message : Json}

theorem CreateRequest.parse_ok {setup : Setup} {request : CreateRequest}
    (h : CreateRequest.parse setup session message = .ok request) :
    session.authenticatedUser = some request.initiatorId ∧ session.provisional = false := by
  simp only [CreateRequest.parse, except_bind_eq_ok] at h
  obtain ⟨user, huser, _, -, _, -, _, -, _, -, _, -, hrequest⟩ := h
  cases hrequest
  exact requireParticipant_ok huser

theorem JoinRequest.parse_ok {setup : Setup} {request : JoinRequest}
    (h : JoinRequest.parse setup session message = .ok request) :
    session.authenticatedUser = some request.participantId ∧ session.provisional = false := by
  simp only [JoinRequest.parse, except_bind_eq_ok] at h
  obtain ⟨user, huser, _, -, _, -, _, -, _, -, _, -, hrequest⟩ := h
  cases hrequest
  exact requireParticipant_ok huser

theorem LeaveRequest.parse_ok {request : LeaveRequest}
    (h : LeaveRequest.parse session message = .ok request) :
    session.authenticatedUser = some request.participantId ∧ session.provisional = false := by
  simp only [LeaveRequest.parse, except_bind_eq_ok] at h
  obtain ⟨user, huser, _, -, _, -, _, -, hrequest⟩ := h
  cases hrequest
  exact requireAuthenticated_ok huser

end CallBackend.Call
