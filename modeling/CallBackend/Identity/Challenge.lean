import CallBackend.Identity.Base58
import CallBackend.Server.MediaGrants

/-!
# Identity challenges

A client proves its address by signing a challenge. The verifier keeps the challenges it has issued, a
bounded number of them, and takes one out before it looks at anything else in a proof; so a challenge
serves one attempt, whether the attempt succeeds or not. What is signed is put together from the
challenge that was stored, not from the proof, and its text says which challenge and which login it is
for.

Hashes, string methods and Ed25519 come from libraries. The random ids of challenges are inputs.
-/

namespace CallBackend.Identity

open Exec JsonText

/-- What the verifier takes from libraries. -/
structure Primitives where
  library : Server.TextLibrary
  hashes : Hashes
  /-- `Ed25519PublicKey.from_public_bytes(key).verify(signature, message)` does not raise. -/
  ed25519 : Bytes → Bytes → Bytes → Bool

def authProtocol : String := "qortal-qapp-auth-v1"

def challengeTtl : Nanos := seconds 60

def destinationPattern : String → Bool := fullmatch isLowerHex 32 32

structure Challenge where
  challengeId : String
  nonce : String
  backendDestination : String
  expiresAt : Nat
  deriving DecidableEq

def Challenge.public (challenge : Challenge) : List Member :=
  [("protocol", .str authProtocol),
    ("challengeId", .str challenge.challengeId),
    ("nonce", .str challenge.nonce),
    ("backendDestination", .str challenge.backendDestination),
    ("expiresAt", .nat challenge.expiresAt)]

/-- `normalize_qapp_identity`, for values of any type. -/
def normalizeQAppFields (primitives : Primitives) (name service : Json) : Except Exn QAppIdentity :=
  match name.text?, service.text? with
  | some name, some service => Server.normalizeQAppIdentity primitives.library (name, service)
  | _, _ => .error (.valueError "Q-App identity fields must be strings")

/-- `QortalIdentityVerifier`. -/
structure Verifier where
  allowedQApps : List QAppIdentity
  maxOutstandingChallenges : Nat
  enforceQAppAllowlist : Bool
  positive : 0 < maxOutstandingChallenges

/-- The constructor. -/
def qortalIdentityVerifier (primitives : Primitives) (allowedQApps : List (Json × Json))
    (maxOutstandingChallenges : Nat) (enforceQAppAllowlist : Bool) : Except Exn Verifier :=
  if positive : 0 < maxOutstandingChallenges then do
    let allowedQApps ← allowedQApps.mapM fun pair => normalizeQAppFields primitives pair.1 pair.2
    return { allowedQApps, maxOutstandingChallenges, enforceQAppAllowlist, positive }
  else .error (.valueError "max_outstanding_challenges must be positive")

/-! ### Issuing -/

abbrev Challenges : Type := Dict String Challenge

/-- Computations of the verifier at a time. -/
abbrev VerifierM : Type → Type := Exec Nanos Challenges Exn

/-- The loop that evicts the oldest challenges; each round takes one of the challenges there are. -/
def evict (limit : Nat) : Nat → Challenges → Challenges
  | 0, challenges => challenges
  | rounds + 1, challenges =>
    if limit ≤ challenges.size then evict limit rounds challenges.popOldest else challenges

/-- The challenges after those that have expired and those in the way of a new one are gone. -/
def makeRoom (verifier : Verifier) (now : Nanos) (challenges : Challenges) : Challenges :=
  let kept := challenges.filter fun _ challenge => !decide (challenge.expiresAt < millis now)
  evict verifier.maxOutstandingChallenges kept.size kept

def newChallenge (challengeId nonce backendDestination : String) (now : Nanos) : Challenge where
  challengeId := challengeId
  nonce := nonce
  backendDestination := backendDestination
  expiresAt := millis (now + challengeTtl)

def issue (verifier : Verifier) (challengeId nonce backendDestination : String) :
    VerifierM (List Member) := do
  ensure (destinationPattern backendDestination = true) (.valueError "backend destination is unavailable")
  let now ← ask
  let challenge := newChallenge challengeId nonce backendDestination now
  modify fun challenges => (makeRoom verifier now challenges).set challenge.challengeId challenge
  return challenge.public

/-! ### Verifying -/

/-- `==` of Python, for a value of a proof and a field of a challenge. -/
def equals (value : Json) : Scalar → Bool
  | .str s => decide (value.text? = some s)
  | .nat n =>
    match value with
    | .int m => decide (m = n)
    | .float q => decide (q = n)
    | .bool b => decide (b.toNat = n)
    | _ => false

/-- `canonical_proof`: sorted by keys, without blanks, in UTF-8. -/
def canonicalProof (fields : List Member) : Bytes :=
  let sorted := fields.insertionSort fun a b => a.1 ≤ b.1
  (String.ofList (writeRawObject sorted)).toUTF8.data.toList

structure Login where
  address : String
  publicKey : String
  qappIdentity : QAppIdentity
  deriving DecidableEq

def signedFields (challenge : Challenge) (login : Login) : List Member :=
  challenge.public ++
    [("address", .str login.address),
      ("publicKey", .str login.publicKey),
      ("qappName", .str login.qappIdentity.1),
      ("qappService", .str login.qappIdentity.2)]

/-- The end of `verify`: the key belongs to the address, and has signed the login. -/
def checkSignature (primitives : Primitives) (challenge : Challenge) (login : Login)
    (signature : String) : Except Exn Login := do
  let publicKey ← base58Decode (.str login.publicKey)
  let owner ← qortalAddress primitives.hashes publicKey
  if owner ≠ login.address then throw (.valueError "public key does not match Qortal address")
  match base58Decode (.str signature) with
  | .error _ => throw (.valueError "invalid Qortal identity signature")
  | .ok signature =>
    if primitives.ed25519 publicKey signature (canonicalProof (signedFields challenge login)) then
      return login
    else throw (.valueError "invalid Qortal identity signature")

/-- `verify`, for the challenge that has been taken out. -/
def checkProof (primitives : Primitives) (verifier : Verifier) (challenge : Challenge) (proof : Json) :
    Except Exn Login := do
  if !(challenge.public.all fun field => equals (proof.get field.1) field.2) then
    throw (.valueError "identity proof does not match its challenge")
  match (proof.get "address").text?, (proof.get "publicKey").text?, (proof.get "signature").text? with
  | some address, some publicKey, some signature => do
    let qappIdentity ← normalizeQAppFields primitives (proof.get "qappName") (proof.get "qappService")
    if (proof.get "qappName").text? ≠ some qappIdentity.1 ∨
        (proof.get "qappService").text? ≠ some qappIdentity.2 ∨
        verifier.enforceQAppAllowlist = true ∧ qappIdentity ∉ verifier.allowedQApps then
      throw (.valueError "Q-App is not authorized for this backend")
    checkSignature primitives challenge { address, publicKey, qappIdentity } signature
  | _, _, _ => throw (.valueError "identity proof is incomplete")

def isObject : Json → Bool
  | .obj _ => true
  | _ => false

def verify (primitives : Primitives) (verifier : Verifier) (proof : Json) : VerifierM Login := do
  ensure (isObject proof = true) (.valueError "identity proof must be an object")
  let timestampMs := millis (← ask)
  let challengeId ← require (proof.get "challengeId").text?
    (.valueError "identity proof is missing its challenge")
  let found := (← get).get? challengeId
  modify (·.erase challengeId)
  let challenge ← require found (.valueError "identity challenge is invalid or expired")
  ensure (timestampMs ≤ challenge.expiresAt) (.valueError "identity challenge is invalid or expired")
  lift (checkProof primitives verifier challenge proof)

/-! ### What the functions do -/

section Functions

variable {primitives : Primitives} {verifier : Verifier} {challenges : Challenges} {proof : Json}
  {now : Nanos} {id : String} {challenge : Challenge}

theorem get?_evict {limit rounds : Nat} (h : (evict limit rounds challenges).get? id = some challenge) :
    challenges.get? id = some challenge := by
  induction rounds generalizing challenges with
  | zero => exact h
  | succ rounds ih =>
    rw [evict] at h
    split_ifs at h
    · exact Dict.get?_popOldest (ih h)
    · exact h

theorem size_evict {limit rounds : Nat} (hlimit : 0 < limit) (hrounds : challenges.size ≤ rounds) :
    (evict limit rounds challenges).size < limit := by
  induction rounds generalizing challenges with
  | zero => exact Nat.lt_of_le_of_lt hrounds hlimit
  | succ rounds ih =>
    rw [evict]
    split_ifs with hfull
    · apply ih
      rw [Dict.size_popOldest]
      omega
    · exact Nat.lt_of_not_le hfull

theorem get?_makeRoom (h : (makeRoom verifier now challenges).get? id = some challenge) :
    challenges.get? id = some challenge := by
  have hkept := get?_evict h
  rw [Dict.get?_filter, Option.filter_eq_some_iff] at hkept
  exact hkept.1

theorem size_makeRoom : (makeRoom verifier now challenges).size < verifier.maxOutstandingChallenges :=
  size_evict verifier.positive (Nat.le_refl _)

/-- The challenge a proof names. -/
def named (proof : Json) : Option String := (proof.get "challengeId").text?

def Challenges.without (challenges : Challenges) : Option String → Challenges
  | some id => challenges.erase id
  | none => challenges

theorem isObject_of_named (h : named proof = some id) : isObject proof = true := by
  cases proof with
  | obj fields => rfl
  | _ => exact absurd h (Option.some_ne_none _).symm

/-- The challenge is gone however the attempt ends; the attempt succeeds only with a challenge that
was there. -/
theorem wp_verify : wp (verify primitives verifier proof) now challenges
    (fun login challenges' => challenges' = challenges.without (named proof) ∧
      ∃ id challenge, named proof = some id ∧ challenges.get? id = some challenge ∧
        millis now ≤ challenge.expiresAt ∧ checkProof primitives verifier challenge proof = .ok login)
    fun _ challenges' => challenges' = challenges.without (named proof) := by
  simp only [verify, wp_do, wp_ensure, wp_require, wp_lift]
  refine ⟨fun _ => ?_, fun hobject => ?_⟩
  · refine ⟨fun id hid => ?_, fun hnone => ?_⟩
    · have hwithout : challenges.erase id = challenges.without (named proof) := by
        rw [named, hid]
        rfl
      refine ⟨fun challenge hchallenge => ?_, fun _ => hwithout⟩
      refine ⟨fun htime => ⟨fun login hlogin => ⟨hwithout, id, challenge, hid, hchallenge, htime, hlogin⟩,
        fun _ _ => hwithout⟩, fun _ => hwithout⟩
    · rw [named, hnone]
      rfl
  · have hnone : named proof = none := by
      cases hnamed : named proof with
      | none => rfl
      | some id => exact absurd (isObject_of_named hnamed) hobject
    rw [hnone]
    rfl

/-- What a proof that is accepted shows. -/
structure Proven (primitives : Primitives) (verifier : Verifier) (challenge : Challenge) (proof : Json)
    (login : Login) : Prop where
  /-- The address is the address of the key, and the key has signed the challenge and the login. -/
  signed : ∃ publicKey signature text,
    base58Decode (.str login.publicKey) = .ok publicKey ∧
    qortalAddress primitives.hashes publicKey = .ok login.address ∧
    proof.get "signature" = .str text ∧ base58Decode (.str text) = .ok signature ∧
    primitives.ed25519 publicKey signature (canonicalProof (signedFields challenge login)) = true
  canonical : Server.normalizeQAppIdentity primitives.library login.qappIdentity = .ok login.qappIdentity
  listed : verifier.enforceQAppAllowlist = true → login.qappIdentity ∈ verifier.allowedQApps

theorem checkSignature_ok {login login' : Login} {text : String}
    (h : checkSignature primitives challenge login text = .ok login') :
    login' = login ∧ ∃ publicKey signature, base58Decode (.str login.publicKey) = .ok publicKey ∧
      qortalAddress primitives.hashes publicKey = .ok login.address ∧
      base58Decode (.str text) = .ok signature ∧
      primitives.ed25519 publicKey signature (canonicalProof (signedFields challenge login)) = true := by
  unfold checkSignature at h
  obtain ⟨publicKey, hkey, h⟩ := except_bind_eq_ok.1 h
  obtain ⟨owner, howner, h⟩ := except_bind_eq_ok.1 h
  split_ifs at h with hne
  · exact nomatch h
  · have heq : owner = login.address := by simpa using hne
    cases hsignature : base58Decode (.str text) with
    | error e =>
      rw [hsignature] at h
      exact nomatch h
    | ok signature =>
      rw [hsignature] at h
      dsimp only [pure_bind] at h
      split_ifs at h with hvalid
      cases h
      exact ⟨rfl, publicKey, signature, hkey, heq ▸ howner, rfl, hvalid⟩

theorem normalizeQAppFields_self {name service : Json} {identity : QAppIdentity}
    (h : normalizeQAppFields primitives name service = .ok identity)
    (hname : name.text? = some identity.1) (hservice : service.text? = some identity.2) :
    Server.normalizeQAppIdentity primitives.library identity = .ok identity := by
  rw [normalizeQAppFields, hname, hservice] at h
  exact h

theorem proven_of_checkProof {login : Login}
    (h : checkProof primitives verifier challenge proof = .ok login) :
    Proven primitives verifier challenge proof login := by
  unfold checkProof at h
  split_ifs at h with hfields
  · exact nomatch h
  · cases haddress : (proof.get "address").text? with
    | none =>
      rw [haddress] at h
      exact nomatch h
    | some address =>
      cases hkey : (proof.get "publicKey").text? with
      | none =>
        rw [haddress, hkey] at h
        exact nomatch h
      | some publicKey =>
        cases htext : (proof.get "signature").text? with
        | none =>
          rw [haddress, hkey, htext] at h
          exact nomatch h
        | some text =>
          rw [haddress, hkey, htext] at h
          dsimp only [pure_bind] at h
          obtain ⟨identity, hidentity, h⟩ := except_bind_eq_ok.1 h
          split_ifs at h with hrefused
          · exact nomatch h
          · obtain ⟨rfl, key, signature, hdecoded, howner, hsignature, hvalid⟩ := checkSignature_ok h
            simp only [not_or, not_and, Decidable.not_not] at hrefused
            exact ⟨⟨key, signature, text, hdecoded, howner, Json.text?_eq_some.1 htext, hsignature,
              hvalid⟩, normalizeQAppFields_self hidentity hrefused.1 hrefused.2.1, hrefused.2.2⟩

end Functions

/-! ### What is signed -/

theorem sorted_signedFields (challenge : Challenge) (login : Login) :
    ((signedFields challenge login).insertionSort fun a b => a.1 ≤ b.1) =
      [("address", .str login.address),
        ("backendDestination", .str challenge.backendDestination),
        ("challengeId", .str challenge.challengeId),
        ("expiresAt", .nat challenge.expiresAt),
        ("nonce", .str challenge.nonce),
        ("protocol", .str authProtocol),
        ("publicKey", .str login.publicKey),
        ("qappName", .str login.qappIdentity.1),
        ("qappService", .str login.qappIdentity.2)] := by
  simp +decide [signedFields, Challenge.public, List.insertionSort, List.orderedInsert]

theorem sorted_ne_nil (challenge : Challenge) (login : Login) :
    ((signedFields challenge login).insertionSort fun a b => a.1 ≤ b.1) ≠ [] := by
  rw [sorted_signedFields]
  exact List.cons_ne_nil _ _

theorem eq_of_toUTF8 {text text' : String} (h : text.toUTF8.data.toList = text'.toUTF8.data.toList) :
    text = text' :=
  String.toByteArray_inj.1 (ByteArray.ext (Array.toList_inj.1 h))

theorem canonicalProof_inj {challenge challenge' : Challenge} {login login' : Login}
    (h : canonicalProof (signedFields challenge login) = canonicalProof (signedFields challenge' login')) :
    challenge = challenge' ∧ login = login' := by
  have hmembers := writeRawObject_inj (sorted_ne_nil challenge login) (sorted_ne_nil challenge' login')
    (String.ofList_injective (eq_of_toUTF8 h))
  rw [sorted_signedFields, sorted_signedFields] at hmembers
  obtain ⟨challengeId, nonce, destination, expiresAt⟩ := challenge
  obtain ⟨address, publicKey, name, service⟩ := login
  obtain ⟨challengeId', nonce', destination', expiresAt'⟩ := challenge'
  obtain ⟨address', publicKey', name', service'⟩ := login'
  simp only [List.cons.injEq, Prod.mk.injEq, Scalar.str.injEq, Scalar.nat.injEq, true_and, and_true]
    at hmembers
  obtain ⟨haddress, hdestination, hid, hexpires, hnonce, hkey, hname, hservice⟩ := hmembers
  rw [haddress, hdestination, hid, hexpires, hnonce, hkey, hname, hservice]
  exact ⟨rfl, rfl⟩

/-! ### Histories -/

inductive Entry where
  | issued (now : Nanos) (challenge : Challenge)
  | attempted (now : Nanos) (proof : Json) (outcome : Except Exn Login)

def Entry.issues (id : String) : Entry → Bool
  | .issued _ challenge => challenge.challengeId = id
  | .attempted _ _ _ => false

def Entry.names (id : String) : Entry → Bool
  | .issued _ _ => false
  | .attempted _ proof _ => named proof = some id

def Entry.succeeds (id : String) : Entry → Bool
  | .attempted _ proof (.ok _) => named proof = some id
  | _ => false

/-- The stored challenges, the time of the last call and what has happened so far. -/
structure History where
  challenges : Challenges
  clock : Nanos
  log : List Entry

/-- A call of the verifier; `challengeId` and `nonce` are the tokens it draws. -/
inductive Call where
  | issue (challengeId nonce backendDestination : String)
  | verify (proof : Json)

def History.next (primitives : Primitives) (verifier : Verifier) (h : History) (now : Nanos) :
    Call → History
  | .issue challengeId nonce backendDestination =>
    let outcome := Identity.issue verifier challengeId nonce backendDestination now h.challenges
    { challenges := outcome.2
      clock := now
      log :=
        match outcome.1 with
        | .ok _ => h.log ++ [.issued now (newChallenge challengeId nonce backendDestination now)]
        | .error _ => h.log }
  | .verify proof =>
    let outcome := Identity.verify primitives verifier proof now h.challenges
    { challenges := outcome.2
      clock := now
      log := h.log ++ [.attempted now proof outcome.1] }

def Call.Fresh (h : History) : Call → Prop
  | .issue challengeId _ _ => ∀ entry ∈ h.log, entry.issues challengeId = false
  | .verify _ => True

def logins (primitives : Primitives) (verifier : Verifier) : System History (Call × Nanos) where
  init h := h.challenges = ∅ ∧ h.log = []
  step h event h' :=
    h.clock ≤ event.2 ∧ event.1.Fresh h ∧ h' = h.next primitives verifier event.2 event.1

structure Outstanding (log : List Entry) (clock : Nanos) (id : String) (challenge : Challenge) : Prop where
  key : challenge.challengeId = id
  issued : ∃ early issuedAt late, log = early ++ .issued issuedAt challenge :: late ∧
    issuedAt ≤ clock ∧ challenge.expiresAt = millis (issuedAt + challengeTtl) ∧
    ∀ entry ∈ late, entry.names id = false

structure History.Sound (verifier : Verifier) (h : History) : Prop where
  size : h.challenges.size ≤ verifier.maxOutstandingChallenges
  outstanding : ∀ id challenge, h.challenges.get? id = some challenge →
    Outstanding h.log h.clock id challenge
  single : ∀ id, h.log.countP (·.succeeds id) ≤ 1
  /-- Only a challenge that was issued and taken out again has been of use. -/
  unspent : ∀ id, h.challenges.get? id ≠ none ∨ (∀ entry ∈ h.log, entry.issues id = false) →
    h.log.countP (·.succeeds id) = 0

section Histories

variable {primitives : Primitives} {verifier : Verifier} {h : History} {now : Nanos} {proof : Json}
  {id : String} {challenge : Challenge} {log : List Entry} {clock : Nanos}

theorem Outstanding.append (hout : Outstanding log clock id challenge) (hclock : clock ≤ now)
    {entry : Entry} (hentry : entry.names id = false) :
    Outstanding (log ++ [entry]) now id challenge := by
  obtain ⟨hid, early, issuedAt, late, hlog, htime, hexpires, hlate⟩ := hout
  refine ⟨hid, early, issuedAt, late ++ [entry], ?_, htime.trans hclock, hexpires, fun other hother => ?_⟩
  · rw [hlog, List.append_assoc, List.cons_append]
  · rcases List.mem_append.1 hother with hother | hother
    · exact hlate other hother
    · rw [List.mem_singleton.1 hother]
      exact hentry

theorem countP_append_of_false {p : Entry → Bool} {entry : Entry} (h : p entry = false) :
    (log ++ [entry]).countP p = log.countP p := by
  rw [List.countP_append, List.countP_cons_of_neg (by simp [h]), List.countP_nil, Nat.add_zero]

theorem Outstanding.mono (hout : Outstanding log clock id challenge) (hclock : clock ≤ now) :
    Outstanding log now id challenge := by
  obtain ⟨hid, early, issuedAt, late, hlog, htime, hrest⟩ := hout
  exact ⟨hid, early, issuedAt, late, hlog, htime.trans hclock, hrest⟩

theorem Outstanding.issues (hout : Outstanding log clock id challenge) :
    ∃ entry ∈ log, entry.issues id = true := by
  obtain ⟨hid, early, issuedAt, late, hlog, -⟩ := hout
  refine ⟨.issued issuedAt challenge, ?_, decide_eq_true hid⟩
  rw [hlog]
  exact List.mem_append_right _ (.head _)

theorem History.Sound.pass (hsound : h.Sound verifier) (hclock : h.clock ≤ now) :
    History.Sound verifier { h with clock := now } :=
  ⟨hsound.size, fun id challenge hget => (hsound.outstanding id challenge hget).mono hclock,
    hsound.single, hsound.unspent⟩

theorem History.Sound.issued (hsound : h.Sound verifier) (hclock : h.clock ≤ now)
    {challengeId nonce destination : String}
    (hfresh : ∀ entry ∈ h.log, entry.issues challengeId = false) :
    History.Sound verifier
      { challenges := (makeRoom verifier now h.challenges).set challengeId
          (newChallenge challengeId nonce destination now)
        clock := now
        log := h.log ++ [.issued now (newChallenge challengeId nonce destination now)] } := by
  have hcount : ∀ id, (h.log ++ [Entry.issued now (newChallenge challengeId nonce destination now)]).countP
      (·.succeeds id) = h.log.countP (·.succeeds id) := fun id => countP_append_of_false rfl
  refine ⟨?_, fun id challenge hget => ?_, fun id => ?_, fun id hid => ?_⟩
  · exact Nat.le_trans (Dict.size_set_le ..) size_makeRoom
  · simp only [Dict.get?_set] at hget
    split_ifs at hget with heq
    · rw [← Option.some.inj hget, ← heq]
      exact ⟨rfl, h.log, now, [], rfl, Nat.le_refl _, rfl, fun _ h => by cases h⟩
    · exact (hsound.outstanding id challenge (get?_makeRoom hget)).append hclock rfl
  · rw [hcount]
    exact hsound.single id
  · rw [hcount]
    refine hsound.unspent id ?_
    rcases hid with hstored | hunissued
    · by_cases heq : challengeId = id
      · exact .inr (heq ▸ hfresh)
      · obtain ⟨challenge, hget⟩ := Option.ne_none_iff_exists'.1 hstored
        rw [Dict.get?_set_of_ne _ _ heq] at hget
        rw [get?_makeRoom hget]
        exact .inl (Option.some_ne_none challenge)
    · exact .inr fun entry hentry => hunissued entry (List.mem_append_left _ hentry)

theorem issue_eq (challengeId nonce destination : String) (now : Nanos) (challenges : Challenges) :
    Identity.issue verifier challengeId nonce destination now challenges =
      if destinationPattern destination = true then
        (.ok (newChallenge challengeId nonce destination now).public,
          (makeRoom verifier now challenges).set challengeId (newChallenge challengeId nonce destination now))
      else (.error (.valueError "backend destination is unavailable"), challenges) := by
  split_ifs with hdestination
  · rw [Identity.issue, ensure_bind hdestination]
    rfl
  · rw [Identity.issue]
    apply bind_error
    rw [ensure, if_neg hdestination]
    rfl

theorem History.Sound.issue (hsound : h.Sound verifier) (hclock : h.clock ≤ now)
    {challengeId nonce destination : String}
    (hfresh : ∀ entry ∈ h.log, entry.issues challengeId = false) :
    (h.next primitives verifier now (.issue challengeId nonce destination)).Sound verifier := by
  simp only [History.next, issue_eq]
  split_ifs
  · exact hsound.issued hclock hfresh
  · exact hsound.pass hclock

theorem verify_eq (primitives : Primitives) (verifier : Verifier) (proof : Json) (now : Nanos)
    (challenges : Challenges) :
    ∃ outcome, Identity.verify primitives verifier proof now challenges =
        (outcome, challenges.without (named proof)) ∧
      ∀ login, outcome = .ok login → ∃ id challenge, named proof = some id ∧
        challenges.get? id = some challenge ∧ millis now ≤ challenge.expiresAt ∧
        checkProof primitives verifier challenge proof = .ok login := by
  have hfinal : (Identity.verify primitives verifier proof now challenges).2 =
      challenges.without (named proof) :=
    wp_final (p := fun challenges' => challenges' = challenges.without (named proof))
      (wp_mono wp_verify (fun _ _ h => h.1) fun _ _ h => h)
  refine ⟨_, Prod.ext rfl hfinal, fun login hlogin => ?_⟩
  exact (wp_ok wp_verify (Prod.ext hlogin hfinal)).2

theorem get?_without {challenges : Challenges} {name : Option String}
    (h : (challenges.without name).get? id = some challenge) :
    challenges.get? id = some challenge ∧ name ≠ some id := by
  cases name with
  | none => exact ⟨h, (Option.some_ne_none id).symm⟩
  | some other =>
    obtain ⟨hne, hold⟩ := Dict.get?_erase_eq_some h
    exact ⟨hold, fun heq => hne (Option.some.inj heq)⟩

theorem size_without (challenges : Challenges) (name : Option String) :
    (challenges.without name).size ≤ challenges.size := by
  cases name with
  | none => exact Nat.le_refl _
  | some id => exact Dict.size_erase_le challenges id

theorem History.Sound.attempted (hsound : h.Sound verifier) (hclock : h.clock ≤ now)
    {outcome : Except Exn Login}
    (hsuccess : ∀ login, outcome = .ok login → ∃ id, named proof = some id ∧ h.challenges.get? id ≠ none) :
    History.Sound verifier
      { challenges := h.challenges.without (named proof)
        clock := now
        log := h.log ++ [.attempted now proof outcome] } := by
  have hsucceeds : ∀ id, (Entry.attempted now proof outcome).succeeds id = true →
      h.challenges.get? id ≠ none := by
    intro id hid
    cases outcome with
    | error e => exact absurd hid Bool.false_ne_true
    | ok login =>
      obtain ⟨other, hnamed, hget⟩ := hsuccess login rfl
      have heq : other = id := Option.some.inj (hnamed.symm.trans (of_decide_eq_true hid))
      exact heq ▸ hget
  have hfails : ∀ id, named proof ≠ some id → (Entry.attempted now proof outcome).succeeds id = false := by
    intro id hne
    cases outcome with
    | error e => rfl
    | ok login => exact decide_eq_false hne
  refine ⟨(size_without ..).trans hsound.size, fun id challenge hget => ?_, fun id => ?_, fun id hid => ?_⟩
  · obtain ⟨hold, hne⟩ := get?_without hget
    exact (hsound.outstanding id challenge hold).append hclock (decide_eq_false hne)
  · cases hentry : (Entry.attempted now proof outcome).succeeds id with
    | false =>
      rw [countP_append_of_false hentry]
      exact hsound.single id
    | true =>
      have hzero := hsound.unspent id (.inl (hsucceeds id hentry))
      rw [List.countP_append, hzero, Nat.zero_add]
      exact List.countP_le_length
  · have hentry : (Entry.attempted now proof outcome).succeeds id = false := by
      rcases hid with hstored | hunissued
      · obtain ⟨challenge, hget⟩ := Option.ne_none_iff_exists'.1 hstored
        exact hfails id (get?_without hget).2
      · by_contra htrue
        obtain ⟨challenge, hget⟩ := Option.ne_none_iff_exists'.1
          (hsucceeds id (Bool.eq_true_of_not_eq_false htrue))
        obtain ⟨entry, hmem, hissues⟩ := (hsound.outstanding id challenge hget).issues
        exact absurd (hissues.symm.trans (hunissued entry (List.mem_append_left _ hmem))) Bool.noConfusion
    rw [countP_append_of_false hentry]
    refine hsound.unspent id ?_
    rcases hid with hstored | hunissued
    · obtain ⟨challenge, hget⟩ := Option.ne_none_iff_exists'.1 hstored
      rw [(get?_without hget).1]
      exact .inl (Option.some_ne_none challenge)
    · exact .inr fun entry hmem => hunissued entry (List.mem_append_left _ hmem)

theorem History.Sound.verify (hsound : h.Sound verifier) (hclock : h.clock ≤ now) (proof : Json) :
    (h.next primitives verifier now (.verify proof)).Sound verifier := by
  obtain ⟨outcome, heq, hsuccess⟩ := verify_eq primitives verifier proof now h.challenges
  simp only [History.next, heq]
  refine hsound.attempted hclock fun login hlogin => ?_
  obtain ⟨id, challenge, hnamed, hget, -⟩ := hsuccess login hlogin
  exact ⟨id, hnamed, by rw [hget]; exact Option.some_ne_none challenge⟩

theorem logins_sound (hreach : (logins primitives verifier).Reachable System.anyStep h) :
    h.Sound verifier := by
  refine hreach.invariant (fun h hinit => ?_) fun h event h' hsound _ hstep => ?_
  · obtain ⟨hchallenges, hlog⟩ := hinit
    refine ⟨?_, ?_, ?_, ?_⟩
    · rw [hchallenges]
      exact Nat.zero_le _
    · rw [hchallenges]
      exact fun _ _ hget => nomatch hget
    · rw [hlog]
      exact fun _ => Nat.zero_le _
    · rw [hlog]
      exact fun _ _ => rfl
  · obtain ⟨hclock, hfresh, rfl⟩ := hstep
    obtain ⟨call, now⟩ := event
    cases call with
    | issue challengeId nonce destination => exact hsound.issue hclock hfresh
    | verify proof => exact hsound.verify hclock proof

/-- A challenge proves one login at most. In every history of calls, at most as many challenges are
stored as allowed, and each challenge id has led to at most one success. An attempt that succeeds names
a challenge that is stored, that was issued no more than sixty seconds earlier, and that no attempt has
named since; the address is that of the key, the Q-App identity is canonical and allowed, and the key
has signed a text that stands for exactly this challenge and this login. -/
theorem challenge_proves_one_login
    (hreach : (logins primitives verifier).Reachable System.anyStep h) :
    h.challenges.size ≤ verifier.maxOutstandingChallenges ∧
    (∀ id, h.log.countP (·.succeeds id) ≤ 1) ∧
    ∀ now proof login, h.clock ≤ now →
      (Identity.verify primitives verifier proof now h.challenges).1 = .ok login →
      ∃ challenge early issuedAt late,
        named proof = some challenge.challengeId ∧
        h.challenges.get? challenge.challengeId = some challenge ∧
        h.log = early ++ .issued issuedAt challenge :: late ∧
        (∀ entry ∈ late, entry.names challenge.challengeId = false) ∧
        issuedAt ≤ now ∧ millis now ≤ millis issuedAt + 60 * 1000 ∧
        Proven primitives verifier challenge proof login ∧
        ∀ challenge' login', canonicalProof (signedFields challenge' login') =
          canonicalProof (signedFields challenge login) → challenge' = challenge ∧ login' = login := by
  have hsound := logins_sound hreach
  refine ⟨hsound.size, hsound.single, fun now proof login hclock hlogin => ?_⟩
  obtain ⟨outcome, heq, hsuccess⟩ := verify_eq primitives verifier proof now h.challenges
  rw [heq] at hlogin
  obtain ⟨id, challenge, hnamed, hget, htime, hproof⟩ := hsuccess login hlogin
  obtain ⟨hid, early, issuedAt, late, hlog, hissued, hexpires, hlate⟩ := hsound.outstanding id challenge hget
  subst hid
  refine ⟨challenge, early, issuedAt, late, hnamed, hget, hlog, hlate, hissued.trans hclock, ?_,
    proven_of_checkProof hproof, fun _ _ => canonicalProof_inj⟩
  rw [hexpires] at htime
  simp only [millis, challengeTtl, seconds] at htime ⊢
  omega

end Histories

namespace Sample

def publicKey : Bytes :=
  BigEndian.encode 32 0xd75a980182b10ab7d54bfed3c964073a0ee172f3daa62325af021a68f707511a

/-- RIPEMD-160 of the SHA-256 of the key, after the version. -/
def versioned : Bytes :=
  addressVersion :: BigEndian.encode 20 0x9766bc6a50b376bd6fb25ecc5bd3288a663bbec9

/-- The hashes of the key and of its address. -/
def hashes : Hashes where
  sha256 data := BigEndian.encode 32 <|
    if data = publicKey then 0x21fe31dfa154a261626bf854046fd2271b7bed4b6abe45aa58877ef47f9721b9
    else if data = versioned then 0x0b8d4a0dd270b9a6b5903abdaf115f787251d7d970694b8911135c11b89e347c
    else 0x9ad75399597f33d4eccaa0470b852bfec702464921617edd4ce6bbd6b70db42b
  ripemd160 _ := versioned.tail
  length_sha256 _ := BigEndian.length_encode ..
  length_ripemd160 _ := BigEndian.length_encode ..

def destination : String := "00112233445566778899aabbccddeeff"

def login : Login where
  address := base58Encode (versioned ++ hashes.checksum versioned)
  publicKey := base58Encode publicKey
  qappIdentity := ("chat", "APP")

def challenge : Challenge := newChallenge "c1" "n1" destination (seconds 1)

/-- What the key has made of the text of the login. -/
def signature : Bytes := BigEndian.encode 64 <|
  0x653b1931d5f84b04fb7f738ec24e59ff8777a4483f21f0141136db5bb9688657 <<< 256 +
    0x56de7af08c023719d4cc5d031cf832db25fdcbf7ee15a7acc8209ecba35f3200

def primitives : Primitives where
  library := Server.Sample.library
  hashes
  ed25519 key signed message := key = publicKey ∧ signed = signature ∧
    message = canonicalProof (signedFields challenge login)

def verifier : Verifier := ⟨[("chat", "APP")], 512, true, by decide⟩

def proofOf (address publicKey signature : String) : Json := .obj
  [("protocol", .str authProtocol), ("challengeId", .str "c1"), ("nonce", .str "n1"),
    ("backendDestination", .str destination), ("expiresAt", .int 61000), ("address", .str address),
    ("publicKey", .str publicKey), ("signature", .str signature), ("qappName", .str "chat"),
    ("qappService", .str "APP")]

def proof : Json := proofOf login.address login.publicKey (base58Encode signature)

def issued : History :=
  History.next primitives verifier ⟨∅, 0, []⟩ (seconds 1) (.issue "c1" "n1" destination)

theorem checkProof_proofOf (address publicKey signature : String) :
    checkProof primitives verifier challenge (proofOf address publicKey signature) =
      checkSignature primitives challenge ⟨address, publicKey, ("chat", "APP")⟩ signature := rfl

theorem checkProof_login : checkProof primitives verifier challenge proof = .ok login := by
  have hkey : base58Decode (.str login.publicKey) = .ok publicKey := base58Decode_encode nofun
  have howner : qortalAddress primitives.hashes publicKey = .ok login.address := rfl
  have hsignature : base58Decode (.str (base58Encode signature)) = .ok signature := base58Decode_encode nofun
  refine (checkProof_proofOf ..).trans (except_bind_eq_ok.2 ⟨publicKey, hkey,
    except_bind_eq_ok.2 ⟨login.address, howner, ?_⟩⟩)
  rw [hsignature, if_neg (fun hne => hne rfl)]
  exact if_pos (decide_eq_true ⟨rfl, rfl, rfl⟩)

end Sample

open Sample in
theorem challenge_proves_one_login_sample :
    (verify primitives verifier proof (seconds 61) issued.challenges).1 =
      .ok login ∧
    ∃ challenge, Proven primitives verifier challenge proof login := by
  have hstart : (logins primitives verifier).Reachable System.anyStep ⟨∅, 0, []⟩ :=
    .init ⟨rfl, rfl⟩
  have hreach : (logins primitives verifier).Reachable System.anyStep issued :=
    hstart.step (a := (.issue "c1" "n1" destination, seconds 1)) trivial
      ⟨Nat.zero_le _, (fun _ hmem => nomatch hmem), rfl⟩
  have hverify : (verify primitives verifier proof (seconds 61)
      issued.challenges).1 = .ok login := checkProof_login
  obtain ⟨challenge, _, _, _, _, _, _, _, _, _, hproven, _⟩ :=
    (challenge_proves_one_login hreach).2.2 (seconds 61) proof login (by decide) hverify
  exact ⟨hverify, challenge, hproven⟩

end CallBackend.Identity
