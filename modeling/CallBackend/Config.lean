import CallBackend.Basic

/-!
# The configuration and its validation

`Config` has the fields that `validate` reads; paths and the log level are left out. Durations are
nanoseconds. Sizes, limits and durations are naturals: `validate` rejects a negative value with the
same message as zero. String methods, address and URL parsing come from the Python library and are
fields of `Platform`.
-/

namespace CallBackend

/-- What `urlparse` reports of a URL; a missing part is `none`. -/
structure ParsedUrl where
  scheme : String
  hostname : Option String
  username : Option String := none
  password : Option String := none
  query : String := ""
  fragment : String := ""

abbrev QAppIdentity : Type := String × String

/-- The library functions the configuration is checked with. -/
structure Platform where
  /-- `value.strip().lower()`. -/
  folded : String → String
  /-- `value.strip()` is empty. -/
  isBlank : String → Bool
  /-- Accepted by `ipaddress.ip_address`. -/
  isIpAddress : String → Bool
  urlparse : String → ParsedUrl
  normalizeQAppIdentity : QAppIdentity → Except Exn QAppIdentity

structure Config where
  productionDeployment : String := "local"
  maxFrameSize : Nat := 256 * 1024
  maxQueueBytes : Nat := 2 * 1024 * 1024
  maxUnackedMessages : Nat := 64
  dedupCacheSize : Nat := 512
  ackTimeout : Nanos := seconds 120
  maxTransportRetries : Nat := 0
  sessionTtl : Nanos := seconds (24 * 60 * 60)
  unauthenticatedSessionTtl : Nanos := seconds (2 * 60)
  maxLogicalSessionsPerLink : Nat := 8
  maxUnauthenticatedSessions : Nat := 256
  maxAuthChallenges : Nat := 512
  maxNewSessionsPerLinkPerMinute : Nat := 16
  idleConnectionTimeout : Nanos := seconds (5 * 60)
  announceInterval : Nanos := seconds (15 * 60)
  maxRpcPayload : Nat := 256 * 1024
  maxRpcResponse : Nat := 1024 * 1024
  privateTransportBindHost : String := "127.0.0.1"
  privateTransportPublicHost : String := "127.0.0.1"
  privateTransportPort : Nat := 0
  privateTransportServerName : String := "qapp-call-private-backend"
  callMediaPublicHost : String := "127.0.0.1"
  callMediaPort : Nat := 4446
  privateTransportAttachTtl : Nanos := seconds 30
  privateTransportBootstrapsPerMinute : Nat := 4
  privateTransportBootstrapsPerUserPerMinute : Nat := 8
  privateTransportMaxUnusedPerSession : Nat := 4
  privateTransportMaxUnusedGlobal : Nat := 1024
  allowedQapps : List QAppIdentity := []
  accessMode : String := "public"
  allowedGroupIds : List Nat := []
  coreUrlBases : List String := []
  accessRevalidateInterval : Nanos := seconds (30 * 60)
  accessOutageGrace : Nanos := seconds (60 * 60)

namespace Config

def require (p : Prop) [Decidable p] (message : String) : Except Exn Unit :=
  if p then .ok () else .error (.valueError message)

/-- The fields that must be positive, with their names, in the order of the checks. -/
def positive (config : Config) : List (String × Nat) :=
  [("max_frame_size", config.maxFrameSize), ("max_queue_bytes", config.maxQueueBytes),
    ("max_unacked_messages", config.maxUnackedMessages),
    ("dedup_cache_size", config.dedupCacheSize), ("ack_timeout", config.ackTimeout),
    ("session_ttl", config.sessionTtl),
    ("unauthenticated_session_ttl", config.unauthenticatedSessionTtl),
    ("max_logical_sessions_per_link", config.maxLogicalSessionsPerLink),
    ("max_unauthenticated_sessions", config.maxUnauthenticatedSessions),
    ("max_auth_challenges", config.maxAuthChallenges),
    ("max_new_sessions_per_link_per_minute", config.maxNewSessionsPerLinkPerMinute),
    ("idle_connection_timeout", config.idleConnectionTimeout),
    ("announce_interval", config.announceInterval), ("max_rpc_payload", config.maxRpcPayload),
    ("max_rpc_response", config.maxRpcResponse)]

def validateHosts (platform : Platform) (config : Config) : Except Exn Unit :=
  require (platform.isIpAddress config.privateTransportBindHost ∧
      ∀ host ∈ [config.privateTransportPublicHost, config.callMediaPublicHost],
        platform.folded host ≠ "auto" → platform.isIpAddress host)
    "private transport hosts must be literal IP addresses or auto"

def validateCoreUrl (platform : Platform) (base : String) : Except Exn Unit := do
  let parsed := platform.urlparse base
  require (parsed.scheme ∈ ["http", "https"] ∧ (∃ host ∈ parsed.hostname, host ≠ "") ∧
      parsed.username = none ∧ parsed.password = none ∧ parsed.query = "" ∧ parsed.fragment = "")
    "core_url_bases contains an invalid Core URL"
  require (¬(parsed.scheme = "http" ∧
      parsed.hostname.getD "" ∉ ["127.0.0.1", "localhost", "::1", "host.docker.internal"]))
    "remote Core URLs must use HTTPS"

def validate (platform : Platform) (config : Config) : Except Exn Unit := do
  require (config.productionDeployment ∈ ["local", "docker"])
    "production_deployment must be local or docker"
  config.positive.forM fun field => require (0 < field.2) (field.1 ++ " must be positive")
  require (config.unauthenticatedSessionTtl ≤ config.sessionTtl)
    "unauthenticated_session_ttl cannot exceed session_ttl"
  require (config.maxTransportRetries = 0) "protocol v1 requires max_transport_retries = 0"
  require (config.maxFrameSize ≤ 256 * 1024) "max_frame_size cannot exceed 262144"
  validateHosts platform config
  require (config.privateTransportPort ≤ 65535)
    "private_transport_port must be between 0 and 65535"
  require (¬(platform.folded config.privateTransportPublicHost = "auto" ∧
      config.privateTransportPort = 0))
    "automatic reachability requires a fixed private_transport_port"
  require (1 ≤ config.callMediaPort ∧ config.callMediaPort ≤ 65535)
    "call_media_port must be between 1 and 65535"
  require (platform.isBlank config.privateTransportServerName = false)
    "private_transport_server_name is invalid"
  require (seconds 5 ≤ config.privateTransportAttachTtl ∧
      config.privateTransportAttachTtl ≤ seconds 300)
    "private_transport_attach_ttl must be between 5 and 300 seconds"
  require (0 < config.privateTransportBootstrapsPerMinute ∧
      0 < config.privateTransportBootstrapsPerUserPerMinute ∧
      0 < config.privateTransportMaxUnusedPerSession ∧ 0 < config.privateTransportMaxUnusedGlobal)
    "private transport limits must be positive"
  require (config.privateTransportMaxUnusedPerSession ≤ config.privateTransportMaxUnusedGlobal)
    "private transport global token limit is too small"
  config.allowedQapps.forM fun identity => do
    let normalized ← platform.normalizeQAppIdentity identity
    require (normalized = identity) "allowed_qapps entries must use canonical identities"
  require (config.accessMode ∈ ["public", "groups"]) "access_mode must be public or groups"
  require (config.allowedGroupIds.length ≤ 16 ∧ (∀ group ∈ config.allowedGroupIds, 0 < group) ∧
      config.allowedGroupIds.Nodup)
    "allowed_group_ids must contain up to 16 unique positive integers"
  require (¬(config.accessMode = "public" ∧ config.allowedGroupIds ≠ []))
    "public access cannot have group restrictions"
  require (¬(config.accessMode = "groups" ∧ config.allowedGroupIds = []))
    "groups access requires at least one allowed_group_id"
  require (config.coreUrlBases.length ≤ 8 ∧
      ¬(config.accessMode = "groups" ∧ config.coreUrlBases = []))
    "groups access requires 1 to 8 Core URLs"
  config.coreUrlBases.forM (validateCoreUrl platform)
  require (seconds 60 ≤ config.accessRevalidateInterval ∧
      config.accessRevalidateInterval ≤ seconds (12 * 60 * 60))
    "access_revalidate_interval must be between 60 seconds and 12 hours"
  require (config.accessRevalidateInterval ≤ config.accessOutageGrace ∧
      config.accessOutageGrace ≤ seconds (24 * 60 * 60))
    "access_outage_grace must be at least the revalidation interval and at most 24 hours"

/-! ### What a validated configuration satisfies -/

theorem toBool_seq {α : Type} (first : Except Exn Unit) (rest : Except Exn α) :
    (first >>= fun _ => rest).toBool = (first.toBool && rest.toBool) := by
  cases first <;> rfl

theorem toBool_require (p : Prop) [Decidable p] (message : String) :
    (require p message).toBool = decide p := by
  unfold require
  split_ifs with h <;> simp [h, Except.toBool]

variable {platform : Platform} {config : Config}

theorem maxFrameSize_of_validate (h : (config.validate platform).toBool = true) :
    0 < config.maxFrameSize ∧ config.maxFrameSize ≤ 256 * 1024 := by
  simp only [validate, toBool_seq, toBool_require, Bool.and_eq_true, decide_eq_true_eq] at h
  obtain ⟨-, hpositive, -, -, hsize, -⟩ := h
  refine ⟨?_, hsize⟩
  have hfirst : (require (0 < config.maxFrameSize) ("max_frame_size" ++ " must be positive") >>=
      fun _ => config.positive.tail.forM fun field =>
        require (0 < field.2) (field.1 ++ " must be positive")).toBool = true := hpositive
  rw [toBool_seq, toBool_require, Bool.and_eq_true] at hfirst
  exact of_decide_eq_true hfirst.1

end Config

end CallBackend
