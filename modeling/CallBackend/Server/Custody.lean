import CallBackend.Server.Credentials
import CallBackend.Server.Effect

/-!
# How attach credentials change hands

A deal is what one step of the credential protocol does to the tokens, with the reply it gives: a
token is issued and entered into the authority's table, a realtime token is filed for the media
service and then released, a token is spent by an attempt to attach, a grant file is claimed,
judged or purged. Everything else in the state stays, but for the transport of a session that
attaches.

A step of the server is a run of updates followed by a deal.
-/

namespace CallBackend.Server

open Exec Function

/-! ### Deals -/

/-- The authority's tables after `issue` has dropped what is out of date. -/
def TokenAuthority.swept (tokens : TokenAuthority) (now : Nanos) : TokenAuthority :=
  (tokens.expireGrants now).pruneRates now

/-- A token is entered into the authority's table. -/
def ServerState.issuing (st : ServerState) (now : Nanos) (token : Token) (grant : AttachGrant) :
    ServerState :=
  { st with tokens := (st.tokens.swept now).record now token grant }

/-- The grant becomes a file, and `bootstrap` goes on to release the token. -/
def ServerState.filing (st : ServerState) (token : Token) (grant : AttachGrant) (roomId : RoomId) :
    ServerState :=
  { st with
    grantFiles := update st.grantFiles token (some (grant.mediaGrant token roomId))
    mediaGrantFiles := update st.mediaGrantFiles grant.logicalSessionId
      (st.mediaGrantFiles grant.logicalSessionId ++ [token])
    releasing := some token }

/-- A token is taken out of the authority's table. -/
def ServerState.forgetting (st : ServerState) (token : Token) : ServerState :=
  { st with tokens := { st.tokens with grants := st.tokens.grants.erase token } }

/-- An attempt to attach drops what is out of date, and the token. -/
def ServerState.spending (st : ServerState) (now : Nanos) (token : Token) : ServerState :=
  ServerState.forgetting { st with tokens := st.tokens.expireGrants now } token

def ServerState.attaching (st : ServerState) (id : SessionId) (transport : TransportId) :
    ServerState :=
  { st with
    objects := update st.objects id { st.objects id with privateTransport := some transport } }

/-- The grant is one `bootstrap` makes now, when its session asks for this token. -/
structure AttachGrant.Describes (grant : AttachGrant) (setup : Setup) (env : ServerEnv)
    (asked : Option BootstrapCall) (token : Token) (st : ServerState) : Prop where
  asked : ∃ request ∈ asked, request.session = some grant.logicalSessionId ∧ request.token = token
  user : (st.objects grant.logicalSessionId).authenticatedUser = some grant.authenticatedUser
  identity : (st.objects grant.logicalSessionId).qappIdentity = some grant.qappIdentity
  indexed : st.logicalSessions grant.logicalConnectionId = some grant.logicalSessionId
  expiry : grant.expiresAt = env.now + setup.config.privateTransportAttachTtl

/-- One step of the credential protocol, with its reply unless it raises. -/
inductive Deal (setup : Setup) (env : ServerEnv) (asked : Option BootstrapCall) :
    Option Reply → ServerState → ServerState → Prop
  | raised (st : ServerState) : Deal setup env asked none st st
  | done (st : ServerState) : Deal setup env asked (some .done) st st
  | refused (st : ServerState) (code : String) : Deal setup env asked (some (.refused code)) st st
  | limited (st : ServerState) (code : String) :
      Deal setup env asked (some (.refused code)) st { st with tokens := st.tokens.swept env.now }
  | issued {st : ServerState} (token : Token) {grant : AttachGrant}
      (hdescribes : grant.Describes setup env asked token st) (hpurpose : grant.purpose ≠ .realtime) :
      Deal setup env asked (some (.issued token grant)) st (st.issuing env.now token grant)
  | unwritten {st : ServerState} (token : Token) {grant : AttachGrant}
      (hdescribes : grant.Describes setup env asked token st) (hpurpose : grant.purpose = .realtime) :
      Deal setup env asked none st (st.issuing env.now token grant)
  | written {st : ServerState} (token : Token) (roomId : RoomId) {grant : AttachGrant}
      (hdescribes : grant.Describes setup env asked token st) (hpurpose : grant.purpose = .realtime) :
      Deal setup env asked (some (.written token grant)) st
        ((st.issuing env.now token grant).filing token grant roomId)
  | returned (st : ServerState) (token : Token) :
      Deal setup env asked (some (.returned token)) st { st.forgetting token with releasing := none }
  | spent (st : ServerState) (token : Token) :
      Deal setup env asked none st (st.spending env.now token)
  | attached {st : ServerState} {request : AttachRequest} {grant : AttachGrant}
      (transport : TransportId)
      (hgrant : st.tokens.grants.get? request.attachToken = some grant)
      (hfits : grant.fits request env.now = true) (hhonours : st.honours grant env.now = true) :
      Deal setup env asked (some (.attached request.attachToken grant.logicalSessionId)) st
        ((st.spending env.now request.attachToken).attaching grant.logicalSessionId transport)
  | claimed {st : ServerState} {token : Token} {grant : MediaGrant}
      (hfile : st.grantFiles token = some grant) :
      Deal setup env asked (some .done) st { st with
        grantFiles := update st.grantFiles token none
        claimedGrants := st.claimedGrants ++ [(token, grant)] }
  | judged (st : ServerState) (claim : Token × MediaGrant) :
      Deal setup env asked none st { st with claimedGrants := st.claimedGrants.erase claim }
  | consumed (st : ServerState) (claim : Token × MediaGrant) :
      Deal setup env asked (some (.consumed claim.1)) st
        { st with claimedGrants := st.claimedGrants.erase claim }
  | purged (st : ServerState) (token : Token) :
      Deal setup env asked (some .done) st
        { st with grantFiles := update st.grantFiles token none }

/-- Nothing has changed but credentials and attached transports. -/
structure Sealed (st st' : ServerState) : Prop where
  core : ∀ id, (st'.objects id).core = (st.objects id).core
  rest : st' = { st with
    objects := st'.objects
    tokens := st'.tokens
    grantFiles := st'.grantFiles
    mediaGrantFiles := st'.mediaGrantFiles
    claimedGrants := st'.claimedGrants
    releasing := st'.releasing }

/-- However it ends, the computation is a deal. -/
def Deals (setup : Setup) (env : ServerEnv) (asked : Option BootstrapCall) (st : ServerState)
    (m : ServerM Reply) : Prop :=
  wp m env st (fun reply => Deal setup env asked (some reply) st) fun _ => Deal setup env asked none st

section Deals

variable {setup : Setup} {env : ServerEnv} {asked : Option BootstrapCall} {reply : Option Reply}
  {st st' : ServerState}

theorem Deal.sealed (h : Deal setup env asked reply st st') : Sealed st st' := by
  cases h with
  | @attached _ request grant transport hgrant hfits hhonours =>
    refine ⟨fun id => ?_, rfl⟩
    by_cases heq : id = grant.logicalSessionId
    · simp only [ServerState.attaching, heq, update_self]
      rfl
    · simp only [ServerState.attaching, update_of_ne heq]
      rfl
  | _ => exact ⟨fun _ => rfl, rfl⟩

theorem Sealed.wellformed (h : Sealed st st') (hst : st.Wellformed) : st'.Wellformed := by
  apply hst.congr h.core
  · rw [h.rest]
  · rw [h.rest]
  · rw [h.rest]

theorem Sealed.world (h : Sealed st st') : st'.world = st.world := by
  have hregistry : st'.registry = st.registry := by rw [h.rest]
  have hcall : st'.call = st.call := by rw [h.rest]
  have hcreators : st'.creators = st.creators := by rw [h.rest]
  simp only [ServerState.world, views_congr h.core hregistry, hcall, hcreators]

end Deals

/-! ### Every step is a run and a deal -/

/-- The computation is a run of updates, with a trace that is possible, followed by a deal. -/
def Steps (setup : Setup) (env : ServerEnv) (asked : Option BootstrapCall) (takes : Prop)
    (possible : List Call.Action → Prop) (st : ServerState) (reply : Option Reply)
    (st' : ServerState) : Prop :=
  ∃ trace st₁, possible trace ∧ Run setup env takes trace st st₁ ∧ Deal setup env asked reply st₁ st'

/-- However it ends, the computation is such a step. -/
def Takes (setup : Setup) (env : ServerEnv) (asked : Option BootstrapCall) (takes : Prop)
    (possible : List Call.Action → Prop) (st : ServerState) (m : ServerM Reply) : Prop :=
  wp m env st (fun reply => Steps setup env asked takes possible st (some reply))
    fun _ => Steps setup env asked takes possible st none

section Rules

variable {setup : Setup} {env : ServerEnv} {asked : Option BootstrapCall} {takes : Prop}
  {st : ServerState} {fail : Exn → ServerState → Prop}

theorem wp_issue {token : Token} {grant : AttachGrant} {post : Bool → ServerState → Prop}
    (hissued : post true (st.issuing env.now token grant))
    (hlimited : post false { st with tokens := st.tokens.swept env.now }) :
    wp (issue setup token grant) env st post fail := by
  simp only [issue, wp_do, wp_ite]
  exact ⟨fun _ => hissued, fun _ => hlimited⟩

variable {request : BootstrapCall}

theorem describes_grant {id : SessionId} {logicalId : LogicalId}
    (nonce : String) (purpose : Purpose) (hsession : request.session = some id)
    (huser : (st.objects id).authenticatedUser.isSome) (hidentity : (st.objects id).qappIdentity.isSome)
    (hindex : st.logicalSessions logicalId = some id) :
    (BootstrapCall.grant setup id (st.objects id) logicalId nonce purpose env.now).Describes setup env
      (some request) request.token st := by
  obtain ⟨user, huser⟩ := Option.isSome_iff_exists.1 huser
  obtain ⟨identity, hidentity⟩ := Option.isSome_iff_exists.1 hidentity
  constructor
  · exact ⟨request, rfl, hsession, rfl⟩
  · simp [BootstrapCall.grant, huser]
  · simp [BootstrapCall.grant, hidentity]
  · exact hindex
  · rfl

theorem deals_issueToken {id : SessionId} (nonce : String)
    (purpose : Purpose) (hsession : request.session = some id)
    (huser : (st.objects id).authenticatedUser.isSome)
    (hidentity : (st.objects id).qappIdentity.isSome)
    (hindex : st.logicalSessions (request.logicalId.getD "") = some id) :
    Deals setup env (some request) st (issueToken setup request id nonce purpose) := by
  obtain ⟨grant, hgrant⟩ : ∃ grant, grant = BootstrapCall.grant setup id (st.objects id)
    (request.logicalId.getD "") nonce purpose env.now := ⟨_, rfl⟩
  have hdescribes : grant.Describes setup env (some request) request.token st :=
    hgrant ▸ describes_grant nonce purpose hsession huser hidentity hindex
  have hpurpose : grant.purpose = purpose := by rw [hgrant]; rfl
  simp only [Deals, issueToken, wp_do, wp_ite, ← hgrant]
  refine ⟨fun _ => .refused st _, fun _ => ?_⟩
  by_cases hrealtime : purpose = .realtime
  · subst hrealtime
    cases st.call.callRoomId id with
    | none => exact .refused st _
    | some roomId =>
      simp only [writeMediaGrant, wp_do, wp_ite, wp_ensure]
      apply wp_issue
      · refine ⟨fun _ => ⟨fun _ => ?_, fun _ => ?_⟩, fun h => absurd rfl h⟩
        · exact .written _ roomId hdescribes hpurpose
        · exact .unwritten _ hdescribes hpurpose
      · exact ⟨fun h => absurd h Bool.false_ne_true, fun _ => .limited st _⟩
  · have hissue : Deals setup env (some request) st (do
        let issued ← issue setup request.token grant
        if issued then return .issued request.token grant
        else return .refused "bootstrap_rate_limited") := by
      simp only [Deals, wp_do, wp_ite]
      apply wp_issue
      · exact ⟨fun _ => .issued _ hdescribes (hpurpose ▸ hrealtime), fun h => absurd rfl h⟩
      · exact ⟨fun h => absurd h Bool.false_ne_true, fun _ => .limited st _⟩
    cases purpose with
    | realtime => exact absurd rfl hrealtime
    | game => exact hissue
    | fileTransfer => exact hissue

theorem BootstrapCall.sender_eq_some {id : SessionId}
    (h : request.sender setup st env.now = some id) :
    request.session = some id ∧ (st.objects id).authenticatedUser.isSome ∧
      (st.objects id).qappIdentity.isSome ∧
      st.logicalSessions (request.logicalId.getD "") = some id := by
  simp only [BootstrapCall.sender, Option.bind_eq_bind, Option.bind_eq_some_iff,
    Option.guard_eq_some', Option.pure_def, Option.some.injEq] at h
  obtain ⟨c, -, logicalId, hlogicalId, -, -, id', hindex, -, hsession, identity, hidentity, -, -, -, -,
    rfl⟩ := h
  refine ⟨hsession.1, ?_, by rw [hidentity]; rfl, by rw [hlogicalId]; exact hindex⟩
  have huser := hsession.2.2.2.1
  cases huser' : (st.objects id').authenticatedUser with
  | none => simp [huser'] at huser
  | some user => rfl

/-- What a bootstrap request may cost its sender. -/
def BootstrapCall.Possible (request : BootstrapCall) (st : ServerState) (trace : List Call.Action) :
    Prop :=
  trace = [] ∨ ∃ id, request.session = some id ∧ (Revocation id trace ∨ Clearance st.views trace)

/-- A request that is not refused at once costs its sender the session, or is a deal, before which
the session may be persisted. -/
theorem wp_bootstrap {post : Reply → ServerState → Prop}
    (hrevoked : ∀ id code, request.session = some id →
      wp (revoke setup id request.fault) env st (fun _ => post (.refused code)) fail)
    (hdealt : ∀ id t n reply st', Deal setup env (some request) (some reply) (st.persisted id t n) st' → post reply st')
    (hraised : ∀ e id t n st', Deal setup env (some request) none (st.persisted id t n) st' → fail e st') :
    wp (bootstrap setup request) env st post fail := by
  have hrefused : ∀ code, post (.refused code) st := by
    intro code
    refine hdealt "" (st.objects "").lastPersistedAt st.dbWrites (.refused code) st ?_
    rw [persisted_self]
    exact .refused st code
  unfold bootstrap
  cases BootstrapRequest.parse request.payload with
  | error code => exact hrefused code
  | ok parsed =>
    simp only [wp_do]
    cases hsender : request.sender setup st env.now with
    | none => exact hrefused _
    | some id =>
      obtain ⟨hsession, huser, hidentity, hindex⟩ := BootstrapCall.sender_eq_some hsender
      have hissues : ∀ t n, wp (do
          if (← getSession id).privateTransport.isSome then
            return Reply.refused "transport_already_attached"
          issueToken setup request id parsed.1 parsed.2) env (st.persisted id t n) post fail := by
        intro t n
        simp only [getSession, wp_do, wp_ite]
        refine ⟨fun _ => hdealt id t n _ _ (.refused _ _), fun _ => ?_⟩
        refine wp_mono (deals_issueToken parsed.1 parsed.2 hsession ?_ ?_ hindex)
          (fun reply st' hdeal => hdealt id t n reply st' hdeal)
          fun e st' hdeal => hraised e id t n st' hdeal
        · simpa [ServerState.persisted] using huser
        · simpa [ServerState.persisted] using hidentity
      simp only [bootstrapSession]
      cases request.access with
      | denied =>
        rw [wp_bind]
        exact hrevoked id _ hsession
      | unavailable =>
        rw [wp_bind]
        exact hrevoked id _ hsession
      | granted =>
        have hissue := hissues (st.objects id).lastPersistedAt st.dbWrites
        rwa [persisted_self] at hissue
      | refreshed =>
        simp only [if_true]
        rw [wp_bind]
        refine wp_persist (fun t n => hissues t n) fun n => ?_
        refine hraised _ id (st.objects id).lastPersistedAt n _ ?_
        rw [persisted_self]
        exact .raised _

theorem takes_bootstrap (hst : st.Wellformed) (request : BootstrapCall) :
    Takes setup env (some request) takes (request.Possible st) st (bootstrap setup request) := by
  apply wp_bootstrap
  · intro id code hsession
    apply run_revoke hst
    · intro trace st' htrace hrun
      exact ⟨trace, st', .inr ⟨id, hsession, .inl htrace⟩, hrun, .refused st' code⟩
    · intro e trace st' htrace hrun
      exact ⟨trace, st', .inr ⟨id, hsession, htrace⟩, hrun, .raised st'⟩
  · intro id t n reply st' hdeal
    exact ⟨[], _, .inl rfl, (quiet_persisted id t n).run, hdeal⟩
  · intro e id t n st' hdeal
    exact ⟨[], _, .inl rfl, (quiet_persisted id t n).run, hdeal⟩

theorem takes_of_deals {possible : List Call.Action → Prop} {m : ServerM Reply} (hnil : possible [])
    (h : Deals setup env asked st m) :
    Takes setup env asked takes possible st m :=
  wp_mono h (fun _ _ hdeal => ⟨[], st, hnil, .refl st, hdeal⟩)
    fun _ _ hdeal => ⟨[], st, hnil, .refl st, hdeal⟩

theorem deals_finishBootstrap (token : Token) : Deals setup env asked st (finishBootstrap token) := by
  simp only [Deals, finishBootstrap, release, wp_do]
  exact .returned st token

theorem get?_expireGrants {tokens : TokenAuthority} {now : Nanos} {token : Token} {grant : AttachGrant}
    (h : (tokens.expireGrants now).grants.get? token = some grant) :
    tokens.grants.get? token = some grant := by
  rw [TokenAuthority.expireGrants, Dict.get?_filter] at h
  exact (Option.filter_eq_some_iff.1 h).1

theorem deals_attach (transport : TransportId) (metadata : Json) :
    Deals setup env asked st (attach transport metadata) := by
  simp only [Deals, attach, consume, release, getSession, setSession, wp_do, wp_require, wp_ensure]
  refine ⟨fun request _ => ⟨fun grant hgrant => ⟨fun hfits => ⟨fun hhonours => ⟨fun _ => ?_, fun _ => ?_⟩,
    fun _ => ?_⟩, fun _ => ?_⟩, fun _ => ?_⟩, fun _ => .raised st⟩
  · exact .attached transport (get?_expireGrants hgrant) hfits hhonours
  all_goals exact .spent st _

theorem deals_claimGrant (token : Token) :
    Deals setup env asked st (do claimGrant token; return Reply.done) := by
  simp only [Deals, claimGrant, wp_do, wp_ensure, wp_require]
  refine ⟨fun _ => ⟨fun grant hfile => ?_, fun _ => .raised st⟩, fun _ => .raised st⟩
  exact .claimed hfile

theorem deals_judgeGrant (claim : Token × MediaGrant) (readable : Bool) :
    Deals setup env asked st (judgeGrant setup claim readable) := by
  simp only [Deals, judgeGrant, wp_do, wp_ensure]
  exact ⟨fun _ => .consumed st claim, fun _ => .judged st claim⟩

theorem deals_purgeGrant (token : Token) (readable : Bool) :
    Deals setup env asked st (do purgeGrant token readable; return Reply.done) := by
  simp only [Deals, purgeGrant, wp_do]
  cases st.grantFiles token with
  | none => exact .done st
  | some grant =>
    simp only [wp_ite, wp_do]
    exact ⟨fun _ => .purged st token, fun _ => .done st⟩

end Rules

end CallBackend.Server
