import CallBackend.Lib.Window
import CallBackend.Server.Index
import CallBackend.Server.Walk

/-!
# How many sessions a link can open

Three limits stand before a new session: the number of provisional sessions, the number of logical
ids of a link, and the number of sessions a link creates in a minute. The last two are checked only
for a logical id the link does not list, so the rate is kept because a link that is open lists a
logical id only while the id leads to a session on that link: a message that finds no session finds
no entry in the list either, and its session is counted.

Everything but the arrival of a message only gives back: sessions leave, links close and forget
logical ids, and the times of admission stay as long as the link is open.
-/

namespace CallBackend.Server

open Exec Function

/-! ### Histories -/

/-- The server, the time of its last step, and the times at which each link created sessions. -/
structure Admissions where
  server : ServerState
  clock : Nanos
  created : ConnId → List Nanos

/-- The link on which a step has created a session. -/
def Event.creates (event : Event) (st' : ServerState) : Option ConnId :=
  match event.action with
  | .receive c _ _ _ fresh => if fresh ∈ st'.known then some c else none
  | _ => none

def Admissions.next (setup : Setup) (a : Admissions) (event : Event) : Admissions where
  server := a.server.next setup event
  clock := event.env.now
  created :=
    match event.creates (a.server.next setup event) with
    | some c => update a.created c (a.created c ++ [event.env.now])
    | none => a.created

def admissions (setup : Setup) : System Admissions Event where
  init a := a.server.Started ∧ a.created = fun _ => []
  step a event a' :=
    event.action.Enabled a.server ∧ a.clock ≤ event.env.now ∧ a' = a.next setup event

/-! ### What a link lists -/

structure ServerState.Tidy (st : ServerState) : Prop where
  wellformed : st.Wellformed
  stopped : ∀ c rest, (st.connections c).cleanup = .running rest → (st.connections c).closed = true
  distinct : ∀ c, (st.connections c).logicalIds.Nodup
  listed : ∀ c logicalId, (st.connections c).closed = false → logicalId ∈ (st.connections c).logicalIds →
    ∃ id, st.logicalSessions logicalId = some id ∧ (st.objects id).connection = some c

structure Recedes (st st' : ServerState) : Prop where
  tidy : st.Tidy → st'.Tidy
  known : st'.known = st.known
  absent : ∀ logicalId, st.logicalSessions logicalId = none → st'.logicalSessions logicalId = none
  closed : ∀ c, (st.connections c).closed = true → (st'.connections c).closed = true
  ids : ∀ c, (st'.connections c).logicalIds.length ≤ (st.connections c).logicalIds.length
  times : st.Tidy → ∀ c, (st'.connections c).closed = false →
    (st'.connections c).newTimes = (st.connections c).newTimes
  provisional : st'.provisionalCount ≤ st.provisionalCount

section Recedes

variable {st st' st'' : ServerState} {c : ConnId} {id : SessionId}

theorem Recedes.refl (st : ServerState) : Recedes st st :=
  ⟨fun h => h, rfl, fun _ h => h, fun _ h => h, fun _ => Nat.le_refl _, fun _ _ _ => rfl, Nat.le_refl _⟩

theorem Recedes.open_of_open (h : Recedes st st') (hopen : (st'.connections c).closed = false) :
    (st.connections c).closed = false := by
  cases hclosed : (st.connections c).closed with
  | false => rfl
  | true => exact absurd ((h.closed c hclosed).symm.trans hopen) Bool.noConfusion

theorem Recedes.trans (h : Recedes st st') (h' : Recedes st' st'') : Recedes st st'' where
  tidy htidy := h'.tidy (h.tidy htidy)
  known := h'.known.trans h.known
  absent logicalId habsent := h'.absent logicalId (h.absent logicalId habsent)
  closed c hclosed := h'.closed c (h.closed c hclosed)
  ids c := (h'.ids c).trans (h.ids c)
  times htidy c hopen :=
    (h'.times (h.tidy htidy) c hopen).trans (h.times htidy c (h'.open_of_open hopen))
  provisional := h'.provisional.trans h.provisional

theorem provisionalCount_le (hregistry : st'.registry.Sublist st.registry)
    (hprovisional : ∀ id ∈ st'.registry, (st'.objects id).provisional = true →
      (st.objects id).provisional = true) : st'.provisionalCount ≤ st.provisionalCount := by
  rw [ServerState.provisionalCount, ServerState.provisionalCount, ← List.countP_eq_length_filter,
    ← List.countP_eq_length_filter]
  calc st'.registry.countP (fun id => (st'.objects id).provisional)
      ≤ st'.registry.countP (fun id => (st.objects id).provisional) :=
        List.countP_mono_left hprovisional
    _ ≤ st.registry.countP (fun id => (st.objects id).provisional) := hregistry.countP_le

theorem ServerState.Tidy.objects (h : st.Tidy) {session : Session}
    (hwell : ServerState.Wellformed { st with objects := update st.objects id session })
    (hlink : ∀ c, (st.objects id).connection = some c → session.connection = some c) :
    ServerState.Tidy { st with objects := update st.objects id session } := by
  refine ⟨hwell, h.stopped, h.distinct, fun c logicalId hopen hmem => ?_⟩
  obtain ⟨other, hindex, hother⟩ := h.listed c logicalId hopen hmem
  refine ⟨other, hindex, ?_⟩
  by_cases heq : other = id
  · rw [heq] at hother
    simp only [heq, update_self]
    exact hlink c hother
  · simpa only [update_of_ne heq] using hother

theorem ServerState.Tidy.connections (h : st.Tidy) {connections : ConnId → Connection}
    (hclosed : ∀ c, (st.connections c).closed = true → (connections c).closed = true)
    (hids : ∀ c, (connections c).logicalIds.Sublist (st.connections c).logicalIds)
    (hstopped : ∀ c rest, (connections c).cleanup = .running rest → (connections c).closed = true) :
    ServerState.Tidy { st with connections } := by
  refine ⟨⟨h.wellformed.unused, h.wellformed.indexed, h.wellformed.nodup⟩, hstopped,
    fun c => (h.distinct c).sublist (hids c), fun c logicalId hopen hmem => ?_⟩
  have hbefore : (st.connections c).closed = false := by
    cases hold : (st.connections c).closed with
    | false => rfl
    | true => exact absurd ((hclosed c hold).symm.trans hopen) Bool.noConfusion
  exact h.listed c logicalId hbefore ((hids c).subset hmem)

theorem recedes_objects {session : Session}
    (hwell : st.Wellformed →
      ServerState.Wellformed { st with objects := update st.objects id session })
    (hlink : session.connection = (st.objects id).connection)
    (hprovisional : session.provisional = true → (st.objects id).provisional = true) :
    Recedes st { st with objects := update st.objects id session } where
  tidy h := h.objects (hwell h.wellformed) fun c hc => hlink.trans hc
  known := rfl
  absent _ h := h
  closed _ h := h
  ids _ := Nat.le_refl _
  times _ _ _ := rfl
  provisional := by
    refine provisionalCount_le (List.Sublist.refl _) fun other _ hother => ?_
    by_cases heq : other = id
    · simp only [heq, update_self] at hother
      rw [heq]
      exact hprovisional hother
    · simpa only [update_of_ne heq] using hother

theorem recedes_connection {connection : Connection}
    (hclosed : (st.connections c).closed = true → connection.closed = true)
    (hids : connection.logicalIds.Sublist (st.connections c).logicalIds)
    (hcleanup : (∀ d rest, (st.connections d).cleanup = .running rest → (st.connections d).closed = true) →
      ∀ rest, connection.cleanup = .running rest → connection.closed = true)
    (htimes : st.Tidy → connection.closed = false → connection.newTimes = (st.connections c).newTimes) :
    Recedes st { st with connections := update st.connections c connection } where
  tidy h := by
    apply h.connections
    · intro d hd
      by_cases heq : d = c
      · rw [heq, update_self]
        exact hclosed (heq ▸ hd)
      · rwa [update_of_ne heq]
    · intro d
      by_cases heq : d = c
      · rw [heq, update_self]
        exact hids
      · rw [update_of_ne heq]
    · intro d rest hd
      by_cases heq : d = c
      · rw [heq, update_self] at hd ⊢
        exact hcleanup h.stopped rest hd
      · rw [update_of_ne heq] at hd ⊢
        exact h.stopped d rest hd
  known := rfl
  absent _ h := h
  closed d hd := by
    by_cases heq : d = c
    · simp only [heq, update_self]
      exact hclosed (heq ▸ hd)
    · simpa only [update_of_ne heq] using hd
  ids d := by
    by_cases heq : d = c
    · simp only [heq, update_self]
      exact hids.length_le
    · simp only [update_of_ne heq]
      exact Nat.le_refl _
  times h d hd := by
    by_cases heq : d = c
    · simp only [heq, update_self] at hd ⊢
      exact htimes h hd
    · simp only [update_of_ne heq]
  provisional := Nat.le_refl _

theorem ServerState.Tidy.unbound (h : st.Tidy) (id : SessionId) : (st.unbound id).Tidy := by
  have hconnections : ∀ c, (st.unbound id).connections c = (st.withoutIndexes id).connections c :=
    fun _ => rfl
  refine ⟨h.wellformed.unbound id, fun c rest hrest => ?_, fun c => ?_, fun c logicalId hopen hmem => ?_⟩
  · rw [hconnections, withoutIndexes_connections] at hrest ⊢
    split_ifs at hrest ⊢
    · exact h.stopped c rest hrest
    · exact h.stopped c rest hrest
  · rw [hconnections, withoutIndexes_connections]
    split_ifs
    · cases (st.objects id).qappConnectionId with
      | none => exact h.distinct c
      | some name => exact (h.distinct c).erase name
    · exact h.distinct c
  · rw [hconnections, withoutIndexes_connections] at hopen hmem
    have hlist : logicalId ∈ (st.connections c).logicalIds := by
      split_ifs at hmem with hlink
      · cases hname : (st.objects id).qappConnectionId with
        | none => simpa only [hname] using hmem
        | some name =>
          simp only [hname] at hmem
          exact List.mem_of_mem_erase hmem
      · exact hmem
    have hbefore : (st.connections c).closed = false := by
      split_ifs at hopen
      · exact hopen
      · exact hopen
    obtain ⟨other, hindex, hother⟩ := h.listed c logicalId hbefore hlist
    have hne : other ≠ id := by
      intro heq
      rw [heq] at hindex hother
      have hname := (h.wellformed.indexed logicalId id hindex).1
      simp only [if_pos hother, hname] at hmem
      exact (h.distinct c).not_mem_erase hmem
    refine ⟨other, ?_, ?_⟩
    · change (st.withoutIndexes id).logicalSessions logicalId = some other
      rw [withoutIndexes_logicalSessions, if_neg]
      · exact hindex
      · rintro ⟨-, hown⟩
        exact hne (Option.some.inj (hindex.symm.trans hown))
    · change (update st.objects id _ other).connection = some c
      rw [update_of_ne hne]
      exact hother

theorem recedes_unbound (st : ServerState) (id : SessionId) : Recedes st (st.unbound id) := by
  have hconnections : ∀ c, (st.unbound id).connections c = (st.withoutIndexes id).connections c :=
    fun _ => rfl
  refine ⟨fun h => h.unbound id, ?_, fun _ => logicalSessions_unbound, fun c hclosed => ?_, fun c => ?_,
    fun _ c _ => ?_, ?_⟩
  · rw [unbound_rest]
  · rw [hconnections, withoutIndexes_connections]
    split_ifs
    · exact hclosed
    · exact hclosed
  · rw [hconnections, withoutIndexes_connections]
    split_ifs
    · cases (st.objects id).qappConnectionId with
      | none => exact Nat.le_refl _
      | some name => exact List.length_erase_le
    · exact Nat.le_refl _
  · rw [hconnections, withoutIndexes_connections]
    split_ifs
    · rfl
    · rfl
  · have hregistry : (st.unbound id).registry = st.registry := by rw [unbound_rest]
    refine provisionalCount_le (hregistry ▸ List.Sublist.refl _) fun other _ hother => ?_
    change (update st.objects id _ other).provisional = true at hother
    by_cases heq : other = id
    · rw [heq, update_self] at hother
      rw [heq]
      exact hother
    · rwa [update_of_ne heq] at hother

theorem recedes_encloses : Encloses Recedes where
  refl := .refl
  trans _ _ _ h h' := h.trans h'
  session hcore _ := recedes_objects (fun h => (quiet_set hcore).wellformed h)
    (congrArg SessionCore.connection hcore) fun h => (congrArg SessionCore.provisional hcore).symm.trans h
  rest {st st'} hobjects hknown hregistry hindex hconnections _ := by
    constructor
    · intro h
      have hwell : st'.Wellformed := h.wellformed.congr (fun _ => by rw [hobjects]) hknown hregistry hindex
      refine ⟨hwell, ?_, ?_, ?_⟩
      · rw [hconnections]
        exact h.stopped
      · rw [hconnections]
        exact h.distinct
      · rw [hconnections, hindex, hobjects]
        exact h.listed
    · exact hknown
    · rw [hindex]
      exact fun _ h => h
    · rw [hconnections]
      exact fun _ h => h
    · rw [hconnections]
      exact fun _ => Nat.le_refl _
    · rw [hconnections]
      exact fun _ _ _ => rfl
    · rw [ServerState.provisionalCount, ServerState.provisionalCount, hregistry, hobjects]
  unbound := recedes_unbound
  unregistered st id := ⟨fun h => ⟨h.wellformed.unregistered id, h.stopped, h.distinct, h.listed⟩, rfl,
    fun _ h => h, fun _ h => h, fun _ => Nat.le_refl _, fun _ _ _ => rfl,
    provisionalCount_le List.erase_sublist fun _ _ h => h⟩
  unnamed hconnection := recedes_objects (fun h => h.unnamed hconnection) rfl fun h => h
  promoted {st id} user now ttl hregistered := by
    have hproved : Recedes st { st with
        objects := update st.objects id ((st.objects id).promoted user now ttl) } :=
      recedes_objects (fun h => ⟨(h.promoted user now ttl hregistered).unused,
        (h.promoted user now ttl hregistered).indexed, h.nodup⟩) rfl
        fun h => absurd h Bool.false_ne_true
    exact ⟨fun h => ⟨h.wellformed.promoted user now ttl hregistered, (hproved.tidy h).stopped,
      (hproved.tidy h).distinct, (hproved.tidy h).listed⟩, rfl, hproved.absent, hproved.closed,
      hproved.ids, hproved.times, hproved.provisional⟩
  shut st c := recedes_connection (fun _ => rfl) (List.Sublist.refl _) (fun _ _ _ => rfl)
    fun _ h => absurd h Bool.noConfusion
  cleaning {st c cleanup} h := by
    refine recedes_connection (fun h => h) (List.Sublist.refl _) (fun hstopped rest hrest => ?_)
      fun _ _ => rfl
    have hrunning : cleanup = .running rest := hrest
    exact h hstopped (by rw [hrunning]; exact nofun)
  emptied {st c} hcleanup := by
    refine recedes_connection (fun h => h) (List.nil_sublist _) (fun _ rest hrest => nomatch hrest)
      fun htidy hopen => ?_
    exact absurd ((htidy.stopped c [] hcleanup).symm.trans hopen) Bool.noConfusion
  left st c logicalId := recedes_connection (fun h => h) List.erase_sublist
    (fun hstopped rest hrest => hstopped c rest hrest) fun _ _ => rfl

theorem recedes_inflight (st : ServerState) (inflight : List Invocation) :
    Recedes st { st with inflight } :=
  ⟨fun h => ⟨⟨h.wellformed.unused, h.wellformed.indexed, h.wellformed.nodup⟩, h.stopped, h.distinct,
    h.listed⟩, rfl, fun _ h => h, fun _ h => h, fun _ => Nat.le_refl _, fun _ _ _ => rfl, Nat.le_refl _⟩

end Recedes

/-! ### The arrival of a message -/

/-- A link may have taken on a logical id, and with it a new session that the limits allow. -/
structure Admits (setup : Setup) (c : ConnId) (fresh : SessionId) (now : Nanos)
    (st st' : ServerState) : Prop where
  tidy : st'.Tidy
  closed : ∀ d, (st.connections d).closed = true → (st'.connections d).closed = true
  ids : ∀ d, (st'.connections d).logicalIds.length ≤
    max (st.connections d).logicalIds.length setup.config.maxLogicalSessionsPerLink
  provisional : st'.provisionalCount ≤
    max st.provisionalCount setup.config.maxUnauthenticatedSessions
  others : ∀ d, d ≠ c → (st'.connections d).closed = false →
    (st'.connections d).newTimes = (st.connections d).newTimes
  times : (st'.connections c).closed = false →
    (st'.known = st.known ∧ ((st'.connections c).newTimes = (st.connections c).newTimes ∨
      (st'.connections c).newTimes = recentTimes now (st.connections c).newTimes)) ∨
    (fresh ∈ st'.known ∧ (recentTimes now (st.connections c).newTimes).length <
        setup.config.maxNewSessionsPerLinkPerMinute ∧
      (st'.connections c).newTimes = recentTimes now (st.connections c).newTimes ++ [now])

section Arrival

variable {setup : Setup} {env : ServerEnv} {st st' st'' : ServerState} {c : ConnId} {fresh : SessionId}
  {logicalId : LogicalId} {now : Nanos}

theorem Recedes.admits (h : Recedes st st') (htidy : st.Tidy) : Admits setup c fresh now st st' where
  tidy := h.tidy htidy
  closed := h.closed
  ids d := (h.ids d).trans (Nat.le_max_left ..)
  provisional := h.provisional.trans (Nat.le_max_left ..)
  others d _ hopen := h.times htidy d hopen
  times hopen := .inl ⟨h.known, .inl (h.times htidy c hopen)⟩

theorem Admits.after (h' : Admits setup c fresh now st' st'') (h : Recedes st st') (htidy : st.Tidy) :
    Admits setup c fresh now st st'' where
  tidy := h'.tidy
  closed d hd := h'.closed d (h.closed d hd)
  ids d := (h'.ids d).trans (max_le_max_right _ (h.ids d))
  provisional := h'.provisional.trans (max_le_max_right _ h.provisional)
  others d hne hopen := by
    have hmiddle : (st'.connections d).closed = false := by
      cases hclosed : (st'.connections d).closed with
      | false => rfl
      | true => exact absurd ((h'.closed d hclosed).symm.trans hopen) Bool.noConfusion
    exact (h'.others d hne hopen).trans (h.times htidy d hmiddle)
  times hopen := by
    have hmiddle : (st'.connections c).closed = false := by
      cases hclosed : (st'.connections c).closed with
      | false => rfl
      | true => exact absurd ((h'.closed c hclosed).symm.trans hopen) Bool.noConfusion
    rw [← h.known, ← h.times htidy c hmiddle]
    exact h'.times hopen

theorem Admits.then (h : Admits setup c fresh now st st') (h' : Recedes st' st'') :
    Admits setup c fresh now st st'' where
  tidy := h'.tidy h.tidy
  closed d hd := h'.closed d (h.closed d hd)
  ids d := (h'.ids d).trans (h.ids d)
  provisional := h'.provisional.trans h.provisional
  others d hne hopen := (h'.times h.tidy d hopen).trans (h.others d hne (h'.open_of_open hopen))
  times hopen := by
    rw [h'.times h.tidy c hopen, h'.known]
    exact h.times (h'.open_of_open hopen)

variable {connection : Connection}

theorem recedes_spoilt (hclosed : connection.closed = true)
    (hids : connection.logicalIds.Sublist (st.connections c).logicalIds) :
    Recedes st { st with connections := update st.connections c connection } :=
  recedes_connection (fun _ => hclosed) hids (fun _ _ _ => hclosed)
    fun _ hopen => absurd (hclosed.symm.trans hopen) Bool.noConfusion

theorem wp_admitLogicalId_exact {creating : Bool} {post : Unit → ServerState → Prop}
    {fail : Exn → ServerState → Prop}
    (hlisted : logicalId ∈ (st.connections c).logicalIds → post () st)
    (hadmitted : logicalId ∉ (st.connections c).logicalIds →
      (st.connections c).logicalIds.length < setup.config.maxLogicalSessionsPerLink →
      (creating = true → (recentTimes now (st.connections c).newTimes).length <
        setup.config.maxNewSessionsPerLinkPerMinute) →
      post () { st with connections := update st.connections c { st.connections c with
        logicalIds := (st.connections c).logicalIds.insert logicalId
        newTimes :=
          if creating then recentTimes now (st.connections c).newTimes ++ [now]
          else recentTimes now (st.connections c).newTimes } })
    (hfail : ∀ e times, fail e { st with
      connections := update st.connections c { st.connections c with newTimes := times } }) :
    wp (admitLogicalId setup c logicalId creating now) env st post fail := by
  simp only [admitLogicalId, setConnection, wp_do, wp_ite, wp_ensure, update_idem]
  refine ⟨hlisted, fun hnew => ⟨fun hroom => ⟨fun hrate => ?_, fun _ => hfail _ _⟩, fun _ => ?_⟩⟩
  · exact hadmitted hnew hroom fun hcreating => Nat.lt_of_not_le fun hle => hrate ⟨hcreating, hle⟩
  · have hsame := hfail (.protocolError "logical session limit reached") (st.connections c).newTimes
    rwa [update_eq_self] at hsame

variable {id : SessionId}

/-- A link takes on a logical id whose session is on it, and no open link loses one. -/
theorem ServerState.Tidy.listing (h : st.Tidy) (hwell : st'.Wellformed)
    (hconnections : st'.connections = update st.connections c connection)
    (hclosed : connection.closed = (st.connections c).closed)
    (hcleanup : connection.cleanup = (st.connections c).cleanup)
    (hids : connection.logicalIds = (st.connections c).logicalIds.insert logicalId)
    (hnew : ∃ id, st'.logicalSessions logicalId = some id ∧ (st'.objects id).connection = some c)
    (hkept : ∀ d other holder, (st.connections d).closed = false → st.logicalSessions other = some holder →
      (st.objects holder).connection = some d →
      st'.logicalSessions other = some holder ∧ (st'.objects holder).connection = some d) : st'.Tidy := by
  refine ⟨hwell, fun d rest hrest => ?_, fun d => ?_, fun d other hopen hmem => ?_⟩
  all_goals rw [hconnections] at *
  · by_cases heq : d = c
    · simp only [heq, update_self, hclosed, hcleanup] at hrest ⊢
      exact h.stopped c rest hrest
    · simp only [update_of_ne heq] at hrest ⊢
      exact h.stopped d rest hrest
  · by_cases heq : d = c
    · simp only [heq, update_self, hids]
      exact (h.distinct c).insert
    · simp only [update_of_ne heq]
      exact h.distinct d
  · have hlisted : (st.connections d).closed = false → other ∈ (st.connections d).logicalIds →
        ∃ id, st'.logicalSessions other = some id ∧ (st'.objects id).connection = some d := by
      intro hopen hmem
      obtain ⟨holder, hentry, hlink⟩ := h.listed d other hopen hmem
      exact ⟨holder, hkept d other holder hopen hentry hlink⟩
    by_cases heq : d = c
    · subst heq
      simp only [update_self, hclosed, hids] at hopen hmem
      rcases List.mem_insert_iff.mp hmem with rfl | hmem
      · exact hnew
      · exact hlisted hopen hmem
    · simp only [update_of_ne heq] at hopen hmem
      exact hlisted hopen hmem

theorem ServerState.Tidy.bound (h : st.Tidy) (hindex : st.logicalSessions logicalId = some id)
    (hheld : st.heldElsewhere c id = false) (hclosed : connection.closed = (st.connections c).closed)
    (hcleanup : connection.cleanup = (st.connections c).cleanup)
    (hids : connection.logicalIds = (st.connections c).logicalIds.insert logicalId) :
    ServerState.Tidy { st with
      objects := update st.objects id { st.objects id with connection := some c }
      connections := update st.connections c connection } := by
  have hwell := h.wellformed.set { st.objects id with connection := some c }
    (h.wellformed.known_of_indexed hindex) rfl fun _ => Option.some_ne_none c
  refine h.listing ⟨hwell.unused, hwell.indexed, hwell.nodup⟩ rfl hclosed hcleanup hids
    ⟨id, hindex, by simp only [update_self]⟩ fun d other holder hopen hentry hlink => ⟨hentry, ?_⟩
  -- A session that is listed by an open link is on it, unless it is the one that is taken over.
  by_cases hsame : holder = id
  · have hdc : d = c := by
      by_contra hne
      rw [hsame] at hlink
      simp [ServerState.heldElsewhere, hlink, hne, hopen] at hheld
    simp only [hsame, update_self, hdc]
  · simp only [update_of_ne hsame]
    exact hlink

variable {session : Session}

theorem ServerState.Tidy.entered (h : st.Tidy) (hfresh : fresh ∉ st.known)
    (hvacant : st.logicalSessions logicalId = none)
    (hsession : session.core = { connection := some c, qappConnectionId := some logicalId })
    (hclosed : connection.closed = (st.connections c).closed)
    (hcleanup : connection.cleanup = (st.connections c).cleanup)
    (hids : connection.logicalIds = (st.connections c).logicalIds.insert logicalId) :
    ServerState.Tidy { st with
      objects := update st.objects fresh session
      known := st.known ++ [fresh]
      registry := st.registry ++ [fresh]
      logicalSessions := update st.logicalSessions logicalId (some fresh)
      connections := update st.connections c connection } := by
  have hwell := h.wellformed.created hfresh hsession
  refine h.listing ⟨hwell.unused, hwell.indexed, hwell.nodup⟩ rfl hclosed hcleanup hids ⟨fresh, ?_, ?_⟩
    fun d other holder _ hentry hlink => ?_
  · simp only [update_self]
  · simp only [update_self]
    exact congrArg SessionCore.connection hsession
  · have hother : other ≠ logicalId := by
      rintro rfl
      cases hvacant.symm.trans hentry
    have hholder : holder ≠ fresh := fun hsame =>
      hfresh (hsame ▸ h.wellformed.known_of_indexed hentry)
    simp only [update_of_ne hother, update_of_ne hholder]
    exact ⟨hentry, hlink⟩

theorem connections_update (hclosed : connection.closed = (st.connections c).closed) (d : ConnId) :
    (update st.connections c connection d).closed = (st.connections d).closed := by
  by_cases heq : d = c
  · rw [heq, update_self, hclosed]
  · rw [update_of_ne heq]

/-- What `_admit_logical_id` leaves of a link. -/
structure Admitted (setup : Setup) (logicalId : LogicalId) (connection connection' : Connection) :
    Prop where
  closed : connection'.closed = connection.closed
  cleanup : connection'.cleanup = connection.cleanup
  ids : connection'.logicalIds = connection.logicalIds.insert logicalId
  room : connection'.logicalIds.length ≤
    max connection.logicalIds.length setup.config.maxLogicalSessionsPerLink

theorem admitted_listed (hmem : logicalId ∈ connection.logicalIds) :
    Admitted setup logicalId connection connection :=
  ⟨rfl, rfl, (List.insert_of_mem hmem).symm, Nat.le_max_left ..⟩

theorem admitted_new (hnew : logicalId ∉ connection.logicalIds)
    (hroom : connection.logicalIds.length < setup.config.maxLogicalSessionsPerLink) (times : List Nanos) :
    Admitted setup logicalId connection { connection with
      logicalIds := connection.logicalIds.insert logicalId
      newTimes := times } := by
  refine ⟨rfl, rfl, rfl, ?_⟩
  simp only [List.length_insert_of_not_mem hnew]
  omega

theorem Admitted.length_le (h : Admitted setup logicalId (st.connections c) connection) (d : ConnId) :
    (update st.connections c connection d).logicalIds.length ≤
      max (st.connections d).logicalIds.length setup.config.maxLogicalSessionsPerLink := by
  by_cases heq : d = c
  · rw [heq, update_self]
    exact h.room
  · rw [update_of_ne heq]
    exact Nat.le_max_left ..

theorem admits_bound (htidy : st.Tidy) (hindex : st.logicalSessions logicalId = some id)
    (hheld : st.heldElsewhere c id = false) (h : Admitted setup logicalId (st.connections c) connection)
    (htimes : connection.newTimes = (st.connections c).newTimes ∨
      connection.newTimes = recentTimes now (st.connections c).newTimes) :
    Admits setup c fresh now st { st with
      objects := update st.objects id { st.objects id with connection := some c }
      connections := update st.connections c connection } where
  tidy := htidy.bound hindex hheld h.closed h.cleanup h.ids
  closed d hd := (connections_update h.closed d).trans hd
  ids := h.length_le
  provisional := by
    refine Nat.le_trans ?_ (Nat.le_max_left ..)
    refine provisionalCount_le (List.Sublist.refl _) fun other _ hother => ?_
    by_cases heq : other = id
    · rw [heq] at hother ⊢
      simpa only [update_self] using hother
    · simpa only [update_of_ne heq] using hother
  others d hne _ := congrArg Connection.newTimes (update_of_ne hne ..)
  times _ := by
    refine .inl ⟨rfl, ?_⟩
    simpa only [update_self] using htimes

theorem provisionalCount_entered (hfresh : fresh ∉ st.registry) {connections : ConnId → Connection}
    {index : LogicalId → Option SessionId} {known : List SessionId} :
    ServerState.provisionalCount { st with
      objects := update st.objects fresh session
      known := known
      registry := st.registry ++ [fresh]
      logicalSessions := index
      connections := connections } ≤ st.provisionalCount + 1 := by
  have hold : st.registry.filter (fun id => (update st.objects fresh session id).provisional) =
      st.registry.filter fun id => (st.objects id).provisional := by
    refine List.filter_congr fun id hid => ?_
    have hne : id ≠ fresh := fun heq => hfresh (heq ▸ hid)
    rw [update_of_ne hne]
  have hone : ([fresh].filter fun id =>
      (update st.objects fresh session id).provisional).length ≤ 1 :=
    List.length_filter_le _ [fresh]
  simp only [ServerState.provisionalCount, List.filter_append, List.length_append, hold]
  omega

theorem admits_entered (htidy : st.Tidy) (hfresh : fresh ∉ st.known)
    (hvacant : st.logicalSessions logicalId = none)
    (hroom : st.provisionalCount < setup.config.maxUnauthenticatedSessions)
    (hsession : session.core = { connection := some c, qappConnectionId := some logicalId })
    (h : Admitted setup logicalId (st.connections c) connection)
    (htimes : connection.closed = false → (recentTimes now (st.connections c).newTimes).length <
        setup.config.maxNewSessionsPerLinkPerMinute ∧
      connection.newTimes = recentTimes now (st.connections c).newTimes ++ [now]) :
    Admits setup c fresh now st { st with
      objects := update st.objects fresh session
      known := st.known ++ [fresh]
      registry := st.registry ++ [fresh]
      logicalSessions := update st.logicalSessions logicalId (some fresh)
      connections := update st.connections c connection } where
  tidy := htidy.entered hfresh hvacant hsession h.closed h.cleanup h.ids
  closed d hd := (connections_update h.closed d).trans hd
  ids := h.length_le
  provisional := by
    refine Nat.le_trans (provisionalCount_entered (htidy.wellformed.unused fresh hfresh).2) ?_
    exact Nat.le_trans hroom (Nat.le_max_right ..)
  others d hne _ := congrArg Connection.newTimes (update_of_ne hne ..)
  times hopen := by
    simp only [update_self] at hopen ⊢
    exact .inr ⟨List.mem_append_right _ (List.mem_singleton_self fresh), htimes hopen⟩

def Shut (c : ConnId) (st st' : ServerState) : Prop :=
  Recedes st { st' with
    connections := update st'.connections c { st'.connections c with closed := true } }

theorem Recedes.shut (h : Recedes st st') : Shut c st st' := h.trans (recedes_encloses.shut st' c)

theorem Shut.after (h' : Shut c st' st'') (h : Recedes st st') : Shut c st st'' := h.trans h'

theorem shut_connection (hids : connection.logicalIds.Sublist (st.connections c).logicalIds) :
    Shut c st { st with connections := update st.connections c connection } := by
  have hspoilt : Recedes st { st with
      connections := update st.connections c { connection with closed := true } } :=
    recedes_spoilt rfl hids
  simpa only [Shut, update_self, update_idem] using hspoilt

theorem wp_create_admits {fail : Exn → ServerState → Prop} (htidy : st.Tidy) (hfresh : fresh ∉ st.known)
    (hvacant : st.logicalSessions logicalId = none)
    (hroom : st.provisionalCount < setup.config.maxUnauthenticatedSessions)
    (h : Admitted setup logicalId (st.connections c) connection)
    (htimes : connection.closed = false → (recentTimes env.now (st.connections c).newTimes).length <
        setup.config.maxNewSessionsPerLinkPerMinute ∧
      connection.newTimes = recentTimes env.now (st.connections c).newTimes ++ [env.now]) :
    wp (create setup fresh c logicalId) env
      { st with connections := update st.connections c connection }
      (fun _ => Admits setup c fresh env.now st) fail := by
  simp only [create, setSession, wp_do]
  exact admits_entered htidy hfresh hvacant hroom rfl h htimes

theorem wp_acceptNew_admits (htidy : st.Tidy) (hfresh : fresh ∉ st.known)
    (hvacant : st.logicalSessions logicalId = none) :
    wp (acceptNew setup c logicalId fresh) env st (fun _ => Admits setup c fresh env.now st)
      fun _ => Shut c st := by
  simp only [acceptNew, wp_do]
  refine wp_mono (recedes_encloses.expireSessions env.now).wp (fun _ st₁ h => ?_) fun _ _ h => h.shut
  have htidy₁ := h.tidy htidy
  have hfresh₁ : fresh ∉ st₁.known := h.known ▸ hfresh
  have hvacant₁ := h.absent logicalId hvacant
  simp only [wp_ensure]
  refine ⟨fun hroom => ?_, fun _ => h.shut⟩
  have hentered : ∀ {connection : Connection}, Admitted setup logicalId (st₁.connections c) connection →
      (connection.closed = false → (recentTimes env.now (st₁.connections c).newTimes).length <
          setup.config.maxNewSessionsPerLinkPerMinute ∧
        connection.newTimes = recentTimes env.now (st₁.connections c).newTimes ++ [env.now]) →
      wp (create setup fresh c logicalId) env
        { st₁ with connections := update st₁.connections c connection }
        (fun _ => Admits setup c fresh env.now st) fun _ => Shut c st := by
    intro connection hadmitted htimes
    exact wp_mono (wp_create_admits htidy₁ hfresh₁ hvacant₁ hroom hadmitted htimes)
      (fun _ _ h' => h'.after h htidy) fun _ _ h' => h'
  refine wp_admitLogicalId_exact (fun hlisted => ?_) (fun hnew hids hrate => ?_) fun e times => ?_
  · -- The link lists the logical id although it leads nowhere, so the link is closed.
    have hclosed : (st₁.connections c).closed ≠ false := by
      intro hopen
      obtain ⟨id, hindex, -⟩ := htidy₁.listed c logicalId hopen hlisted
      cases hvacant₁.symm.trans hindex
    have hcreate := hentered (admitted_listed hlisted) fun hopen => absurd hopen hclosed
    rwa [update_eq_self] at hcreate
  · exact hentered (admitted_new hnew hids _) fun _ => ⟨hrate rfl, rfl⟩
  · refine Shut.after ?_ h
    exact shut_connection (List.Sublist.refl _)

theorem wp_acceptExisting_admits (htidy : st.Tidy) (hindex : st.logicalSessions logicalId = some id) :
    wp (acceptExisting setup c logicalId id) env st (fun _ => Admits setup c fresh env.now st)
      fun _ => Shut c st := by
  have hrest : ∀ connection : Connection, Admitted setup logicalId (st.connections c) connection →
      (connection.newTimes = (st.connections c).newTimes ∨
        connection.newTimes = recentTimes env.now (st.connections c).newTimes) →
      wp (do
        let st ← get
        if st.heldElsewhere c id then
          setConnection c { st.connections c with
            logicalIds := (st.connections c).logicalIds.erase logicalId }
          raise (.protocolError "logical connection is already active")
        setSession id { st.objects id with connection := some c }
        return id) env { st with connections := update st.connections c connection }
        (fun _ => Admits setup c fresh env.now st) fun _ => Shut c st := by
    intro connection h htimes
    simp only [wp_do, wp_ite, setConnection, setSession, update_self, update_idem]
    refine ⟨fun _ => shut_connection ?_, fun hfree => admits_bound htidy hindex ?_ h htimes⟩
    · simp only [h.ids]
      by_cases hmem : logicalId ∈ (st.connections c).logicalIds
      · rw [List.insert_of_mem hmem]
        exact List.erase_sublist
      · rw [List.insert_of_not_mem hmem, List.erase_cons_head]
    · simpa [ServerState.heldElsewhere, connections_update h.closed] using hfree
  rw [acceptExisting, wp_bind, wp_ask, wp_bind]
  refine wp_admitLogicalId_exact (fun hlisted => ?_) (fun hnew hroom _ => ?_) fun e times => ?_
  · have hsame := hrest _ (admitted_listed hlisted) (.inl rfl)
    rwa [update_eq_self] at hsame
  · exact hrest _ (admitted_new hnew hroom _) (.inr rfl)
  · exact shut_connection (List.Sublist.refl _)

theorem wp_acceptMessage_admits (htidy : st.Tidy) (hfresh : fresh ∉ st.known) :
    wp (acceptMessage setup c logicalId fresh) env st (fun _ => Admits setup c fresh env.now st)
      fun _ => Shut c st := by
  simp only [acceptMessage, wp_do]
  cases hindex : st.logicalSessions logicalId with
  | none => exact wp_acceptNew_admits htidy hfresh hindex
  | some id =>
    rw [wp_ite]
    refine ⟨fun _ => ?_, fun _ => wp_acceptExisting_admits htidy hindex⟩
    rw [wp_bind]
    have hvacant : wp (discardSession id) env st
        (fun _ st₁ => st₁.logicalSessions logicalId = none) fun _ _ => True :=
      wp_discardSession (fun _ _ _ =>
        (htidy.wellformed.withoutCredentials id).logicalSessions_unbound_self hindex)
        (fun _ => trivial) fun _ _ => trivial
    refine wp_mono (wp_and hvacant (recedes_encloses.discardSession id).wp) (fun _ st₁ h => ?_)
      fun _ _ h => h.2.shut
    exact wp_mono (wp_acceptNew_admits (h.2.tidy htidy) (h.2.known ▸ hfresh) h.1)
      (fun _ _ h' => h'.after h.2 htidy) fun _ _ h' => h'.after h.2

theorem wp_receive_admits (htidy : st.Tidy) (hfresh : fresh ∉ st.known) (messageId : Nat)
    (message : Json) :
    wp (receive setup c logicalId messageId message fresh) env st
      (fun _ => Admits setup c fresh env.now st) fun _ => Admits setup c fresh env.now st := by
  simp only [receive, wp_do, wp_ite, wp_rescue, markClosed]
  refine ⟨fun _ => (Recedes.refl st).admits htidy, fun _ => ?_⟩
  refine wp_mono (wp_acceptMessage_admits htidy hfresh) (fun _ st₁ h => ?_) fun _ _ h => ?_
  · exact h.then (recedes_inflight st₁ _)
  · exact Recedes.admits h htidy

end Arrival

/-! ### Runs -/

structure Admissions.Within (setup : Setup) (a : Admissions) : Prop where
  tidy : a.server.Tidy
  provisional : a.server.provisionalCount ≤ setup.config.maxUnauthenticatedSessions
  ids : ∀ c, (a.server.connections c).logicalIds.length ≤ setup.config.maxLogicalSessionsPerLink
  kept : ∀ c, (a.server.connections c).closed = false →
    Window.Kept (seconds 60) a.clock (a.created c) (a.server.connections c).newTimes
  bounded : ∀ c, (a.server.connections c).closed = false →
    Window.Bounded (seconds 60) setup.config.maxNewSessionsPerLinkPerMinute (a.created c)

section Runs

variable {setup : Setup} {a : Admissions} {st' : ServerState} {c : ConnId} {fresh : SessionId}
  {now : Nanos}

theorem Admissions.Within.recede (h : a.Within setup) (hclock : a.clock ≤ now)
    (hrecedes : Recedes a.server st') : Admissions.Within setup ⟨st', now, a.created⟩ where
  tidy := hrecedes.tidy h.tidy
  provisional := hrecedes.provisional.trans h.provisional
  ids c := (hrecedes.ids c).trans (h.ids c)
  kept c hopen := by
    simp only [hrecedes.times h.tidy c hopen]
    exact (h.kept c (hrecedes.open_of_open hopen)).mono hclock
  bounded c hopen := h.bounded c (hrecedes.open_of_open hopen)

theorem Admissions.Within.admit (h : a.Within setup) (hclock : a.clock ≤ now)
    (hfresh : fresh ∉ a.server.known) (hadmits : Admits setup c fresh now a.server st') :
    Admissions.Within setup ⟨st', now,
      if fresh ∈ st'.known then update a.created c (a.created c ++ [now]) else a.created⟩ := by
  have hopened : ∀ d, (st'.connections d).closed = false →
      (a.server.connections d).closed = false := by
    intro d hopen
    cases hclosed : (a.server.connections d).closed with
    | false => rfl
    | true => exact absurd ((hadmits.closed d hclosed).symm.trans hopen) Bool.noConfusion
  have hothers : ∀ d, d ≠ c → (if fresh ∈ st'.known then
      update a.created c (a.created c ++ [now]) else a.created) d = a.created d := by
    intro d hne
    split_ifs
    · exact update_of_ne hne ..
    · rfl
  -- On the link itself a time is added to the queue exactly if a session has been created.
  have hlink : (st'.connections c).closed = false →
      Window.Kept (seconds 60) now ((if fresh ∈ st'.known then
        update a.created c (a.created c ++ [now]) else a.created) c)
        (st'.connections c).newTimes ∧
      Window.Bounded (seconds 60) setup.config.maxNewSessionsPerLinkPerMinute ((if fresh ∈ st'.known then
        update a.created c (a.created c ++ [now]) else a.created) c) := by
    intro hopen
    have hkept := h.kept c (hopened c hopen)
    have hbounded := h.bounded c (hopened c hopen)
    rcases hadmits.times hopen with ⟨hknown, htimes⟩ | ⟨hcreated, hroom, htimes⟩
    · rw [if_neg (hknown ▸ hfresh)]
      refine ⟨?_, hbounded⟩
      rcases htimes with htimes | htimes
      · rw [htimes]
        exact hkept.mono hclock
      · rw [htimes]
        exact hkept.prune hclock
    · rw [if_pos hcreated, update_self, htimes]
      exact ⟨(hkept.prune hclock).push now, hbounded.push (hkept.prune hclock) hroom⟩
  refine ⟨hadmits.tidy, hadmits.provisional.trans (max_le h.provisional (Nat.le_refl _)),
    fun d => (hadmits.ids d).trans (max_le (h.ids d) (Nat.le_refl _)), fun d hopen => ?_,
    fun d hopen => ?_⟩
  · by_cases heq : d = c
    · subst heq
      exact (hlink hopen).1
    · simp only [hothers d heq, hadmits.others d heq hopen]
      exact (h.kept d (hopened d hopen)).mono hclock
  · by_cases heq : d = c
    · subst heq
      exact (hlink hopen).2
    · simp only [hothers d heq]
      exact h.bounded d (hopened d hopen)

theorem Admissions.Within.next {event : Event} (h : a.Within setup) (hclock : a.clock ≤ event.env.now)
    (henabled : event.action.Enabled a.server) : (a.next setup event).Within setup := by
  obtain ⟨action, env⟩ := event
  have hinternal : action.isInternal = true → Recedes a.server (a.server.next setup ⟨action, env⟩) :=
    fun hinternal => recedes_encloses.run hinternal env a.server
  cases action with
  | receive c logicalId messageId message fresh =>
    have hfresh : fresh ∉ a.server.known := by simpa [Action.newSession] using henabled.2
    have hadmits : Admits setup c fresh env.now a.server
        (a.server.next setup ⟨.receive c logicalId messageId message fresh, env⟩) := by
      refine wp_final (p := Admits setup c fresh env.now a.server)
        (m := do receive setup c logicalId messageId message fresh; return Reply.done) ?_
      rw [wp_bind]
      exact wp_receive_admits h.tidy hfresh messageId message
    have hwithin := h.admit hclock hfresh hadmits
    unfold Admissions.next Event.creates
    dsimp only
    split_ifs at hwithin ⊢
    · exact hwithin
    · exact hwithin
  | serve n verified =>
    have hserved : Moves Recedes (serveNext setup n verified) := by
      refine recedes_encloses.serveNext (fun st _ => recedes_inflight st _) (fun st id window => ?_) n
        verified
      have hcore : Session.core { st.objects id with dedup := window } = (st.objects id).core := rfl
      exact recedes_objects (fun hwell => (quiet_set hcore).wellformed hwell) rfl fun h => h
    exact h.recede hclock ((recedes_encloses.done hserved) env a.server)
  | _ => exact h.recede hclock (hinternal rfl)

theorem admissions_within (h : (admissions setup).Reachable System.anyStep a) : a.Within setup := by
  refine h.invariant (fun a hinit => ?_) fun a event a' hwithin _ hstep => ?_
  · obtain ⟨hstarted, hcreated⟩ := hinit
    have hconnections : a.server.connections = fun _ => {} := by rw [hstarted.rest]
    have hcount : a.server.provisionalCount = 0 := by
      rw [ServerState.provisionalCount, List.length_eq_zero_iff, List.filter_eq_nil_iff]
      intro id hid
      rw [(hstarted.loaded id (hstarted.registered ▸ hid)).1]
      exact Bool.false_ne_true
    refine ⟨⟨started_wellformed hstarted, ?_, ?_, ?_⟩, ?_, ?_, ?_, ?_⟩
    · rw [hconnections]
      exact fun _ _ hrest => nomatch hrest
    · rw [hconnections]
      exact fun _ => List.nodup_nil
    · rw [hconnections]
      exact fun _ _ _ hmem => nomatch hmem
    · rw [hcount]
      exact Nat.zero_le _
    · rw [hconnections]
      exact fun _ => Nat.zero_le _
    · rw [hconnections, hcreated]
      exact fun _ _ => .nil ..
    · rw [hcreated]
      exact fun _ _ => Window.Bounded.nil _ _
  · rw [hstep.2.2]
    exact hwithin.next hstep.2.1 hstep.1

/-- The limits of admission hold along every run: there are at most as many provisional sessions as
allowed, an open link owns at most as many logical ids as allowed, and in every minute it creates at
most as many sessions as allowed. -/
theorem admission_bounds (h : (admissions setup).Reachable System.anyStep a) :
    a.server.provisionalCount ≤ setup.config.maxUnauthenticatedSessions ∧
    ∀ c, (a.server.connections c).closed = false →
      (a.server.connections c).logicalIds.length ≤ setup.config.maxLogicalSessionsPerLink ∧
      ∀ time, Window.within (seconds 60) time (a.created c) ≤
        setup.config.maxNewSessionsPerLinkPerMinute := by
  have hwithin := admissions_within h
  exact ⟨hwithin.provisional, fun c hopen => ⟨hwithin.ids c, hwithin.bounded c hopen⟩⟩

end Runs

namespace Sample

/-- A session is opened on the first link. -/
def firstArrival : Event := ⟨.receive 0 "chat" 1 authenticate "alice", clock 1⟩

def opened : Admissions := Admissions.next setup ⟨start, 0, fun _ => []⟩ firstArrival

end Sample

open Sample in
theorem admission_bounds_opened :
    Window.within (seconds 60) (seconds 1) (opened.created 0) = 1 ∧
    opened.server.provisionalCount = 1 ∧
    opened.server.provisionalCount ≤ setup.config.maxUnauthenticatedSessions := by
  have hreach : (admissions setup).Reachable System.anyStep opened :=
    .step (.init ⟨started_start, rfl⟩) trivial ⟨by decide, by decide, rfl⟩
  exact ⟨by decide +kernel, by decide +kernel, (admission_bounds hreach).1⟩

end CallBackend.Server
