import CallBackend.Files.Ownership
import CallBackend.Lib.System

/-!
# Quotas

The limits that `create` checks hold in every state the store can reach. A limit is a sum over the rows
of a table, and every other change of the table makes the sum smaller: a row is moved from one state to
a later one, or is forgotten. No row comes back from being expired or deleted.
-/

namespace CallBackend.Files

open Exec

/-! ### Limits as sums -/

theorem number_eq (files : FileTable) (counts : FileRow → Bool) :
    number files counts = files.sum fun row => if counts row then 1 else 0 := by
  unfold number Dict.sum
  induction files.values with
  | nil => rfl
  | cons row rest ih =>
    rw [List.filter_cons, List.map_cons, List.sum_cons, ← ih]
    split_ifs
    · rw [List.length_cons, Nat.add_comm]
    · rw [Nat.zero_add]

theorem total_eq (files : FileTable) (counts : FileRow → Bool) :
    total files counts = files.sum fun row => if counts row then row.size else 0 := by
  unfold total Dict.sum
  induction files.values with
  | nil => rfl
  | cons row rest ih =>
    rw [List.filter_cons, List.map_cons, List.sum_cons, ← ih]
    split_ifs
    · rw [List.map_cons, List.sum_cons]
    · rw [Nat.zero_add]

structure Quotas (files : FileTable) (now : Nanos) : Prop where
  bytes : total files FileRow.active ≤ globalQuota
  active : number files FileRow.active ≤ maxFiles
  ownBytes : ∀ owner, total files (fun row => row.owner = owner && row.active) ≤ ownerQuota
  owned : ∀ owner, number files (fun row => row.owner = owner && row.state ≠ .deleted) ≤ maxFilesPerOwner
  links : ∀ owner, number files (fun row => row.owner = owner && row.active && now < seconds row.expires) ≤
    maxActiveFilesPerOwner

def FileRow.Allows (row : FileRow) (state : FileState) : Prop :=
  state = .deleted ∨ (state = .expired ∧ row.state ≠ .deleted) ∨ (state = .ready ∧ row.active = true)

/-- What can happen to the table. -/
inductive TableChange (env : StoreEnv) : FileTable → FileTable → Prop
  | inserted {files : FileTable} {id : FileId} {row : FileRow} : files.get? id = none →
      row.state = .uploading → HasRoom files env.clock row.owner row.size →
      TableChange env files (files.set id row)
  | moved {files : FileTable} {id : FileId} {row : FileRow} {state : FileState} :
      files.get? id = some row → row.Allows state →
      TableChange env files (files.set id { row with state })
  | forgotten {files : FileTable} (id : FileId) : TableChange env files (files.erase id)

section Sums

variable {files : FileTable} {id : FileId} {row : FileRow} {weight : FileRow → Nat}

theorem sum_inserted (hnone : files.get? id = none) :
    (files.set id row).sum weight = files.sum weight + weight row := by
  have h := files.sum_set id row weight
  rw [hnone] at h
  exact h

variable {row' : FileRow}

theorem sum_moved (hrow : files.get? id = some row) (hle : weight row' ≤ weight row) :
    (files.set id row').sum weight ≤ files.sum weight := by
  have h : (files.set id row').sum weight + weight row = files.sum weight + weight row' := by
    have h := files.sum_set id row' weight
    rwa [hrow] at h
  omega

variable {counts : FileRow → Bool}

theorem number_moved (hrow : files.get? id = some row) (himp : counts row' = true → counts row = true) :
    number (files.set id row') counts ≤ number files counts := by
  rw [number_eq, number_eq]
  apply sum_moved hrow
  split_ifs with h' h
  · exact le_rfl
  · exact absurd (himp h') h
  · exact Nat.zero_le _
  · exact le_rfl

theorem total_moved (hrow : files.get? id = some row) (hsize : row'.size = row.size)
    (himp : counts row' = true → counts row = true) :
    total (files.set id row') counts ≤ total files counts := by
  rw [total_eq, total_eq]
  apply sum_moved hrow
  split_ifs with h' h
  · exact hsize.le
  · exact absurd (himp h') h
  · exact Nat.zero_le _
  · exact le_rfl

theorem number_inserted (hnone : files.get? id = none) :
    number (files.set id row) counts = number files counts + if counts row then 1 else 0 := by
  rw [number_eq, number_eq, sum_inserted hnone]

theorem total_inserted (hnone : files.get? id = none) :
    total (files.set id row) counts = total files counts + if counts row then row.size else 0 := by
  rw [total_eq, total_eq, sum_inserted hnone]

theorem number_erased (counts : FileRow → Bool) : number (files.erase id) counts ≤ number files counts := by
  rw [number_eq, number_eq]
  exact files.sum_erase_le id _

theorem total_erased (counts : FileRow → Bool) : total (files.erase id) counts ≤ total files counts := by
  rw [total_eq, total_eq]
  exact files.sum_erase_le id _

theorem number_le_number {counts' : FileRow → Bool} (h : ∀ row, counts row = true → counts' row = true) :
    number files counts ≤ number files counts' := by
  rw [number_eq, number_eq]
  refine Dict.sum_le_sum fun row => ?_
  split_ifs with h₁ h₂
  · exact le_rfl
  · exact absurd (h row h₁) h₂
  · exact Nat.zero_le _
  · exact le_rfl

variable {state : FileState}

theorem active_of_allows (h : row.Allows state)
    (hactive : FileRow.active { row with state } = true) : row.active = true := by
  rcases h with rfl | ⟨rfl, -⟩ | ⟨-, hrow⟩
  · cases hactive
  · cases hactive
  · exact hrow

theorem not_deleted_of_allows (h : row.Allows state) (hstate : state ≠ .deleted) :
    row.state ≠ .deleted := by
  rcases h with rfl | ⟨-, hrow⟩ | ⟨-, hrow⟩
  · exact absurd rfl hstate
  · exact hrow
  · intro hdeleted
    simp [FileRow.active, hdeleted] at hrow

end Sums

section Table

variable {env : StoreEnv} {files files' : FileTable}

theorem clock_lt_iff {expires : Nat} : env.clock < expires ↔ env.now < seconds expires :=
  Nat.div_lt_iff_lt_mul (by decide)

theorem Quotas.later {now later : Nanos} (h : Quotas files now) (hle : now ≤ later) : Quotas files later := by
  refine { h with links := fun owner => le_trans (number_le_number fun row hrow => ?_) (h.links owner) }
  simp only [Bool.and_eq_true, decide_eq_true_eq] at hrow ⊢
  exact ⟨hrow.1, lt_of_le_of_lt hle hrow.2⟩

theorem TableChange.quotas (h : TableChange env files files') (hquotas : Quotas files env.now) :
    Quotas files' env.now := by
  cases h with
  | @inserted id row hnone hstate hroom =>
    have hactive : row.active = true := by simp [FileRow.active, hstate]
    have hlinks := hroom.links
    simp only [clock_lt_iff] at hlinks
    refine ⟨?_, ?_, fun owner => ?_, fun owner => ?_, fun owner => ?_⟩
    · rw [total_inserted hnone, if_pos hactive]
      exact hroom.bytes
    · rw [number_inserted hnone, if_pos hactive]
      exact hroom.active
    all_goals by_cases howner : row.owner = owner
    · subst howner
      rw [total_inserted hnone, if_pos (by simp [hactive])]
      exact hroom.ownBytes
    · rw [total_inserted hnone, if_neg (by simp [howner])]
      exact hquotas.ownBytes owner
    · subst howner
      rw [number_inserted hnone, if_pos (by simp [hstate])]
      exact hroom.owned
    · rw [number_inserted hnone, if_neg (by simp [howner])]
      exact hquotas.owned owner
    · subst howner
      rw [number_inserted hnone]
      split_ifs
      · exact hlinks
      · exact hquotas.links row.owner
    · rw [number_inserted hnone, if_neg (by simp [howner])]
      exact hquotas.links owner
  | moved hrow hallows =>
    have hactive := active_of_allows hallows
    refine ⟨?_, ?_, fun owner => ?_, fun owner => ?_, fun owner => ?_⟩
    · exact le_trans (total_moved hrow (by rfl) hactive) hquotas.bytes
    · exact le_trans (number_moved hrow hactive) hquotas.active
    · refine le_trans (total_moved hrow (by rfl) fun h => ?_) (hquotas.ownBytes owner)
      simp only [Bool.and_eq_true] at h ⊢
      exact ⟨h.1, hactive h.2⟩
    · refine le_trans (number_moved hrow fun h => ?_) (hquotas.owned owner)
      simp only [Bool.and_eq_true, decide_eq_true_eq] at h ⊢
      exact ⟨h.1, not_deleted_of_allows hallows h.2⟩
    · refine le_trans (number_moved hrow fun h => ?_) (hquotas.links owner)
      simp only [Bool.and_eq_true] at h ⊢
      exact ⟨⟨h.1.1, hactive h.1.2⟩, h.2⟩
  | forgotten id =>
    exact ⟨(total_erased _).trans hquotas.bytes, (number_erased _).trans hquotas.active,
      fun owner => (total_erased _).trans (hquotas.ownBytes owner),
      fun owner => (number_erased _).trans (hquotas.owned owner),
      fun owner => (number_erased _).trans (hquotas.links owner)⟩

def NoRevival (files files' : FileTable) : Prop :=
  ∀ id row row', files.get? id = some row → files'.get? id = some row' → row'.active = true →
    row.active = true

theorem NoRevival.refl (files : FileTable) : NoRevival files files := by
  intro id row row' hrow hrow' hactive
  rw [hrow, Option.some.injEq] at hrow'
  rwa [hrow']

theorem noRevival_moved {id : FileId} {row : FileRow} (hrow : files.get? id = some row)
    (hallows : row.Allows state) : NoRevival files (files.set id { row with state }) := by
  intro other found found' hfound hfound' hactive
  rw [Dict.get?_set] at hfound'
  split_ifs at hfound' with hid
  · subst hid
    rw [hrow, Option.some.injEq] at hfound
    rw [Option.some.injEq] at hfound'
    subst hfound hfound'
    exact active_of_allows hallows hactive
  · exact NoRevival.refl files other found found' hfound hfound' hactive

end Table

/-! ### Requests -/

section Requests

variable {env : StoreEnv} {user : String} {puts : Prop} {st st' : Store}

structure Progress (env : StoreEnv) (files files' : FileTable) : Prop where
  changes : Relation.ReflTransGen (TableChange env) files files'
  kept : ∀ id row, files.get? id = some row → ∃ row', files'.get? id = some row' ∧
    (row'.active = true → row.active = true)

theorem Progress.refl (files : FileTable) : Progress env files files :=
  ⟨.refl, fun _ row hrow => ⟨row, hrow, id⟩⟩

variable {files : FileTable}

theorem Progress.trans {files' files'' : FileTable} (h : Progress env files files')
    (h' : Progress env files' files'') : Progress env files files'' := by
  refine ⟨h.changes.trans h'.changes, fun id row hrow => ?_⟩
  obtain ⟨row', hrow', hactive⟩ := h.kept id row hrow
  obtain ⟨row'', hrow'', hactive'⟩ := h'.kept id row' hrow'
  exact ⟨row'', hrow'', fun h => hactive (hactive' h)⟩

theorem Progress.noRevival {files' : FileTable} (h : Progress env files files') :
    NoRevival files files' := by
  intro id row row' hrow hrow' hactive
  obtain ⟨found, hfound, himp⟩ := h.kept id row hrow
  rw [hrow', Option.some.injEq] at hfound
  subst hfound
  exact himp hactive

theorem progress_moved {id : FileId} {row : FileRow}
    (hrow : files.get? id = some row) (hallows : row.Allows state) :
    Progress env files (files.set id { row with state }) := by
  refine ⟨.single (.moved hrow hallows), fun other found hfound => ?_⟩
  have hget := files.get?_set id other { row with state }
  split_ifs at hget with hid
  · subst hid
    rw [hrow, Option.some.injEq] at hfound
    subst hfound
    exact ⟨_, hget, active_of_allows hallows⟩
  · exact ⟨found, hget.trans hfound, fun h => h⟩

theorem Change.progress (h : Change env user puts st st') : Progress env st.files st'.files := by
  cases h with
  | inserted hnone howner hstate hroom =>
    subst howner
    refine ⟨.single (.inserted hnone hstate hroom), fun id row hrow => ⟨row, ?_, fun h => h⟩⟩
    refine (Dict.get?_set_of_ne _ _ ?_).trans hrow
    rintro rfl
    rw [hnone] at hrow
    cases hrow
  | deleted hrow _ => exact progress_moved hrow (.inl rfl)
  | finished hrow _ hactive => exact progress_moved hrow (.inr (.inr ⟨rfl, hactive⟩))
  | operated | released | created | removed | written | added => exact .refl _

theorem Changes.progress (h : Changes env user puts st st') : Progress env st.files st'.files := by
  induction h with
  | refl => exact .refl _
  | tail _ hchange ih => exact ih.trans hchange.progress

theorem NativeOutcome.files_eq {data : Json} {reply : Option Reply}
    (h : NativeOutcome env user data st reply st') : st'.files = st.files := by
  cases h <;> rfl

theorem progress_request (setup : Setup) (env : StoreEnv) (user : String) (st : Store) (request : Request) :
    Progress env st.files (st.afterRequest setup env user request).files := by
  rcases afterRequest_effect setup env user st request with hchanges | ⟨data, reply, houtcome⟩
  · exact hchanges.progress
  · rw [houtcome.files_eq]
    exact .refl _

theorem progress_flushBatch (setup : Setup) (env : StoreEnv) (st : Store) (id : FileId)
    (batch : List PendingPut) : Progress env st.files (flushBatch setup id batch env st).2.files := by
  have hmakes : Makes env (((st.files.get? id).map FileRow.owner).getD "") True st (flushBatch setup id batch) := by
    apply makes_flushBatch
    intro row hrow
    rw [hrow]
    exact .inl rfl
  exact Changes.progress (wp_final (p := Changes env _ True st) hmakes)

end Requests

/-! ### Cleaning up -/

section Sweep

variable {env : StoreEnv} {st : Store}

inductive Swept (id : FileId) (files : FileTable) : FileTable → Prop
  | same : Swept id files files
  | expired {row : FileRow} : files.get? id = some row → row.state ≠ .deleted →
      Swept id files (files.set id { row with state := .expired })
  | forgotten : Swept id files (files.erase id)

variable {id : FileId}

theorem wp_forgetRow {now : Nat} {post : Unit → Store → Prop} {onFail : StoreExn → Store → Prop}
    (hsame : post () st)
    (herased : ∀ n, post () { st with files := st.files.erase id, operations := n })
    (hfail : ∀ n, onFail .databaseError { st with operations := n }) :
    wp (forgetRow id now) env st post onFail := by
  simp only [forgetRow, deleteRow, wp_do]
  cases st.files.get? id with
  | none => exact hsame
  | some row =>
    simp only [wp_ite, wp_do]
    exact ⟨fun _ => wp_operate herased hfail, fun _ => hsame⟩

theorem wp_expireRow {post : Unit → Store → Prop} {onFail : StoreExn → Store → Prop}
    (hsame : post () st) (hexpired : ∀ row n, st.files.get? id = some row → row.state ≠ .deleted →
      post () { st with files := st.files.set id { row with state := .expired }, operations := n })
    (hfail : ∀ n, onFail .databaseError { st with operations := n }) :
    wp (expireRow id) env st post onFail := by
  simp only [expireRow, setRow, wp_do]
  cases hrow : st.files.get? id with
  | none => exact hsame
  | some row =>
    simp only [wp_ite, wp_do]
    exact ⟨fun hstate => wp_operate (fun n => hexpired row n hrow hstate) hfail, fun _ => hsame⟩

theorem wp_sweepRows (id : FileId) (now : Nat) :
    wp (sweepRows id now) env st (fun _ st' => Swept id st.files st'.files)
      fun _ st' => Swept id st.files st'.files := by
  refine wp_transaction ?_
  -- A failure anywhere in the transaction leaves the table as it was.
  have hrest : ∀ st' : Store, Swept id st.files st'.files → st'.files.erase id = st.files.erase id →
      wp (do deleteChunks id; forgetRow id now) env st'
        (fun _ st'' => (∀ n, Swept id st.files ({ st'' with operations := n } : Store).files) ∧
          ∀ n, Swept id st.files (Store.rolledBack { st'' with operations := n } st).files)
        fun _ st'' => Swept id st.files (st''.rolledBack st).files := by
    intro st' hswept herase
    simp only [deleteChunks, wp_do]
    refine wp_operate (fun n => ?_) fun _ => .same
    refine wp_forgetRow ⟨fun _ => hswept, fun _ => .same⟩ (fun n => ⟨fun _ => ?_, fun _ => .same⟩) fun _ => .same
    change Swept id st.files (st'.files.erase id)
    rw [herase]
    exact .forgotten
  simp only [dropLease, wp_do] at hrest ⊢
  refine wp_expireRow (hrest _ .same rfl) (fun row n hrow hstate => ?_) fun _ => .same
  exact hrest _ (.expired hrow hstate) (Dict.erase_set _ _ _)

variable {files files' : FileTable}

theorem Swept.quotas (h : Swept id files files')
    (hquotas : Quotas files env.now) : Quotas files' env.now := by
  cases h with
  | same => exact hquotas
  | expired hrow hstate => exact (TableChange.moved hrow (.inr (.inl ⟨rfl, hstate⟩))).quotas hquotas
  | forgotten => exact (TableChange.forgotten id).quotas hquotas

theorem Swept.noRevival (h : Swept id files files') :
    NoRevival files files' := by
  cases h with
  | same => exact .refl files
  | expired hrow hstate => exact noRevival_moved hrow (.inr (.inl ⟨rfl, hstate⟩))
  | forgotten =>
    intro other row row' hrow hrow' hactive
    exact NoRevival.refl files other row row' hrow (Dict.get?_erase_eq_some hrow').2 hactive

end Sweep

/-! ### Runs of the store -/

/-- How far the thread that cleans up has come. -/
inductive Cleaner where
  | idle
  /-- The files that are still to be swept, with the time of the list. -/
  | sweeping (now : Nat) (rest : List FileId)
  /-- The blob of a file has been removed, its rows have not. -/
  | unlinked (now : Nat) (id : FileId) (rest : List FileId)

/-- The store, the time of its last step, and the thread that cleans up. -/
structure Depot where
  store : Store := {}
  now : Nanos := 0
  cleaner : Cleaner := .idle

inductive DepotAction where
  | request (user : String) (request : Request)
  /-- A batch of `put` requests of several users. -/
  | flush (id : FileId) (batch : List PendingPut)
  | startCleanup
  | removeBlob
  | removeRows
  | removeOrphan (id : FileId)
  | endCleanup
  /-- A new process finds the tables and the blobs. -/
  | restart

structure DepotEvent where
  action : DepotAction
  env : StoreEnv

/-- What the thread that cleans up does next, after an operation has succeeded or failed. -/
def Cleaner.proceed (result : Except StoreExn Unit) (next : Cleaner) : Cleaner :=
  match result with
  | .ok _ => next
  | .error _ => .idle

def Depot.next (setup : Setup) (d : Depot) (event : DepotEvent) : Depot :=
  let env := event.env
  match event.action with
  | .request user request => ⟨d.store.afterRequest setup env user request, env.now, d.cleaner⟩
  | .flush id batch => ⟨(flushBatch setup id batch env d.store).2, env.now, d.cleaner⟩
  | .startCleanup =>
    match d.cleaner with
    | .idle => ⟨d.store, env.now, .sweeping env.clock (d.store.stale env.clock)⟩
    | cleaner => ⟨d.store, env.now, cleaner⟩
  | .removeBlob =>
    match d.cleaner with
    | .sweeping now (id :: rest) =>
      let result := unlink id env d.store
      ⟨result.2, env.now, .proceed result.1 (.unlinked now id rest)⟩
    | cleaner => ⟨d.store, env.now, cleaner⟩
  | .removeRows =>
    match d.cleaner with
    | .unlinked now id rest =>
      let result := sweepRows id now env d.store
      ⟨result.2, env.now, .proceed result.1 (.sweeping now rest)⟩
    | cleaner => ⟨d.store, env.now, cleaner⟩
  | .removeOrphan id =>
    match d.cleaner with
    | .sweeping now [] =>
      let result := removeOrphan id env d.store
      ⟨result.2, env.now, .proceed result.1 (.sweeping now [])⟩
    | cleaner => ⟨d.store, env.now, cleaner⟩
  | .endCleanup => ⟨d.store, env.now, .idle⟩
  | .restart => ⟨{ d.store with nativeWrites := ∅ }, env.now, .idle⟩

/-- The store from its beginning, with a clock that does not go back. -/
def depot (setup : Setup) : System Depot DepotEvent where
  init d := d.store = {}
  step d event d' := d.now ≤ event.env.now ∧ d' = d.next setup event

section Runs

variable {setup : Setup} {d : Depot}

theorem files_unlink (id : FileId) (env : StoreEnv) (st : Store) : (unlink id env st).2.files = st.files := by
  have h : wp (unlink id) env st (fun _ st' => st'.files = st.files) fun _ st' => st'.files = st.files := by
    simp only [unlink, wp_do]
    exact wp_operate (fun _ => rfl) fun _ => rfl
  exact wp_final (p := fun st' : Store => st'.files = st.files) h

theorem files_removeOrphan (id : FileId) (env : StoreEnv) (st : Store) :
    (removeOrphan id env st).2.files = st.files := by
  have h : wp (removeOrphan id) env st (fun _ st' => st'.files = st.files) fun _ st' => st'.files = st.files := by
    simp only [removeOrphan, unlink, wp_do, wp_ite]
    exact ⟨fun _ => wp_operate (fun _ => rfl) fun _ => rfl, fun _ => trivial⟩
  exact wp_final (p := fun st' : Store => st'.files = st.files) h

theorem files_next (setup : Setup) (d : Depot) (event : DepotEvent) :
    Progress event.env d.store.files (d.next setup event).store.files ∨
      ∃ id, Swept id d.store.files (d.next setup event).store.files := by
  obtain ⟨action, env⟩ := event
  cases action with
  | request user request => exact .inl (progress_request setup env user d.store request)
  | flush id batch => exact .inl (progress_flushBatch setup env d.store id batch)
  | startCleanup =>
    refine .inl ?_
    simp only [Depot.next]
    split <;> exact .refl _
  | removeBlob =>
    refine .inl ?_
    simp only [Depot.next]
    split
    · rw [files_unlink]
      exact .refl _
    · exact .refl _
  | removeRows =>
    simp only [Depot.next]
    split
    · rename_i now id rest _
      exact .inr ⟨id, wp_final (p := fun st' : Store => Swept id d.store.files st'.files)
        (wp_sweepRows id now)⟩
    · exact .inl (.refl _)
  | removeOrphan id =>
    refine .inl ?_
    simp only [Depot.next]
    split
    · rw [files_removeOrphan]
      exact .refl _
    · exact .refl _
  | endCleanup => exact .inl (.refl _)
  | restart => exact .inl (.refl _)

theorem now_next (setup : Setup) (d : Depot) (event : DepotEvent) : (d.next setup event).now = event.env.now := by
  obtain ⟨action, env⟩ := event
  cases action <;> simp only [Depot.next] <;> (try split) <;> rfl

theorem quotas_of_changes {env : StoreEnv}
    (h : Relation.ReflTransGen (TableChange env) files files') (hquotas : Quotas files env.now) :
    Quotas files' env.now := by
  induction h with
  | refl => exact hquotas
  | tail _ hchange ih => exact hchange.quotas ih

theorem quotas_next {event : DepotEvent} (hquotas : Quotas d.store.files d.now)
    (hclock : d.now ≤ event.env.now) :
    Quotas (d.next setup event).store.files (d.next setup event).now := by
  rw [now_next]
  have hlater := hquotas.later hclock
  rcases files_next setup d event with hprogress | ⟨id, hswept⟩
  · exact quotas_of_changes hprogress.changes hlater
  · exact hswept.quotas hlater

theorem reachable_quotas {ok : Depot → DepotEvent → Prop} (h : (depot setup).Reachable ok d) :
    Quotas d.store.files d.now := by
  refine h.invariant (I := fun d => Quotas d.store.files d.now) (fun d hd => ?_)
    fun d event d' hd _ hstep => ?_
  · rw [show d.store = {} from hd]
    exact ⟨Nat.zero_le _, Nat.zero_le _, fun _ => Nat.zero_le _, fun _ => Nat.zero_le _,
      fun _ => Nat.zero_le _⟩
  · rw [hstep.2]
    exact quotas_next hd hstep.1

/-- The limits hold in every state the store reaches, then and later, and no step revives a row. -/
theorem quotas_hold (h : (depot setup).Reachable System.anyStep d) :
    (∀ now, d.now ≤ now → Quotas d.store.files now) ∧
      ∀ event d', (depot setup).step d event d' → NoRevival d.store.files d'.store.files := by
  refine ⟨fun now hle => (reachable_quotas h).later hle, fun event d' hstep => ?_⟩
  rw [hstep.2]
  rcases files_next setup d event with hprogress | ⟨id, hswept⟩
  · exact hprogress.noRevival
  · exact hswept.noRevival

end Runs

namespace Sample

def setup : Setup := ⟨fun _ => String.ofList (List.replicate 64 'a')⟩

/-- The n-th second, in which every operation succeeds. -/
def clock (n : Nat) : StoreEnv where
  now := seconds n
  monotonic := seconds n
  token := "token"
  succeeds _ := true

def fileId : FileId := String.ofList (List.replicate 32 'a')

def create : Json :=
  .obj [("op", .str "create"), ("id", .str fileId), ("size", .int 4), ("ttl", .int 60),
    ("envelope", .str "AAAA"), ("manifest", .str "AAAA")]

def stocked : Depot := ({} : Depot).next setup ⟨.request "alice" (.application create), clock 1⟩

end Sample

open Sample in
theorem quotas_hold_stocked : number stocked.store.files FileRow.active = 1 ∧
    (∀ now, stocked.now ≤ now → Quotas stocked.store.files now) ∧
      ∀ event d', (depot setup).step stocked event d' →
        NoRevival stocked.store.files d'.store.files := by
  have hstart : (depot setup).Reachable System.anyStep ({} : Depot) := .init rfl
  exact ⟨by decide +kernel, quotas_hold (.step hstart trivial ⟨Nat.zero_le _, rfl⟩)⟩

end CallBackend.Files
