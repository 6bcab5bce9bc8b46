import CallBackend.Files.Quota
import CallBackend.Lib.Coupling

/-!
# Recovery envelopes

The envelope of a file is for its owner. Two stores that differ only in envelopes of files of one
user answer every request of the others in the same way, whatever else is going on, and so they stay
as alike as they were. The envelope is read in three places: `describe` shows it to the owner,
`create` compares it if the file exists and belongs to the user, and a native upload binds its lease
to it once the owner has been checked.
-/

namespace CallBackend.Files

open Exec

/-! ### What a reply shows -/

structure Description where
  id : FileId
  size : Nat
  expires : Nat
  state : FileState
  manifest : String
  envelope : Option String
  deriving DecidableEq

def describe (id : FileId) (row : FileRow) (owner : Bool) : Description :=
  ⟨id, row.size, row.expires, row.state, row.manifest, if owner then some row.envelope else none⟩

/-- A reply as the user sees it. -/
inductive Shown where
  | descriptions (files : List Description)
  | description (file : Description)
  | other (reply : Reply)

def Reply.shown : Reply → Shown
  | .listing files => .descriptions (files.map fun entry => describe entry.1 entry.2 true)
  | .described id row owner => .description (describe id row owner)
  | reply => .other reply

/-! ### Stores that differ in envelopes -/

def conceal (a : String) (row : FileRow) : FileRow :=
  if row.owner = a then { row with envelope := "" } else row

def Twin (a : String) (row row' : FileRow) : Prop :=
  row' = row ∨ row.owner = a ∧ row' = { row with envelope := row'.envelope }

theorem conceal_envelope {a : String} {row : FileRow} (howner : row.owner = a) (envelope : String) :
    conceal a { row with envelope } = conceal a row := by
  simp only [conceal, howner, if_true]

theorem Twin.conceal {a : String} {row row' : FileRow} (h : Twin a row row') :
    conceal a row = conceal a row' := by
  rcases h with rfl | ⟨howner, henvelope⟩
  · rfl
  · rw [henvelope]
    exact (conceal_envelope howner _).symm

theorem twin_conceal (a : String) (row : FileRow) : Twin a row (Files.conceal a row) := by
  unfold Files.conceal
  split_ifs with howner
  · exact .inr ⟨howner, rfl⟩
  · exact .inl rfl

theorem twin_of_conceal {a : String} {row row' : FileRow} (h : conceal a row = conceal a row') :
    Twin a row row' := by
  have howner : ∀ r, (Files.conceal a r).owner = r.owner := by
    intro r
    unfold Files.conceal
    split_ifs
    · rfl
    · rfl
  have hsame : row'.owner = row.owner := by
    rw [← howner row', ← h, howner]
  by_cases hmine : row.owner = a
  · refine .inr ⟨hmine, ?_⟩
    simp only [Files.conceal, hsame, hmine, if_true, FileRow.mk.injEq] at h
    obtain ⟨-, hsize, hexpires, hcreated, hstate, -, hmanifest⟩ := h
    rw [hsize, hexpires, hcreated, hstate, hmanifest, ← hsame]
  · simp only [Files.conceal, hsame, if_neg hmine] at h
    exact .inl h.symm

namespace Twin

variable {a : String} {row row' : FileRow} (h : Twin a row row')

include h

theorem eq_with_envelope : row' = { row with envelope := row'.envelope } := by
  rcases h with rfl | ⟨-, h⟩
  · rfl
  · exact h

theorem owner : row'.owner = row.owner := by
  rw [h.eq_with_envelope]

theorem size : row'.size = row.size := by
  rw [h.eq_with_envelope]

theorem expires : row'.expires = row.expires := by
  rw [h.eq_with_envelope]

theorem state : row'.state = row.state := by
  rw [h.eq_with_envelope]

theorem manifest : row'.manifest = row.manifest := by
  rw [h.eq_with_envelope]

theorem lapsed (now : Nanos) : row'.lapsed now = row.lapsed now := by
  rw [FileRow.lapsed, FileRow.lapsed, h.expires, h.state]

theorem count : row'.count = row.count := by
  rw [FileRow.count, FileRow.count, h.size]

theorem chunkLength (index : Nat) : row'.chunkLength index = row.chunkLength index := by
  rw [FileRow.chunkLength, FileRow.chunkLength, h.size]

theorem withState (state : FileState) : Twin a { row with state } { row' with state } := by
  rcases h with rfl | ⟨howner, henvelope⟩
  · exact .inl rfl
  · refine .inr ⟨howner, ?_⟩
    rw [henvelope]

theorem eq_of_ne (hother : row.owner ≠ a) : row' = row :=
  h.resolve_right fun hmine => hother hmine.1

theorem shown (id : FileId) : describe id row' false = describe id row false := by
  simp [describe, h.size, h.expires, h.state, h.manifest]

end Twin

structure Veiled (a : String) (st st' : Store) : Prop where
  files : st.files.mapValues (conceal a) = st'.files.mapValues (conceal a)
  chunks : st'.chunks = st.chunks
  blobs : st'.blobs = st.blobs
  nativeWrites : st'.nativeWrites = st.nativeWrites
  operations : st'.operations = st.operations

variable {st st' : Store}

theorem Veiled.row {a : String} (h : Veiled a st st') (id : FileId) :
    (st.files.get? id = none ∧ st'.files.get? id = none) ∨
      ∃ row row', st.files.get? id = some row ∧ st'.files.get? id = some row' ∧ Twin a row row' := by
  have hget := congrArg (Dict.get? · id) h.files
  simp only [Dict.get?_mapValues] at hget
  cases hrow : st.files.get? id with
  | none =>
    rw [hrow] at hget
    exact .inl ⟨rfl, Option.map_eq_none_iff.mp hget.symm⟩
  | some row =>
    rw [hrow] at hget
    obtain ⟨row', hrow', hconceal⟩ := Option.map_eq_some_iff.mp hget.symm
    exact .inr ⟨row, row', rfl, hrow', twin_of_conceal hconceal.symm⟩

section Operations

variable {a : String}

theorem coupled_operate (error : StoreExn) : Confined (Veiled a) (operate error) := by
  refine coupled_get.bind fun st st' h => ?_
  refine (coupled_modify fun s s' hs => ?_).bind_same fun _ => coupled_ask.bind_same fun env => ?_
  · exact ⟨hs.files, hs.chunks, hs.blobs, hs.nativeWrites, congrArg (· + 1) hs.operations⟩
  · rw [h.operations]
    exact coupled_ensure Iff.rfl error

theorem coupled_transaction {α β : Type} {R : α → β → Prop} {m : StoreM α} {m' : StoreM β}
    (h : Coupled (Veiled a) R m m') : Coupled (Veiled a) R (transaction m) (transaction m') := by
  refine coupled_get.bind fun before before' hbefore => Coupled.rescue ?_ fun error => ?_
  · exact h.bind fun x y hxy => (coupled_operate _).bind_same fun _ => coupled_pure hxy
  · refine (coupled_modify fun s s' hs => ?_).bind_same fun _ => coupled_raise error
    exact ⟨hbefore.files, hbefore.chunks, hs.blobs, hs.nativeWrites, hs.operations⟩

theorem coupled_setRow (id : FileId) {row row' : FileRow} (h : Twin a row row') :
    Coupled (Veiled a) Eq (setRow id row) (setRow id row') := by
  refine (coupled_operate _).bind_same fun _ => coupled_modify fun s s' hs => ?_
  refine ⟨?_, hs.chunks, hs.blobs, hs.nativeWrites, hs.operations⟩
  rw [Dict.mapValues_set, Dict.mapValues_set, hs.files, h.conceal]

theorem coupled_deleteRow (id : FileId) : Confined (Veiled a) (deleteRow id) := by
  refine (coupled_operate _).bind_same fun _ => coupled_modify fun s s' hs => ?_
  refine ⟨?_, hs.chunks, hs.blobs, hs.nativeWrites, hs.operations⟩
  rw [Dict.mapValues_erase, Dict.mapValues_erase, hs.files]

theorem coupled_deleteChunks (id : FileId) : Confined (Veiled a) (deleteChunks id) := by
  refine (coupled_operate _).bind_same fun _ => coupled_modify fun s s' hs => ?_
  exact ⟨hs.files, by rw [hs.chunks], hs.blobs, hs.nativeWrites, hs.operations⟩

theorem coupled_insertChunk (id : FileId) (index : Nat) (digest : Digest) :
    Confined (Veiled a) (insertChunk id index digest) := by
  refine (coupled_operate _).bind_same fun _ => coupled_get.bind fun st st' h => ?_
  rw [h.chunks]
  refine (coupled_ensure Iff.rfl _).bind_same fun _ => coupled_modify fun s s' hs => ?_
  exact ⟨hs.files, by rw [hs.chunks], hs.blobs, hs.nativeWrites, hs.operations⟩

theorem coupled_dropLease (id : FileId) : Confined (Veiled a) (dropLease id) :=
  coupled_modify fun _ _ hs =>
    ⟨hs.files, hs.chunks, hs.blobs, by rw [hs.nativeWrites], hs.operations⟩

theorem coupled_unlink (id : FileId) : Confined (Veiled a) (unlink id) := by
  refine (coupled_operate _).bind_same fun _ => coupled_modify fun s s' hs => ?_
  exact ⟨hs.files, hs.chunks, by rw [hs.blobs], hs.nativeWrites, hs.operations⟩

theorem coupled_writeSlot (id : FileId) (index : Nat) (chunk : Bytes) :
    Confined (Veiled a) (writeSlot id index chunk) := by
  refine coupled_ask.bind_same fun env => ?_
  refine (coupled_modify fun s s' hs => ?_).bind_same fun _ => coupled_operate _
  exact ⟨hs.files, hs.chunks, by rw [hs.blobs, hs.operations], hs.nativeWrites, hs.operations⟩

theorem coupled_row (id : FileId) : Coupled (Veiled a) (Twin a) (row id) (row id) := by
  refine (coupled_ensure Iff.rfl _).bind_same fun _ => coupled_get.bind fun st st' h => ?_
  rcases h.row id with ⟨hrow, hrow'⟩ | ⟨row, row', hrow, hrow', htwin⟩
  · rw [hrow, hrow']
    exact coupled_raise _
  · rw [hrow, hrow']
    exact coupled_ite (by rw [htwin.state]) (fun _ => coupled_raise _) fun _ => coupled_pure htwin

theorem coupled_writeChunks (id : FileId) (writes : Writes) :
    Confined (Veiled a) (writeChunks id writes) := by
  unfold writeChunks
  refine coupled_ite Iff.rfl (fun _ => coupled_pure rfl) fun _ => ?_
  refine (coupled_operate _).bind_same fun _ => coupled_get.bind fun st st' h => ?_
  rw [h.blobs]
  refine (coupled_ensure Iff.rfl _).bind_same fun _ => ?_
  refine (coupled_forEach fun entry _ => coupled_writeSlot _ _ _).bind_same fun _ => ?_
  exact (coupled_operate _).bind_same fun _ =>
    coupled_transaction (coupled_forEach fun entry _ => coupled_insertChunk _ _ _)

end Operations

/-! ### Uploads of others -/

section Uploads

variable {a : String} {setup : Setup} {row row' : FileRow}

theorem checkBatch_twin (h : Twin a row row') {batch : List PendingPut}
    (husers : ∀ put ∈ batch, put.user ≠ a) (stored : Dict Nat Digest) (writes : Writes) :
    checkBatch setup row' stored writes batch = checkBatch setup row stored writes batch := by
  rcases h with rfl | ⟨howner, henvelope⟩
  · rfl
  · have howner' : row'.owner = a := by
      rw [henvelope]
      exact howner
    rw [checkBatch_of_foreign (by rw [howner']; exact husers),
      checkBatch_of_foreign (by rw [howner]; exact husers)]

variable (setup) in
theorem coupled_flushBatch (id : FileId) {batch : List PendingPut}
    (husers : ∀ put ∈ batch, put.user ≠ a) :
    Confined (Veiled a) (flushBatch setup id batch) := by
  refine Coupled.rescue ?_ fun error => coupled_pure rfl
  refine (coupled_row id).bind fun row row' htwin => coupled_get.bind fun st st' h => ?_
  rw [h.chunks, checkBatch_twin htwin husers]
  refine Coupled.rescue ?_ fun error => coupled_pure rfl
  exact (coupled_writeChunks id _).bind_same fun _ => coupled_pure rfl

variable (setup) in
theorem coupled_putBatch {user : String} (huser : user ≠ a) (id : FileId) (upload : Upload) :
    Confined (Veiled a) (putBatch setup user id upload) := by
  unfold putBatch
  refine (coupled_row id).bind fun row row' htwin => ?_
  refine coupled_guard (by rw [htwin.owner]) fun howner => ?_
  obtain rfl := htwin.eq_of_ne (by rw [not_not.mp howner]; exact huser)
  refine coupled_ask.bind_same fun env => coupled_guard Iff.rfl fun _ => coupled_guard Iff.rfl fun _ => ?_
  refine coupled_get.bind fun st st' h => ?_
  rw [h.chunks]
  refine (coupled_lift (.of_eq rfl)).bind_same fun result => ?_
  exact (coupled_writeChunks id _).bind_same fun _ => coupled_pure rfl

end Uploads

/-! ### Requests of others -/

def Similar (reply reply' : Reply) : Prop := reply.shown = reply'.shown

section Requests

variable {a : String} {user : String} {counts : FileRow → Bool}

section Counts

variable (h : Veiled a st st') (hcounts : ∀ row, counts (conceal a row) = counts row)

include h hcounts

theorem Veiled.values :
    (st'.files.values.filter counts).map (conceal a) = (st.files.values.filter counts).map (conceal a) := by
  have hvalues : ∀ files : FileTable, (files.values.filter counts).map (conceal a) =
      (files.mapValues (conceal a)).values.filter counts := by
    intro files
    rw [Dict.values_mapValues, List.filter_map]
    congr 1
    exact List.filter_congr fun row _ => (hcounts row).symm
  rw [hvalues, hvalues, h.files]

theorem Veiled.number : number st'.files counts = number st.files counts := by
  have hlengths := congrArg List.length (h.values hcounts)
  rwa [List.length_map, List.length_map] at hlengths

theorem Veiled.total : total st'.files counts = total st.files counts := by
  have hsizes := congrArg (fun rows => (rows.map FileRow.size).sum) (h.values hcounts)
  have hsize : FileRow.size ∘ conceal a = FileRow.size := funext fun row => (twin_conceal a row).size
  rwa [List.map_map, List.map_map, hsize] at hsizes

end Counts

theorem active_conceal (row : FileRow) : (conceal a row).active = row.active := by
  rw [FileRow.active, FileRow.active, (twin_conceal a row).state]

theorem coupled_checkQuotas (size : Nat) : Confined (Veiled a) (checkQuotas user size) := by
  refine coupled_get.bind fun st st' h => coupled_ask.bind_same fun env => ?_
  have hactive : ∀ row, (conceal a row).active = row.active := active_conceal
  have howner : ∀ row, (conceal a row).owner = row.owner := fun row => (twin_conceal a row).owner
  have hstate : ∀ row, (conceal a row).state = row.state := fun row => (twin_conceal a row).state
  have hexpires : ∀ row, (conceal a row).expires = row.expires := fun row => (twin_conceal a row).expires
  dsimp only
  rw [h.number hactive, h.total hactive, h.number fun row => by rw [howner, hactive, hexpires],
    h.number fun row => by rw [howner, hstate], h.total fun row => by rw [howner, hactive]]
  exact coupled_guard Iff.rfl fun _ =>
    coupled_ite Iff.rfl (fun _ => coupled_raise _) fun _ => coupled_pure rfl

theorem coupled_createBlob (id : FileId) : Confined (Veiled a) (createBlob id) := by
  refine (coupled_operate _).bind_same fun _ => coupled_get.bind fun st st' h => ?_
  rw [h.blobs]
  refine (coupled_ensure Iff.rfl _).bind_same fun _ => ?_
  refine (coupled_modify fun s s' hs => ?_).bind_same fun _ => coupled_operate _
  exact ⟨hs.files, hs.chunks, by rw [hs.blobs], hs.nativeWrites, hs.operations⟩

theorem wp_setRow_row (id : FileId) (new : FileRow) (env : StoreEnv) (st : Store) :
    wp (do setRow id new; row id) env st (fun row _ => row = new) fun _ _ => True := by
  simp only [setRow, row, operate, fail, wp_do, wp_ensure, Dict.get?_set_self, wp_ite]
  simp

theorem coupled_create (huser : user ≠ a) (data : Json) :
    Coupled (Veiled a) Similar (create user data) (create user data) := by
  refine (coupled_lift (.of_eq rfl)).bind_same fun file => coupled_transaction ?_
  refine coupled_get.bind fun st st' h => coupled_ite ?_ (fun _ => ?_) fun _ => ?_
  · rcases h.row file.id with ⟨hrow, hrow'⟩ | ⟨row, row', hrow, hrow', -⟩
    · rw [hrow, hrow']
    · rw [hrow, hrow']
      exact Iff.rfl
  · -- the file exists: whose it is decides before the envelope does
    refine (coupled_row file.id).bind fun row row' htwin => ?_
    by_cases howner : row.owner = user
    · obtain rfl := htwin.eq_of_ne (by rw [howner]; exact huser)
      exact coupled_guard Iff.rfl fun _ => coupled_pure rfl
    · refine coupled_guard (iff_of_true (.inl howner) (.inl ?_)) fun hnot => absurd (.inl howner) hnot
      rw [htwin.owner]
      exact howner
  · refine (coupled_checkQuotas _).bind_same fun _ => (coupled_dropLease _).bind_same fun _ => ?_
    refine (coupled_createBlob _).bind_same fun _ => coupled_ask.bind_same fun env => ?_
    have hread := ((coupled_setRow (a := a) file.id (.inl rfl)).bind_same fun _ => coupled_row file.id).and_wp
      (wp_setRow_row file.id ⟨user, file.size, env.clock + file.ttl, env.clock, .uploading, file.envelope,
        file.manifest⟩)
    rw [← bind_assoc]
    refine hread.bind fun row row' hrows => ?_
    obtain rfl := hrows.1.eq_of_ne (by rw [hrows.2]; exact huser)
    exact coupled_pure rfl

theorem Veiled.entries (h : Veiled a st st') {p : FileId × FileRow → Bool}
    (hp : ∀ entry, p (entry.1, conceal a entry.2) = p entry) :
    (st'.files.entries.filter p).map (fun entry => (entry.1, conceal a entry.2)) =
      (st.files.entries.filter p).map fun entry => (entry.1, conceal a entry.2) := by
  have hentries : ∀ files : FileTable, (files.entries.filter p).map (fun entry => (entry.1, conceal a entry.2)) =
      (files.mapValues (conceal a)).entries.filter p := by
    intro files
    rw [Dict.mapValues, List.filter_map]
    congr 1
    exact List.filter_congr fun entry _ => (hp entry).symm
  rw [hentries, hentries, h.files]

theorem Veiled.entries_others (h : Veiled a st st') {p : FileId × FileRow → Bool}
    (hp : ∀ entry, p (entry.1, conceal a entry.2) = p entry) (hothers : ∀ entry, p entry = true → entry.2.owner ≠ a) :
    st'.files.entries.filter p = st.files.entries.filter p := by
  have hsame : ∀ files : FileTable, (files.entries.filter p).map (fun entry => (entry.1, conceal a entry.2)) =
      files.entries.filter p := by
    intro files
    conv_rhs => rw [← List.map_id (files.entries.filter p)]
    refine List.map_congr_left fun entry hentry => ?_
    have hother := hothers entry (List.mem_filter.mp hentry).2
    rw [conceal, if_neg hother]
    rfl
  have hentries := h.entries hp
  rwa [hsame, hsame] at hentries

theorem coupled_listFiles (huser : user ≠ a) (data : Json) :
    Coupled (Veiled a) Similar (listFiles user data) (listFiles user data) := by
  refine (coupled_lift (.of_eq rfl)).bind_same fun offset => ?_
  generalize (data.find? "expired").getD (.bool false) = value
  cases value with
  | bool expired =>
    refine (coupled_pure rfl).bind_same fun expired => coupled_ask.bind_same fun env => ?_
    refine coupled_get.bind fun st st' h => coupled_pure (congrArg Reply.shown ?_)
    rw [h.entries_others (fun entry => ?_) fun entry hentry => ?_]
    · have htwin := twin_conceal a entry.2
      simp only [htwin.owner, htwin.state, htwin.expires]
    · simp only [Bool.and_eq_true, decide_eq_true_eq] at hentry
      rw [hentry.1.1]
      exact huser
  | _ => exact (coupled_raise (R := fun _ _ => False) _).bind fun _ _ h => h.elim

theorem coupled_deleteFile (id : FileId) {row row' : FileRow} (h : Twin a row row') :
    Coupled (Veiled a) Eq (deleteFile id row) (deleteFile id row') := by
  refine (coupled_dropLease id).bind_same fun _ => (coupled_setRow id (h.withState _)).bind_same fun _ => ?_
  exact (coupled_unlink id).bind_same fun _ => (coupled_deleteChunks id).bind_same fun _ => coupled_pure rfl

theorem coupled_status (id : FileId) {row row' : FileRow} (h : Twin a row row') (data : Json) :
    Coupled (Veiled a) Eq (status id row data) (status id row' data) := by
  unfold status
  rw [h.count]
  refine (coupled_lift (.of_eq rfl)).bind_same fun start => coupled_get.bind fun st st' hst => ?_
  rw [hst.chunks]
  exact coupled_pure rfl

theorem coupled_finish (id : FileId) {row row' : FileRow} (h : Twin a row row') :
    Coupled (Veiled a) Eq (finish id row) (finish id row') := by
  refine coupled_get.bind fun st st' hst => ?_
  rw [hst.chunks, h.count]
  exact coupled_guard Iff.rfl fun _ => (coupled_setRow id (h.withState _)).bind_same fun _ => coupled_pure rfl

inductive SimilarStep : Step → Step → Prop
  | reply {reply reply' : Reply} (h : Similar reply reply') : SimilarStep (.reply reply) (.reply reply')
  | read (index length : Nat) : SimilarStep (.read index length) (.read index length)

theorem coupled_operation (id : FileId) (op : Option String) (data : Json) :
    Coupled (Veiled a) SimilarStep (operation id op data) (operation id op data) := by
  refine (coupled_row id).bind fun row row' h => ?_
  refine coupled_ite Iff.rfl (fun _ => ?_) fun _ => coupled_ask.bind_same fun env => ?_
  · exact (coupled_deleteFile id h).bind fun _ _ heq => coupled_pure (.reply (heq ▸ rfl))
  rw [h.lapsed, h.state, h.count]
  refine coupled_guard Iff.rfl fun _ => ?_
  refine coupled_ite Iff.rfl (fun _ => ?_) fun _ => coupled_ite Iff.rfl (fun _ => ?_) fun _ => ?_
  · exact (coupled_status id h data).bind fun _ _ heq => coupled_pure (.reply (heq ▸ rfl))
  · exact (coupled_finish id h).bind fun _ _ heq => coupled_pure (.reply (heq ▸ rfl))
  refine coupled_ite Iff.rfl (fun _ => ?_) fun _ => ?_
  · exact coupled_guard Iff.rfl fun _ => coupled_pure (.reply (congrArg Shown.description (h.shown id).symm))
  refine (coupled_lift (.of_eq rfl)).bind_same fun index => ?_
  rw [h.chunkLength]
  refine coupled_ite Iff.rfl (fun _ => ?_) fun _ => coupled_raise _
  exact coupled_guard Iff.rfl fun _ => coupled_pure (.read _ _)

theorem coupled_fileRequest (id : FileId) (data : Json) :
    Coupled (Veiled a) Similar (fileRequest user id data) (fileRequest user id data) := by
  refine (coupled_row id).bind fun row row' h => ?_
  rw [h.owner]
  refine coupled_guard Iff.rfl fun _ => coupled_guard Iff.rfl fun _ => ?_
  refine (coupled_transaction (coupled_operation id _ data)).bind fun step step' hstep => ?_
  cases hstep with
  | reply h => exact coupled_pure h
  | read index length =>
    refine (coupled_operate _).bind_same fun _ => coupled_get.bind fun st st' hst => ?_
    rw [hst.blobs]
    cases st.blobs id with
    | none => exact coupled_raise _
    | some blob => exact coupled_guard Iff.rfl fun _ => coupled_pure rfl

theorem coupled_request (setup : Setup) (huser : user ≠ a) (data : Json) :
    Coupled (Veiled a) Similar (request setup user data) (request setup user data) := by
  refine (coupled_lift (.of_eq rfl)).bind_same fun route => ?_
  cases route with
  | capabilities => exact coupled_pure rfl
  | list => exact coupled_listFiles huser data
  | put id =>
    refine coupled_ask.bind_same fun env => (coupled_flushBatch setup id fun put hput => ?_).bind_same fun outcomes => ?_
    · rw [List.mem_singleton.mp hput]
      exact huser
    · exact (coupled_forEach fun _ _ => coupled_lift (.of_eq rfl)).bind_same fun _ => coupled_pure rfl
  | putBatch id => exact (coupled_putBatch setup huser id _).mono fun _ _ heq => heq ▸ rfl
  | create => exact coupled_create huser data
  | file id => exact coupled_fileRequest id data

/-! ### Native requests of others -/

theorem coupled_commit (id : FileId) (binding : Binding) (new : List Nat) (token : Json) :
    Confined (Veiled a) (commit id binding new token) := by
  refine coupled_ask.bind_same fun env => coupled_get.bind fun st st' h => ?_
  rw [h.nativeWrites]
  refine (coupled_require _).bind_same fun lease => (coupled_ensure Iff.rfl _).bind_same fun _ => ?_
  refine (coupled_transaction (coupled_forEach fun chunk _ => coupled_insertChunk _ _ _)).bind_same fun _ => ?_
  exact (coupled_dropLease id).bind_same fun _ => coupled_pure rfl

theorem coupled_prepare (id : FileId) (binding : Binding) (new : List Nat) :
    Confined (Veiled a) (prepare id binding new) := by
  refine coupled_ask.bind_same fun env => (coupled_modify fun s s' hs => ?_).bind_same fun _ => ?_
  · exact ⟨hs.files, hs.chunks, hs.blobs, by rw [hs.nativeWrites], hs.operations⟩
  refine coupled_get.bind fun st st' h => ?_
  rw [h.nativeWrites]
  refine coupled_guard Iff.rfl fun _ => (coupled_modify fun s s' hs => ?_).bind_same fun _ => coupled_pure rfl
  exact ⟨hs.files, hs.chunks, hs.blobs, by rw [hs.nativeWrites], hs.operations⟩

theorem coupled_read {row row' : FileRow} (h : Twin a row row') (op : Option String) (data : Json) :
    Coupled (Veiled a) Eq (read row op data) (read row' op data) := by
  have hlength : row'.chunkLength = row.chunkLength := funext h.chunkLength
  have hread : read row' op data = read row op data := by
    unfold read
    rw [h.state, h.count, hlength]
  rw [hread]
  refine coupled_guard Iff.rfl fun _ => ?_
  generalize readIndices op data = value
  cases value with
  | arr items =>
    refine coupled_guard Iff.rfl fun _ => (coupled_lift (.of_eq rfl)).bind_same fun indices => ?_
    exact coupled_guard Iff.rfl fun _ =>
      coupled_ite Iff.rfl (fun _ => coupled_pure rfl) fun _ => coupled_pure rfl
  | _ => exact coupled_raise _

theorem coupled_nativeFileRequest (huser : user ≠ a) (data : Json) :
    Confined (Veiled a) (nativeFileRequest user data) := by
  refine (coupled_require _).bind_same fun id => (coupled_row id).bind fun row row' h => ?_
  refine coupled_ask.bind_same fun env => coupled_guard (by rw [h.lapsed]) fun _ => ?_
  refine coupled_ite Iff.rfl (fun _ => coupled_read h _ data) fun _ => ?_
  refine coupled_ite Iff.rfl (fun _ => coupled_raise _) fun _ => ?_
  refine coupled_guard (by rw [h.owner]) fun howner => ?_
  obtain rfl := h.eq_of_ne (by rw [not_not.mp howner]; exact huser)
  refine coupled_guard Iff.rfl fun _ => coupled_get.bind fun st st' hst => ?_
  rw [hst.chunks]
  refine (coupled_lift (.of_eq rfl)).bind_same fun chunks => ?_
  exact coupled_ite Iff.rfl (fun _ => coupled_commit _ _ _ _) fun _ => coupled_prepare _ _ _

/-! ### Cleaning up -/

theorem coupled_expireRow (id : FileId) : Confined (Veiled a) (expireRow id) := by
  refine coupled_get.bind fun st st' h => ?_
  rcases h.row id with ⟨hrow, hrow'⟩ | ⟨row, row', hrow, hrow', htwin⟩
  · rw [hrow, hrow']
    exact coupled_pure rfl
  · rw [hrow, hrow']
    refine coupled_ite (by rw [htwin.state]) (fun _ => ?_) fun _ => coupled_pure rfl
    exact coupled_setRow id (htwin.withState _)

theorem coupled_forgetRow (id : FileId) (now : Nat) : Confined (Veiled a) (forgetRow id now) := by
  refine coupled_get.bind fun st st' h => ?_
  rcases h.row id with ⟨hrow, hrow'⟩ | ⟨row, row', hrow, hrow', htwin⟩
  · rw [hrow, hrow']
    exact coupled_pure rfl
  · rw [hrow, hrow']
    refine coupled_ite ?_ (fun _ => coupled_deleteRow id) fun _ => coupled_pure rfl
    rw [FileRow.forgotten, FileRow.forgotten, htwin.state, htwin.expires]

theorem coupled_sweepRows (id : FileId) (now : Nat) : Confined (Veiled a) (sweepRows id now) := by
  refine coupled_transaction ((coupled_dropLease id).bind_same fun _ => ?_)
  refine (coupled_expireRow id).bind_same fun _ => (coupled_deleteChunks id).bind_same fun _ => ?_
  exact coupled_forgetRow id now

theorem coupled_removeOrphan (id : FileId) : Confined (Veiled a) (removeOrphan id) := by
  refine coupled_get.bind fun st st' h => coupled_ite ?_ (fun _ => coupled_unlink id) fun _ => coupled_pure rfl
  rcases h.row id with ⟨hrow, hrow'⟩ | ⟨row, row', hrow, hrow', -⟩
  · rw [hrow, hrow']
  · rw [hrow, hrow']
    simp

theorem Veiled.stale (h : Veiled a st st') (now : Nat) : st'.stale now = st.stale now := by
  have hentries := congrArg (List.map Prod.fst) (h.entries (p := fun entry =>
    decide (entry.2.expires ≤ now) || entry.2.state = .expired || entry.2.state = .deleted) fun entry => by
      have htwin := twin_conceal a entry.2
      simp only [htwin.state, htwin.expires])
  rwa [List.map_map, List.map_map] at hentries

end Requests

/-! ### Runs -/

/-- What the requests of a batch are answered. -/
def verdicts : Except StoreExn (List (Except StoreExn Unit)) → List (Except StoreExn Shown)
  | .ok outcomes => outcomes.map fun outcome => outcome.map fun _ => Reply.done.shown
  | .error error => [.error error]

/-- What the user is answered to a request. -/
def Store.answers (setup : Setup) (env : StoreEnv) (user : String) (st : Store) :
    Request → List (Except StoreExn Shown)
  | .application data => [(request setup user data env st).1.map Reply.shown]
  | .upload id chunks => [(putBatch setup user id (.binary chunks) env st).1.map Reply.shown]
  | .native data => [(nativeFileRequest user data env st).1.map Reply.shown]
  | .puts id requests =>
    verdicts (flushBatch setup id (requests.map fun entry => ⟨user, entry.1, entry.2⟩) env st).1

namespace Depot

def answers (setup : Setup) (d : Depot) (event : DepotEvent) : List (Except StoreExn Shown) :=
  match event.action with
  | .request user request => d.store.answers setup event.env user request
  | .flush id batch => verdicts (flushBatch setup id batch event.env d.store).1
  | _ => []

def transcript (setup : Setup) (d : Depot) : List DepotEvent → List (List (Except StoreExn Shown))
  | [] => []
  | event :: rest => d.answers setup event :: (d.next setup event).transcript setup rest

def withEnvelope (d : Depot) (id : FileId) (row : FileRow) (envelope : String) : Depot :=
  { d with store := { d.store with files := d.store.files.set id { row with envelope } } }

end Depot

/-- No request of the user. -/
def DepotAction.Without (a : String) : DepotAction → Prop
  | .request user _ => user ≠ a
  | .flush _ batch => ∀ put ∈ batch, put.user ≠ a
  | _ => True

section Runs

variable {a : String} {setup : Setup}

variable (setup) in
theorem answers_veiled {user : String} (huser : user ≠ a) (env : StoreEnv)
    (h : Veiled a st st') (request : Request) :
    st'.answers setup env user request = st.answers setup env user request ∧
      Veiled a (st.afterRequest setup env user request) (st'.afterRequest setup env user request) := by
  cases request with
  | application data =>
    obtain ⟨hresult, hst⟩ := coupled_request setup huser data env st st' h
    exact ⟨congrArg (fun answer => [answer]) (Matches.map_eq hresult).symm, hst⟩
  | upload id chunks =>
    obtain ⟨hresult, hst⟩ := coupled_putBatch setup huser id (.binary chunks) env st st' h
    exact ⟨by rw [Store.answers, Store.answers, hresult.eq], hst⟩
  | native data =>
    obtain ⟨hresult, hst⟩ := coupled_nativeFileRequest huser data env st st' h
    exact ⟨by rw [Store.answers, Store.answers, hresult.eq], hst⟩
  | puts id requests =>
    have husers : ∀ put ∈ requests.map fun entry => (⟨user, entry.1, entry.2⟩ : PendingPut),
        put.user ≠ a := by
      intro put hput
      obtain ⟨entry, -, rfl⟩ := List.mem_map.mp hput
      exact huser
    obtain ⟨hresult, hst⟩ := coupled_flushBatch setup id husers env st st' h
    exact ⟨congrArg verdicts hresult.eq.symm, hst⟩

structure Depot.Veiled (a : String) (d d' : Depot) : Prop where
  store : Files.Veiled a d.store d'.store
  now : d'.now = d.now
  cleaner : d'.cleaner = d.cleaner

theorem veiled_proceed {m : StoreM Unit} (hm : Confined (Veiled a) m)
    (h : Veiled a st st') (env : StoreEnv) (next : Cleaner) :
    Depot.Veiled a ⟨(m env st).2, env.now, .proceed (m env st).1 next⟩
      ⟨(m env st').2, env.now, .proceed (m env st').1 next⟩ := by
  obtain ⟨hresult, hst⟩ := hm env st st' h
  exact ⟨hst, rfl, by rw [hresult.eq]⟩

variable (setup) in
/-- A step in which the user asks for nothing answers the same and keeps the veil. -/
theorem veiled_next {d d' : Depot} (h : d.Veiled a d') {event : DepotEvent}
    (hothers : event.action.Without a) :
    d'.answers setup event = d.answers setup event ∧
      (d.next setup event).Veiled a (d'.next setup event) := by
  obtain ⟨action, env⟩ := event
  obtain ⟨hstore, hnow, hcleaner⟩ := h
  cases action with
  | request user request =>
    obtain ⟨hanswers, hst⟩ := answers_veiled setup hothers env hstore request
    exact ⟨hanswers, hst, rfl, hcleaner⟩
  | flush id batch =>
    obtain ⟨hresult, hst⟩ := coupled_flushBatch setup id hothers env _ _ hstore
    exact ⟨congrArg verdicts hresult.eq.symm, hst, rfl, hcleaner⟩
  | startCleanup =>
    refine ⟨rfl, ?_⟩
    simp only [Depot.next, hcleaner]
    cases d.cleaner with
    | idle => exact ⟨hstore, rfl, by rw [hstore.stale]⟩
    | sweeping now rest => exact ⟨hstore, rfl, rfl⟩
    | unlinked now id rest => exact ⟨hstore, rfl, rfl⟩
  | removeBlob =>
    refine ⟨rfl, ?_⟩
    simp only [Depot.next, hcleaner]
    cases d.cleaner with
    | idle => exact ⟨hstore, rfl, rfl⟩
    | sweeping now rest =>
      cases rest with
      | nil => exact ⟨hstore, rfl, rfl⟩
      | cons id rest => exact veiled_proceed (coupled_unlink id) hstore env _
    | unlinked now id rest => exact ⟨hstore, rfl, rfl⟩
  | removeRows =>
    refine ⟨rfl, ?_⟩
    simp only [Depot.next, hcleaner]
    cases d.cleaner with
    | idle => exact ⟨hstore, rfl, rfl⟩
    | sweeping now rest => exact ⟨hstore, rfl, rfl⟩
    | unlinked now id rest => exact veiled_proceed (coupled_sweepRows id now) hstore env _
  | removeOrphan id =>
    refine ⟨rfl, ?_⟩
    simp only [Depot.next, hcleaner]
    cases d.cleaner with
    | idle => exact ⟨hstore, rfl, rfl⟩
    | sweeping now rest =>
      cases rest with
      | nil => exact veiled_proceed (coupled_removeOrphan id) hstore env _
      | cons id' rest => exact ⟨hstore, rfl, rfl⟩
    | unlinked now id' rest => exact ⟨hstore, rfl, rfl⟩
  | endCleanup => exact ⟨rfl, hstore, rfl, rfl⟩
  | restart => exact ⟨rfl, ⟨hstore.files, hstore.chunks, hstore.blobs, rfl, hstore.operations⟩, rfl, rfl⟩

/-- Two stores that differ in the envelope of one file give the same answers to the requests of
everyone but its owner, in any order and with any cleaning in between. -/
theorem envelope_unobservable (d : Depot) {id : FileId} {row : FileRow}
    (hrow : d.store.files.get? id = some row) (envelope : String) (events : List DepotEvent)
    (hothers : ∀ event ∈ events, event.action.Without row.owner) :
    (d.withEnvelope id row envelope).transcript setup events = d.transcript setup events := by
  have hveiled : d.Veiled row.owner (d.withEnvelope id row envelope) := by
    refine ⟨⟨?_, rfl, rfl, rfl, rfl⟩, rfl, rfl⟩
    change d.store.files.mapValues _ = (d.store.files.set id { row with envelope }).mapValues _
    rw [Dict.mapValues_set, conceal_envelope rfl, Dict.set_of_get?_eq_some]
    rw [Dict.get?_mapValues, hrow]
    rfl
  generalize d.withEnvelope id row envelope = d' at hveiled ⊢
  clear hrow
  induction events generalizing d d' with
  | nil => rfl
  | cons event rest ih =>
    obtain ⟨hanswers, hnext⟩ := veiled_next setup hveiled (hothers event (.head _))
    rw [Depot.transcript, Depot.transcript, hanswers,
      ih (d.next setup event) (fun e he => hothers e (.tail event he)) _ hnext]

end Runs

open Sample in
theorem envelope_unobservable_conflict :
    (stocked.withEnvelope fileId ⟨"alice", 4, 61, 1, .uploading, "AAAA", "AAAA"⟩
        "BBBB").transcript setup
        [⟨.request "bob" (.application Sample.create), clock 2⟩, ⟨.startCleanup, clock 3⟩] =
      stocked.transcript setup
        [⟨.request "bob" (.application Sample.create), clock 2⟩, ⟨.startCleanup, clock 3⟩] := by
  refine envelope_unobservable stocked (by decide +kernel) "BBBB" _ fun event hevent => ?_
  simp only [List.mem_cons, List.not_mem_nil, or_false] at hevent
  rcases hevent with rfl | rfl
  · exact (by decide : "bob" ≠ "alice")
  · trivial

end CallBackend.Files
