import CallBackend.Files.Protocol

/-!
# What is in the table is in the blob

The lease ties the parts of a native upload together. A commit takes effect only while its lease is the
file's; then everything it announces has a row or has been written, and nobody is writing to the file.
Whoever writes has been given a new lease, with which no commit is under way. So a late commit either
comes upon the bytes it was sent for or is refused.
-/

namespace CallBackend.Files

open Exec Function

/-! ### What the operations do to a file -/

section Effects

variable {setup : Setup} {env : StoreEnv} {st st' : Store} {id : FileId} {user : String} {data : Json}

structure Idle (id : FileId) (st st' : Store) : Prop where
  files : (st'.files.get? id).map FileRow.size = (st.files.get? id).map FileRow.size
  chunks : st'.chunks id = st.chunks id
  blobs : st'.blobs id = st.blobs id
  leases : ∀ lease, st'.nativeWrites.get? id = some lease → st.nativeWrites.get? id = some lease

theorem idle_refl (st : Store) (id : FileId) : Idle id st st := ⟨rfl, rfl, rfl, fun _ h => h⟩

theorem purged_leases (st : Store) (now : Nanos) (lease : Lease)
    (h : (st.purged now).nativeWrites.get? id = some lease) : st.nativeWrites.get? id = some lease := by
  dsimp only [Store.purged] at h
  rw [Dict.get?_filter] at h
  exact (Option.filter_eq_some_iff.mp h).1

theorem NativeOutcome.idle {reply : Option Reply} (h : NativeOutcome env user data st reply st')
    (hother : fileId? (data.get "id") ≠ some id) : Idle id st st' := by
  cases h with
  | unchanged n _ => exact ⟨rfl, rfl, rfl, fun _ h => h⟩
  | purged => exact ⟨rfl, rfl, rfl, purged_leases st env.monotonic⟩
  | prepared haccepted =>
    rename_i own row chunks new
    have hne : own ≠ id := fun heq => hother (heq ▸ haccepted.named)
    refine ⟨rfl, rfl, rfl, fun lease hlease => ?_⟩
    dsimp only [Store.leased] at hlease
    rw [Dict.get?_set_of_ne _ _ hne] at hlease
    exact purged_leases st env.monotonic lease hlease
  | committed n haccepted _ _ =>
    rename_i own row chunks new lease _ _
    have hne : own ≠ id := fun heq => hother (heq ▸ haccepted.named)
    refine ⟨rfl, update_of_ne hne.symm _ _, rfl, fun lease hlease => ?_⟩
    dsimp only [Store.committed] at hlease
    rwa [Dict.get?_erase_of_ne _ hne] at hlease

/-- A `create` touches nothing but the file it is for, and that only if it has no row. -/
theorem create_effect (user : String) (data : Json) (env : StoreEnv) (st : Store) (id : FileId) :
    Idle id st (create user data env st).2 ∨
      ((∃ file, NewFile.parse data = .ok file ∧ file.id = id) ∧ st.files.get? id = none ∧
        (create user data env st).2.chunks id = st.chunks id ∧
        (create user data env st).2.nativeWrites.get? id = none) := by
  refine wp_final (p := fun st' : Store => Idle id st st' ∨
    ((∃ file, NewFile.parse data = .ok file ∧ file.id = id) ∧ st.files.get? id = none ∧
      st'.chunks id = st.chunks id ∧ st'.nativeWrites.get? id = none)) ?_
  refine wp_create (fun _ => .inl ⟨rfl, rfl, rfl, fun _ h => h⟩) fun file hfile hnone => ?_
  -- only this file is touched
  have heffect : ∀ st' : Store, st'.chunks = st.chunks → st'.nativeWrites = st.nativeWrites.erase file.id →
      (∀ other, other ≠ file.id → st'.files.get? other = st.files.get? other) →
      (∀ other, other ≠ file.id → st'.blobs other = st.blobs other) →
      Idle id st st' ∨ ((∃ file, NewFile.parse data = .ok file ∧ file.id = id) ∧
        st.files.get? id = none ∧ st'.chunks id = st.chunks id ∧ st'.nativeWrites.get? id = none) := by
    intro st' hchunks hleases hfiles hblobs
    by_cases hid : id = file.id
    · subst hid
      refine .inr ⟨⟨file, hfile, rfl⟩, hnone, by rw [hchunks], ?_⟩
      rw [hleases]
      exact Dict.get?_erase_self ..
    · refine .inl ⟨by rw [hfiles id hid], by rw [hchunks], hblobs id hid, fun lease hlease => ?_⟩
      rw [hleases, Dict.get?_erase_of_ne _ (Ne.symm hid)] at hlease
      exact hlease
  have hblobs : ∀ other, other ≠ file.id → update st.blobs file.id (some {}) other = st.blobs other :=
    fun other hother => update_of_ne hother _ _
  refine ⟨fun n => heffect _ rfl rfl (fun _ _ => rfl) fun _ _ => rfl, fun _ _ n => ⟨?_, fun row _ _ _ => ?_⟩⟩
  · exact heffect _ rfl rfl (fun _ _ => rfl) hblobs
  · exact heffect _ rfl rfl (fun other hother => Dict.get?_set_of_ne _ _ (Ne.symm hother)) hblobs

/-- The file has neither chunks in the table nor a lease. -/
structure Store.Cleared (st : Store) (id : FileId) : Prop where
  chunks : ∀ index, (st.chunks id).get? index = none
  lease : st.nativeWrites.get? id = none

theorem Idle.restated {row : FileRow} {state : FileState} {own : FileId} (hrow : st.files.get? own = some row)
    (n : Nat) : Idle id st { st with files := st.files.set own { row with state }, operations := n } := by
  refine ⟨?_, rfl, rfl, fun _ h => h⟩
  by_cases hid : own = id
  · subst hid
    rw [Dict.get?_set_self, hrow]
    rfl
  · rw [Dict.get?_set_of_ne _ _ hid]

theorem request_effect (user : String) (own : FileId) (data : Json) (env : StoreEnv) (st : Store) (id : FileId)
    (hdelete : (data.get "op").text? = some "delete" → ∀ n, st.operations + 2 ≤ n → env.succeeds n = true) :
    Idle id st (fileRequest user own data env st).2 ∨
      (own = id ∧ (fileRequest user own data env st).2.Cleared id) := by
  have hsame : ∀ n, Idle id st { st with operations := n } := fun n => ⟨rfl, rfl, rfl, fun _ h => h⟩
  refine wp_final (p := fun st' : Store => Idle id st st' ∨ (own = id ∧ st'.Cleared id)) (wp_fileRequest
    (.inl (idle_refl st id)) (fun _ n => .inl (hsame n)) (fun hop row _ _ => ?_)
    fun _ row hrow _ _ n => .inl (Idle.restated hrow n))
  -- a delete that fails up to the removal of the blob drops at most the lease
  have hdropped : ∀ n, Idle id st { st with nativeWrites := st.nativeWrites.erase own, operations := n } :=
    fun n => ⟨rfl, rfl, rfl, fun _ h => (Dict.get?_erase_eq_some h).2⟩
  rw [wp_transaction_iff]
  simp only [deleteFile, dropLease, setRow, unlink, deleteChunks, wp_do, wp_operate_iff]
  refine ⟨fun _ => ⟨fun _ => ⟨fun _ => ⟨fun _ => ?_, fun hfault => ?_⟩, fun hfault => ?_⟩,
    fun _ => .inl (hdropped _)⟩, fun _ => .inl (hdropped _)⟩
  · by_cases hid : own = id
    · subst hid
      refine .inr ⟨rfl, fun index => ?_, Dict.get?_erase_self ..⟩
      dsimp only
      rw [update_self]
      rfl
    · refine .inl ⟨?_, update_of_ne (Ne.symm hid) _ _, update_of_ne (Ne.symm hid) _ _,
        fun lease hlease => ?_⟩
      · dsimp only
        rw [Dict.get?_set_of_ne _ _ hid]
      · dsimp only at hlease
        rwa [Dict.get?_erase_of_ne _ hid] at hlease
  · exact absurd (hdelete hop _ (Nat.le_succ _)) hfault
  · exact absurd (hdelete hop _ le_rfl) hfault

structure Rerowed (own : FileId) (st st' : Store) : Prop where
  files : ∀ other, other ≠ own → st'.files.get? other = st.files.get? other
  chunks : st'.chunks = st.chunks
  blobs : st'.blobs = st.blobs
  leases : st'.nativeWrites = st.nativeWrites

theorem expireRow_faultless (henv : env.Faultless) (own : FileId) :
    wp (expireRow own) env st (fun _ => Rerowed own st) fun _ _ => False := by
  simp only [expireRow, wp_do]
  cases st.files.get? own with
  | none => exact ⟨fun _ _ => rfl, rfl, rfl, rfl⟩
  | some row =>
    simp only [setRow, wp_ite, wp_do]
    refine ⟨fun _ => wp_operate_faultless henv ?_, fun _ => ⟨fun _ _ => rfl, rfl, rfl, rfl⟩⟩
    exact ⟨fun other hother => Dict.get?_set_of_ne _ _ (Ne.symm hother), rfl, rfl, rfl⟩

theorem forgetRow_faultless (henv : env.Faultless) (own : FileId) (now : Nat) :
    wp (forgetRow own now) env st (fun _ => Rerowed own st) fun _ _ => False := by
  simp only [forgetRow, wp_do]
  cases st.files.get? own with
  | none => exact ⟨fun _ _ => rfl, rfl, rfl, rfl⟩
  | some row =>
    simp only [deleteRow, wp_ite, wp_do]
    refine ⟨fun _ => wp_operate_faultless henv ?_, fun _ => ⟨fun _ _ => rfl, rfl, rfl, rfl⟩⟩
    exact ⟨fun other hother => Dict.get?_erase_of_ne _ (Ne.symm hother), rfl, rfl, rfl⟩

theorem sweepRows_effect (henv : env.Faultless) (own : FileId) (now : Nat) (st : Store) (id : FileId) :
    (own ≠ id → Idle id st (sweepRows own now env st).2) ∧ (sweepRows own now env st).2.Cleared own := by
  refine wp_final (p := fun st' : Store => (own ≠ id → Idle id st st') ∧ st'.Cleared own) ?_
  refine wp_transaction_faultless henv ?_
  simp only [dropLease, deleteChunks, wp_do]
  refine wp_mono (expireRow_faultless henv own) (fun _ st₁ hst₁ => ?_) fun _ _ h => h.elim
  refine wp_operate_faultless henv ?_
  refine wp_mono (forgetRow_faultless henv own now) (fun _ st₂ hst₂ => ?_) fun _ _ h => h.elim
  have hchunks : st₂.chunks = update st.chunks own ∅ := by
    rw [hst₂.chunks, hst₁.chunks]
  have hleases : st₂.nativeWrites = st.nativeWrites.erase own := by
    rw [hst₂.leases]
    exact hst₁.leases
  refine ⟨fun hid => ⟨?_, ?_, ?_, fun lease hlease => ?_⟩, ⟨fun index => ?_, ?_⟩⟩
  · dsimp only
    rw [hst₂.files id (Ne.symm hid)]
    exact congrArg (Option.map FileRow.size) (hst₁.files id (Ne.symm hid))
  · dsimp only
    rw [hchunks, update_of_ne (Ne.symm hid)]
  · dsimp only
    rw [hst₂.blobs]
    exact congrFun hst₁.blobs id
  · dsimp only at hlease
    rwa [hleases, Dict.get?_erase_of_ne _ hid] at hlease
  · dsimp only
    rw [hchunks, update_self]
    rfl
  · dsimp only
    rw [hleases]
    exact Dict.get?_erase_self ..

theorem removeOrphan_effect (own : FileId) (env : StoreEnv) (st : Store) (id : FileId) :
    Idle id st (removeOrphan own env st).2 ∨
      (own = id ∧ st.files.get? id = none ∧ (removeOrphan own env st).2.files = st.files ∧
        (removeOrphan own env st).2.chunks = st.chunks ∧
        (removeOrphan own env st).2.nativeWrites = st.nativeWrites) := by
  refine wp_final (p := fun st' : Store => Idle id st st' ∨
    (own = id ∧ st.files.get? id = none ∧ st'.files = st.files ∧ st'.chunks = st.chunks ∧
      st'.nativeWrites = st.nativeWrites)) ?_
  simp only [removeOrphan, unlink, wp_do, wp_ite]
  refine ⟨fun hrow => wp_operate (fun n => ?_) fun n => .inl ⟨rfl, rfl, rfl, fun _ h => h⟩,
    fun _ => .inl (idle_refl st id)⟩
  by_cases hid : own = id
  · subst hid
    exact .inr ⟨rfl, hrow, rfl, rfl, rfl⟩
  · exact .inl ⟨rfl, rfl, update_of_ne (Ne.symm hid) _ _, fun _ h => h⟩

end Effects

/-! ### The invariants -/

structure Net.Exclusive (net : Net) : Prop where
  transfers : ∀ (n m : Nat) (transfer other : Transfer), net.transfers[n]? = some transfer →
    net.transfers[m]? = some other → transfer.live = true → other.live = true →
    stripe transfer.id = stripe other.id → n = m
  puts : ∀ (p q : Nat) (put other : Put), net.puts[p]? = some put → net.puts[q]? = some other →
    put.live = true → other.live = true → stripe put.id = stripe other.id → p = q
  apart : ∀ (n p : Nat) (transfer : Transfer) (put : Put), net.transfers[n]? = some transfer →
    net.puts[p]? = some put → transfer.live = true → put.live = true → stripe transfer.id ≠ stripe put.id

structure Net.Drawn (net : Net) : Prop where
  messages : ∀ n lease, .commit n lease ∈ net.messages → n < net.transfers.length ∧ lease ∈ net.issued
  leases : ∀ id lease, net.store.nativeWrites.get? id = some lease → lease.token ∈ net.issued
  writing : ∀ (n : Nat) (transfer : Transfer) lease rest, net.transfers[n]? = some transfer →
    transfer.phase = .writing lease rest → lease ∈ net.issued

def Store.Leased (st : Store) (id : FileId) (token : String) : Prop :=
  ∃ lease, st.nativeWrites.get? id = some lease ∧ lease.token = token

def Net.Pending (net : Net) (id : FileId) (transfer : Transfer) : Prop :=
  ∃ n token, .commit n token ∈ net.messages ∧ net.transfers[n]? = some transfer ∧ transfer.id = id ∧
    net.store.Leased id token

/-- A transfer that writes: what it has left has no row, and as long as its lease is the file's,
everything else has a row or has been written. -/
structure Underway (st : Store) (transfer : Transfer) (lease : String) (rest : List (Nat × Bytes)) : Prop where
  distinct : (transfer.chunks.map Prod.fst).Nodup
  sized : ∀ chunk ∈ transfer.chunks, chunk.2.length ≤ chunkSize + chunkOverhead
  planned : rest.Sublist transfer.chunks
  unindexed : ∀ chunk ∈ rest, (st.chunks transfer.id).get? chunk.1 = none
  written : st.Leased transfer.id lease → ∀ chunk ∈ transfer.chunks,
    (st.chunks transfer.id).get? chunk.1 ≠ none ∨ chunk ∈ rest ∨ st.Holds transfer.id chunk.1 chunk.2

structure Putting (setup : Setup) (st : Store) (put : Put) : Prop where
  row : (st.files.get? put.id).map FileRow.size = some put.row.size
  fits : put.writes.Fits setup put.row
  rest : put.rest.Nodup ∧ put.rest ⊆ put.writes.entries
  written : ∀ entry ∈ put.writes.entries, entry ∈ put.rest ∨ st.Holds put.id entry.1 entry.2.1

structure Net.Intact (setup : Setup) (net : Net) (id : FileId) : Prop where
  matched : net.store.Matched setup id
  pending : ∀ transfer, net.Pending id transfer → net.store.files.get? id ≠ none →
    ∀ chunk ∈ transfer.chunks, chunk.2.length ≤ chunkSize + chunkOverhead ∧
      ((net.store.chunks id).get? chunk.1 ≠ none ∨ net.store.Holds id chunk.1 chunk.2)
  writing : ∀ (n : Nat) (transfer : Transfer) lease rest, net.transfers[n]? = some transfer → transfer.id = id →
    transfer.phase = .writing lease rest →
      Underway net.store transfer lease rest ∧ ∀ other, ¬net.Pending id other
  putting : ∀ put ∈ net.puts, put.id = id → put.live = true → Putting setup net.store put

def Grown (id : FileId) (st st' : Store) : Prop :=
  ∀ index digest, (st.chunks id).get? index = some digest → (st'.chunks id).get? index = some digest ∧
    (st'.files.get? id).map FileRow.size = (st.files.get? id).map FileRow.size ∧
    ∀ content, content.length ≤ chunkSize + chunkOverhead → st.Holds id index content →
      st'.Holds id index content

/-! ### Steps that leave a file alone -/

section Frames

variable {setup : Setup} {net net' : Net} {id : FileId} {st st' : Store}

theorem FileRow.chunkLength_congr {row row' : FileRow} (h : row.size = row'.size) (index : Nat) :
    row.chunkLength index = row'.chunkLength index := by
  rw [FileRow.chunkLength, FileRow.chunkLength, h]

theorem Idle.matched (h : Idle id st st') (hmatched : st.Matched setup id) : st'.Matched setup id := by
  intro index digest hchunk
  rw [h.chunks] at hchunk
  obtain ⟨row, file, content, hrow, hfile, hlength, hread, hsha⟩ := hmatched index digest hchunk
  have hsize := h.files
  rw [hrow, Option.map_some, Option.map_eq_some_iff] at hsize
  obtain ⟨row', hrow', hsize⟩ := hsize
  exact ⟨row', file, content, hrow', h.blobs.trans hfile,
    hlength.trans (FileRow.chunkLength_congr hsize.symm index), hread, hsha⟩

theorem Idle.grown (h : Idle id st st') : Grown id st st' := by
  intro index digest hchunk
  exact ⟨by rw [h.chunks]; exact hchunk, h.files, fun content _ hheld => hheld.congr h.blobs⟩

theorem Grown.trans {st₁ st₂ : Store} (h : Grown id st st₁) (h' : Grown id st₁ st₂) : Grown id st st₂ := by
  intro index digest hchunk
  obtain ⟨hchunk₁, hfiles₁, hheld₁⟩ := h index digest hchunk
  obtain ⟨hchunk₂, hfiles₂, hheld₂⟩ := h' index digest hchunk₁
  exact ⟨hchunk₂, hfiles₂.trans hfiles₁,
    fun content hsize hheld => hheld₂ content hsize (hheld₁ content hsize hheld)⟩

theorem Idle.files_ne_none (h : Idle id st st') (hrow : st'.files.get? id ≠ none) : st.files.get? id ≠ none := by
  intro hnone
  have hsize := h.files
  rw [hnone, Option.map_none, Option.map_eq_none_iff] at hsize
  exact hrow hsize

theorem Idle.leased (h : Idle id st st') {token : String} (hleased : st'.Leased id token) : st.Leased id token := by
  obtain ⟨lease, hlease, htoken⟩ := hleased
  exact ⟨lease, h.leases lease hlease, htoken⟩

def Kin (id : FileId) (old new : List Transfer) : Prop :=
  ∀ (n : Nat) (transfer : Transfer), new[n]? = some transfer → transfer.id = id →
    ∃ before : Transfer, old[n]? = some before ∧ before.id = id ∧ before.chunks = transfer.chunks

theorem kin_refl (id : FileId) (transfers : List Transfer) : Kin id transfers transfers :=
  fun _ transfer h hid => ⟨transfer, h, hid, rfl⟩

variable {before transfer : Transfer}

theorem kin_set {transfers : List Transfer} {n : Nat}
    (hbefore : transfers[n]? = some before) (hid : before.id = transfer.id)
    (hchunks : before.chunks = transfer.chunks) : Kin id transfers (transfers.set n transfer) := by
  intro m other hother hother'
  rcases System.lookup_set hbefore hother with ⟨rfl, rfl⟩ | ⟨-, hsame⟩
  · exact ⟨before, hbefore, hid.trans hother', hchunks⟩
  · exact ⟨other, hsame, hother', rfl⟩

def Follows (id : FileId) (old new : List Transfer) : Prop :=
  ∀ (n : Nat) (transfer : Transfer) (lease : String) (rest : List (Nat × Bytes)), new[n]? = some transfer →
    transfer.id = id → transfer.phase = .writing lease rest → ∃ before : Transfer, old[n]? = some before ∧
      before.id = id ∧ before.chunks = transfer.chunks ∧ before.phase = .writing lease rest

theorem follows_refl (id : FileId) (transfers : List Transfer) : Follows id transfers transfers :=
  fun _ transfer _ _ h hid hphase => ⟨transfer, h, hid, rfl, hphase⟩

theorem follows_set {transfers : List Transfer} {n : Nat}
    (hbefore : transfers[n]? = some before)
    (hphase : transfer.id = id → ∀ lease rest, transfer.phase = .writing lease rest →
      before.id = id ∧ before.chunks = transfer.chunks ∧ before.phase = .writing lease rest) :
    Follows id transfers (transfers.set n transfer) := by
  intro m other lease rest hother hid hwriting
  rcases System.lookup_set hbefore hother with ⟨rfl, rfl⟩ | ⟨-, hsame⟩
  · exact ⟨before, hbefore, hphase hid lease rest hwriting⟩
  · exact ⟨other, hsame, hid, rfl, hwriting⟩

def Settles (id : FileId) (net net' : Net) : Prop :=
  ∀ transfer, net'.Pending id transfer → ∃ before, net.Pending id before ∧ before.chunks = transfer.chunks

theorem settles_of (htransfers : Kin id net.transfers net'.transfers)
    (hmessages : ∀ n token, .commit n token ∈ net'.messages → .commit n token ∈ net.messages)
    (hleases : ∀ token, net'.store.Leased id token → net.store.Leased id token) : Settles id net net' := by
  rintro transfer ⟨n, token, hcommit, htransfer, hid, hleased⟩
  obtain ⟨before, hbefore, hbeforeId, hchunks⟩ := htransfers n transfer htransfer hid
  exact ⟨before, ⟨n, token, hmessages n token hcommit, hbefore, hbeforeId, hleases token hleased⟩, hchunks⟩

theorem Settles.quiet (h : Settles id net net') (hquiet : ∀ transfer, ¬net.Pending id transfer)
    (transfer : Transfer) : ¬net'.Pending id transfer := by
  intro hpending
  obtain ⟨before, hbefore, -⟩ := h transfer hpending
  exact hquiet before hbefore

theorem Idle.underway {transfer : Transfer} {lease : String} {rest : List (Nat × Bytes)}
    (hidle : Idle transfer.id st st') (h : Underway st transfer lease rest) : Underway st' transfer lease rest := by
  refine ⟨h.distinct, h.sized, h.planned, fun chunk hmem => ?_, fun hleased chunk hmem => ?_⟩
  · rw [hidle.chunks]
    exact h.unindexed chunk hmem
  · rw [hidle.chunks]
    rcases h.written (hidle.leased hleased) chunk hmem with hrow | hrest | hheld
    · exact .inl hrow
    · exact .inr (.inl hrest)
    · exact .inr (.inr (hheld.congr hidle.blobs))

theorem Underway.congr {transfer other : Transfer} {lease : String} {rest : List (Nat × Bytes)}
    (h : Underway st transfer lease rest) (hid : transfer.id = other.id) (hchunks : transfer.chunks = other.chunks) :
    Underway st other lease rest := by
  obtain ⟨user, id, chunks, phase⟩ := other
  cases hid
  cases hchunks
  exact ⟨h.distinct, h.sized, h.planned, h.unindexed, h.written⟩

theorem Idle.putting {put : Put} (hidle : Idle put.id st st') (h : Putting setup st put) : Putting setup st' put := by
  refine ⟨hidle.files.trans h.row, h.fits, h.rest, fun entry hmem => ?_⟩
  rcases h.written entry hmem with hrest | hheld
  · exact .inl hrest
  · exact .inr (hheld.congr hidle.blobs)

theorem Net.Intact.frame (h : net.Intact setup id) (hidle : Idle id net.store net'.store)
    (htransfers : Follows id net.transfers net'.transfers) (hsettles : Settles id net net')
    (hputs : ∀ put ∈ net'.puts, put.id = id → put.live = true → put ∈ net.puts) : net'.Intact setup id where
  matched := hidle.matched h.matched
  pending := by
    intro transfer hpending hrow chunk hmem
    obtain ⟨before, hbefore, hchunks⟩ := hsettles transfer hpending
    rw [← hchunks] at hmem
    obtain ⟨hsize, hheld⟩ := h.pending before hbefore (hidle.files_ne_none hrow) chunk hmem
    rw [hidle.chunks]
    exact ⟨hsize, hheld.imp_right fun hheld => hheld.congr hidle.blobs⟩
  writing := by
    intro n transfer lease rest htransfer hid hphase
    obtain ⟨before, hbefore, hbeforeId, hchunks, hwriting⟩ := htransfers n transfer lease rest htransfer hid hphase
    obtain ⟨hunderway, hquiet⟩ := h.writing n before lease rest hbefore hbeforeId hwriting
    have hidle' : Idle transfer.id net.store net'.store := by rwa [hid]
    refine ⟨hidle'.underway (hunderway.congr (hbeforeId.trans hid.symm) hchunks), fun other hpending => ?_⟩
    obtain ⟨_, hbefore, -⟩ := hsettles other hpending
    exact hquiet _ hbefore
  putting := by
    intro put hmem hid hlive
    have hidle' : Idle put.id net.store net'.store := by rwa [hid]
    exact hidle'.putting (h.putting put (hputs put hmem hid hlive) hid hlive)

structure Holders (net net' : Net) : Prop where
  transfers : ∀ (n : Nat) (transfer : Transfer), net'.transfers[n]? = some transfer → transfer.live = true →
    ∃ before, net.transfers[n]? = some before ∧ before.id = transfer.id ∧ before.live = true
  puts : ∀ (p : Nat) (put : Put), net'.puts[p]? = some put → put.live = true →
    ∃ before, net.puts[p]? = some before ∧ before.id = put.id ∧ before.live = true

theorem Holders.trans {net₁ net₂ : Net} (h : Holders net net₁) (h' : Holders net₁ net₂) : Holders net net₂ where
  transfers := by
    intro n transfer htransfer hlive
    obtain ⟨between, hbetween, hid, hlive'⟩ := h'.transfers n transfer htransfer hlive
    obtain ⟨before, hbefore, hid', hlive''⟩ := h.transfers n between hbetween hlive'
    exact ⟨before, hbefore, hid'.trans hid, hlive''⟩
  puts := by
    intro p put hput hlive
    obtain ⟨between, hbetween, hid, hlive'⟩ := h'.puts p put hput hlive
    obtain ⟨before, hbefore, hid', hlive''⟩ := h.puts p between hbetween hlive'
    exact ⟨before, hbefore, hid'.trans hid, hlive''⟩

theorem Net.Exclusive.frame (h : net.Exclusive) (hholders : Holders net net') : net'.Exclusive where
  transfers := by
    intro n m transfer other htransfer hother hlive hlive' hstripe
    obtain ⟨before, hbefore, hid, hl⟩ := hholders.transfers n transfer htransfer hlive
    obtain ⟨before', hbefore', hid', hl'⟩ := hholders.transfers m other hother hlive'
    rw [← hid, ← hid'] at hstripe
    exact h.transfers n m before before' hbefore hbefore' hl hl' hstripe
  puts := by
    intro p q put other hput hother hlive hlive' hstripe
    obtain ⟨before, hbefore, hid, hl⟩ := hholders.puts p put hput hlive
    obtain ⟨before', hbefore', hid', hl'⟩ := hholders.puts q other hother hlive'
    rw [← hid, ← hid'] at hstripe
    exact h.puts p q before before' hbefore hbefore' hl hl' hstripe
  apart := by
    intro n p transfer put htransfer hput hlive hlive'
    obtain ⟨before, hbefore, hid, hl⟩ := hholders.transfers n transfer htransfer hlive
    obtain ⟨before', hbefore', hid', hl'⟩ := hholders.puts p put hput hlive'
    rw [← hid, ← hid']
    exact h.apart n p before before' hbefore hbefore' hl hl'

theorem holders_set {n : Nat} (hbefore : net.transfers[n]? = some before)
    (htransfers : net'.transfers = net.transfers.set n transfer) (hputs : net'.puts = net.puts)
    (hid : before.id = transfer.id) (hlive : transfer.live = true → before.live = true) :
    Holders net net' := by
  refine ⟨fun m other hother hl => ?_, fun p put hput hl => ⟨put, by rwa [hputs] at hput, rfl, hl⟩⟩
  rw [htransfers] at hother
  rcases System.lookup_set hbefore hother with ⟨rfl, rfl⟩ | ⟨-, hsame⟩
  · exact ⟨before, hbefore, hid, hlive hl⟩
  · exact ⟨other, hsame, rfl, hl⟩

theorem holders_setPut {p : Nat} {before put : Put} (hbefore : net.puts[p]? = some before)
    (htransfers : net'.transfers = net.transfers) (hputs : net'.puts = net.puts.set p put)
    (hid : before.id = put.id) (hlive : put.live = true → before.live = true) :
    Holders net net' := by
  refine ⟨fun n transfer htransfer hl => ⟨transfer, by rwa [htransfers] at htransfer, rfl, hl⟩,
    fun q other hother hl => ?_⟩
  rw [hputs] at hother
  rcases System.lookup_set hbefore hother with ⟨rfl, rfl⟩ | ⟨-, hsame⟩
  · exact ⟨before, hbefore, hid, hlive hl⟩
  · exact ⟨other, hsame, rfl, hl⟩

theorem holders_same (htransfers : net'.transfers = net.transfers) (hputs : net'.puts = net.puts) :
    Holders net net' :=
  ⟨fun n transfer htransfer hl => ⟨transfer, by rwa [htransfers] at htransfer, rfl, hl⟩,
    fun p put hput hl => ⟨put, by rwa [hputs] at hput, rfl, hl⟩⟩

theorem Net.Drawn.frame (h : net.Drawn) (hlength : net.transfers.length ≤ net'.transfers.length)
    (hmessages : ∀ n token, .commit n token ∈ net'.messages → .commit n token ∈ net.messages)
    (hleases : ∀ id lease, net'.store.nativeWrites.get? id = some lease →
      net.store.nativeWrites.get? id = some lease)
    (hwriting : ∀ (n : Nat) (transfer : Transfer) lease rest, net'.transfers[n]? = some transfer →
      transfer.phase = .writing lease rest → lease ∈ net.issued)
    (hissued : net'.issued = net.issued) : net'.Drawn where
  messages := by
    intro n lease hcommit
    obtain ⟨hlt, hdrawn⟩ := h.messages n lease (hmessages n lease hcommit)
    rw [hissued]
    exact ⟨hlt.trans_le hlength, hdrawn⟩
  leases := by
    intro id lease hlease
    rw [hissued]
    exact h.leases id lease (hleases id lease hlease)
  writing := by
    rw [hissued]
    exact hwriting

end Frames

end CallBackend.Files
