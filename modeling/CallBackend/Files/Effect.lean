import CallBackend.Files.Store
import Mathlib.Logic.Relation

/-!
# What a request changes

Whatever an operation of the store does, it does by a few kinds of changes, each made by a user to a
file that is that user's or that has no row. A transaction that fails leaves the tables alone, so that
a change of a table is always one that has been committed. Every invariant of the store is read off
this list.
-/

namespace CallBackend.Files

open Exec Function

def Mine (files : FileTable) (user : String) (id : FileId) : Prop :=
  ∀ row, files.get? id = some row → row.owner = user

/-- The file is an upload of the user that has not expired. -/
structure Store.Uploads (st : Store) (now : Nanos) (user : String) (id : FileId) (row : FileRow) :
    Prop where
  stored : st.files.get? id = some row
  owner : row.owner = user
  state : row.state = .uploading
  live : row.lapsed now = false

structure HasRoom (files : FileTable) (clock : Nat) (user : String) (size : Nat) : Prop where
  links : number files (fun row => row.owner = user && row.active && clock < row.expires) <
    maxActiveFilesPerOwner
  active : number files FileRow.active < maxFiles
  owned : number files (fun row => row.owner = user && row.state ≠ .deleted) < maxFilesPerOwner
  bytes : total files FileRow.active + size ≤ globalQuota
  ownBytes : total files (fun row => row.owner = user && row.active) + size ≤ ownerQuota

/-- One change of the store on behalf of a user. Only `put` operations write chunks. -/
inductive Change (env : StoreEnv) (user : String) (puts : Prop) : Store → Store → Prop
  | operated (st : Store) (n : Nat) : Change env user puts st { st with operations := n }
  | released {st : Store} {id : FileId} : Mine st.files user id →
      Change env user puts st { st with nativeWrites := st.nativeWrites.erase id }
  | created {st : Store} {id : FileId} : st.files.get? id = none → st.blobs id = none →
      Change env user puts st { st with blobs := update st.blobs id (some {}) }
  | inserted {st : Store} {id : FileId} {row : FileRow} : st.files.get? id = none →
      row.owner = user → row.state = .uploading → HasRoom st.files env.clock user row.size →
      Change env user puts st { st with files := st.files.set id row }
  | removed {st : Store} {id : FileId} : Mine st.files user id →
      Change env user puts st { st with blobs := update st.blobs id none }
  | deleted {st : Store} {id : FileId} {row : FileRow} : st.files.get? id = some row →
      row.owner = user → Change env user puts st { st with
        files := st.files.set id { row with state := .deleted }
        chunks := update st.chunks id ∅ }
  | finished {st : Store} {id : FileId} {row : FileRow} : st.files.get? id = some row →
      row.owner = user → row.active = true →
      Change env user puts st { st with files := st.files.set id { row with state := .ready } }
  | written {st : Store} {id : FileId} {blob : Option Blob} : puts → Mine st.files user id →
      Change env user puts st { st with blobs := update st.blobs id blob }
  | added {st : Store} {id : FileId} {chunks : Dict Nat Digest} : puts → Mine st.files user id →
      Change env user puts st { st with chunks := update st.chunks id chunks }

abbrev Changes (env : StoreEnv) (user : String) (puts : Prop) : Store → Store → Prop :=
  Relation.ReflTransGen (Change env user puts)

def StoreEnv.Faultless (env : StoreEnv) : Prop := ∀ n, env.succeeds n = true

/-! ### Rules for the operations -/

section Rules

variable {α : Type} {env : StoreEnv} {st : Store} {post : α → Store → Prop} {onFail : StoreExn → Store → Prop}

theorem wp_operate_iff {error : StoreExn} {post : Unit → Store → Prop} :
    wp (operate error) env st post onFail ↔
      (env.succeeds st.operations = true → post () { st with operations := st.operations + 1 }) ∧
        (¬env.succeeds st.operations = true → onFail error { st with operations := st.operations + 1 }) := by
  simp only [operate, wp_do, wp_ensure]

theorem wp_operate {error : StoreExn} {post : Unit → Store → Prop}
    (hpost : ∀ n, post () { st with operations := n })
    (hfail : ∀ n, onFail error { st with operations := n }) : wp (operate error) env st post onFail :=
  wp_operate_iff.2 ⟨fun _ => hpost _, fun _ => hfail _⟩

/-- The last operation of a transaction is its commit. -/
theorem wp_transaction_iff {m : StoreM α} :
    wp (transaction m) env st post onFail ↔
      wp m env st (fun a st' => wp (operate .databaseError) env st' (fun _ => post a)
          fun e st'' => onFail e (st''.rolledBack st))
        fun e st' => onFail e (st'.rolledBack st) := by
  simp only [transaction, wp_do, wp_rescue]

theorem wp_transaction {m : StoreM α}
    (h : wp m env st (fun a st' => (∀ n, post a { st' with operations := n }) ∧
        ∀ n, onFail .databaseError (Store.rolledBack { st' with operations := n } st))
      fun e st' => onFail e (st'.rolledBack st)) :
    wp (transaction m) env st post onFail :=
  wp_transaction_iff.2 (wp_mono h (fun _ _ h => wp_operate h.1 h.2) fun _ _ h => h)

theorem wp_operate_faultless {error : StoreExn} {post : Unit → Store → Prop} (henv : env.Faultless)
    (hpost : post () { st with operations := st.operations + 1 }) :
    wp (operate error) env st post onFail :=
  wp_operate_iff.2 ⟨fun _ => hpost, fun hfail => absurd (henv _) hfail⟩

theorem wp_transaction_faultless {m : StoreM α} (henv : env.Faultless)
    (h : wp m env st (fun a st' => post a { st' with operations := st'.operations + 1 })
      fun e st' => onFail e (st'.rolledBack st)) :
    wp (transaction m) env st post onFail :=
  wp_transaction_iff.2 (wp_mono h (fun _ _ h => wp_operate_faultless henv h) fun _ _ h => h)

theorem wp_row_stored {id : FileId} {row : FileRow} {post : FileRow → Store → Prop}
    (hid : idPattern id = true) (hrow : st.files.get? id = some row) (hstate : row.state ≠ .deleted)
    (hpost : post row st) : wp (Files.row id) env st post onFail := by
  simp only [Files.row, wp_do, wp_ensure]
  refine ⟨fun _ => ?_, fun h => absurd hid h⟩
  rw [hrow]
  simp only [if_neg hstate, wp_pure]
  exact hpost

theorem wp_row {id : FileId} {post : FileRow → Store → Prop}
    (hpost : ∀ row, st.files.get? id = some row → row.state ≠ .deleted → post row st)
    (hfail : ∀ e, onFail e st) : wp (row id) env st post onFail := by
  simp only [row, fail, wp_do, wp_ensure]
  refine ⟨fun _ => ?_, fun _ => hfail _⟩
  cases hrow : st.files.get? id with
  | none => exact hfail _
  | some row =>
    simp only [wp_ite, wp_do]
    exact ⟨fun _ => hfail _, hpost row hrow⟩

end Rules

/-! ### Requests -/

section Requests

variable {env : StoreEnv} {user : String} {puts : Prop} {st : Store}

def Makes (env : StoreEnv) (user : String) (puts : Prop) (st : Store) {α : Type} (m : StoreM α) : Prop :=
  wp m env st (fun _ => Changes env user puts st) fun _ => Changes env user puts st

def Commits (env : StoreEnv) (user : String) (puts : Prop) (st : Store) {α : Type} (m : StoreM α) : Prop :=
  wp m env st
    (fun _ st' => (∀ n, Changes env user puts st { st' with operations := n }) ∧
      ∀ n, Changes env user puts st (Store.rolledBack { st' with operations := n } st))
    fun _ st' => Changes env user puts st (st'.rolledBack st)

theorem Commits.makes {α : Type} {m : StoreM α} (h : Commits env user puts st m) :
    Makes env user puts st (transaction m) := wp_transaction h

variable {id : FileId} {row : FileRow}

theorem mine_of_row (hrow : st.files.get? id = some row) (howner : row.owner = user) :
    Mine st.files user id := by
  intro other hother
  rw [hrow, Option.some.injEq] at hother
  rw [← hother, howner]

theorem wp_checkQuotas {size : Nat} {post : Unit → Store → Prop} {onFail : StoreExn → Store → Prop}
    (hpost : HasRoom st.files env.clock user size → post () st) (hfail : ∀ e, onFail e st) :
    wp (checkQuotas user size) env st post onFail := by
  simp only [checkQuotas, fail, wp_do, wp_ite]
  refine ⟨fun _ => hfail _, fun hactive => ⟨fun _ => hfail _, fun hrest => ?_⟩⟩
  push Not at hrest
  exact hpost ⟨Nat.lt_of_not_le hactive, hrest.1, hrest.2.1, hrest.2.2.1, hrest.2.2.2⟩

def Store.opened (st : Store) (id : FileId) (files : FileTable) (n : Nat) : Store :=
  { st with
    files
    nativeWrites := st.nativeWrites.erase id
    blobs := update st.blobs id (some {})
    operations := n }

/-- Where a `create` ends: with the store as it was, or without the lease, or with the new blob as
well, or with the new row, too. -/
theorem wp_create {data : Json} {p : Store → Prop} (hsame : ∀ n, p { st with operations := n })
    (hnew : ∀ file, NewFile.parse data = .ok file → st.files.get? file.id = none →
      (∀ n, p { st with nativeWrites := st.nativeWrites.erase file.id, operations := n }) ∧
        (HasRoom st.files env.clock user file.size → st.blobs file.id = none → ∀ n,
          p (st.opened file.id st.files n) ∧
          ∀ row : FileRow, row.owner = user → row.state = .uploading → row.size = file.size →
            p (st.opened file.id (st.files.set file.id row) n))) :
    wp (create user data) env st (fun _ => p) fun _ => p := by
  simp only [create, wp_bind, wp_lift]
  refine ⟨fun file hfile => wp_transaction ?_, fun _ _ => hsame st.operations⟩
  simp only [wp_do, wp_ite]
  refine ⟨fun _ => ?_, fun hfree => ?_⟩
  · refine wp_row (fun row _ _ => ?_) fun _ => hsame st.operations
    simp only [fail, wp_raise]
    exact ⟨fun _ => hsame st.operations, fun _ => ⟨hsame, hsame⟩⟩
  · obtain ⟨hdropped, hmade⟩ := hnew file hfile (by simpa using hfree)
    refine wp_checkQuotas (fun hroom => ?_) fun _ => hsame st.operations
    simp only [dropLease, createBlob, setRow, wp_do, wp_ensure]
    refine wp_operate (fun n => ⟨fun hblob => ?_, fun _ => hdropped n⟩) hdropped
    have hopened : ∀ n, p (st.opened file.id st.files n) := fun n => (hmade hroom hblob n).1
    refine wp_operate (fun n => wp_operate (fun n => ?_) hopened) hopened
    exact wp_row (fun _ _ _ => ⟨fun n => (hmade hroom hblob n).2 _ rfl rfl rfl, hopened⟩) fun _ => hopened n

theorem makes_create (data : Json) : Makes env user puts st (create user data) := by
  refine wp_create (fun n => .single (.operated st n)) fun file _ hnone => ?_
  have hmine : Mine st.files user file.id := fun row hrow => by simp [hnone] at hrow
  have hreleased : Changes env user puts st { st with nativeWrites := st.nativeWrites.erase file.id } :=
    .single (.released hmine)
  refine ⟨fun n => hreleased.tail (.operated _ n), fun hroom hblob n => ?_⟩
  have hopened : Changes env user puts st (st.opened file.id st.files n) :=
    (hreleased.tail (.created hnone hblob)).tail (.operated _ n)
  exact ⟨hopened, fun row howner hstate hsize =>
    hopened.tail (.inserted hnone howner hstate (hsize ▸ hroom))⟩

theorem commits_deleteFile (hrow : st.files.get? id = some row) (howner : row.owner = user) :
    Commits env user puts st (deleteFile id row) := by
  have hmine : Mine st.files user id := mine_of_row hrow howner
  have hreleased : Changes env user puts st { st with nativeWrites := st.nativeWrites.erase id } :=
    .single (.released hmine)
  unfold Commits
  simp only [deleteFile, dropLease, setRow, unlink, deleteChunks, wp_do]
  refine wp_operate (fun n => ?_) fun n => hreleased.tail (.operated _ n)
  have hreleased := hreleased.tail (.operated _ n)
  refine wp_operate (fun n => ?_) fun n => hreleased.tail (.operated _ n)
  have hremoved := (hreleased.tail (.operated _ n)).tail (.removed hmine)
  refine wp_operate (fun n => ⟨fun k => ?_, fun k => hremoved.tail (.operated _ k)⟩)
    fun n => hremoved.tail (.operated _ n)
  exact (hremoved.tail (.operated _ k)).tail (.deleted hrow howner)

theorem active_of_not_lapsed {now : Nanos} (hdeleted : row.state ≠ .deleted)
    (hlapsed : ¬row.lapsed now = true) : row.active = true := by
  cases hstate : row.state with
  | uploading | ready => simp [FileRow.active, hstate]
  | expired => simp [FileRow.lapsed, hstate] at hlapsed
  | deleted => exact absurd hstate hdeleted

/-- What the transaction of a request leaves: only a request for a chunk goes on behind it. -/
def Step.Ends (p : Store → Prop) : Step → Store → Prop
  | .reply _, st => p st
  | .read _ _, st => ∀ n, p { st with operations := n }

/-- Where a request for a file ends: with the store as it was, unless it is a `delete` or a `finish`. -/
theorem wp_fileRequest {data : Json} {p : Store → Prop} (hrefused : p st)
    (hsame : (data.get "op").text? ≠ some "delete" → ∀ n, p { st with operations := n })
    (hdelete : (data.get "op").text? = some "delete" → ∀ row, st.files.get? id = some row →
      row.owner = user → wp (transaction (deleteFile id row)) env st (fun _ => p) fun _ => p)
    (hfinish : (data.get "op").text? = some "finish" → ∀ row, st.files.get? id = some row →
      row.owner = user → row.active = true →
      ∀ n, p { st with files := st.files.set id { row with state := .ready }, operations := n }) :
    wp (fileRequest user id data) env st (fun _ => p) fun _ => p := by
  simp only [fileRequest, wp_bind]
  refine wp_row (fun row hrow _ => ?_) fun _ => hrefused
  simp only [fail, wp_ite, wp_do]
  refine ⟨fun _ => hrefused, fun hdenied => ⟨fun _ => hrefused, fun _ => ?_⟩⟩
  have howner : ∀ {op}, (data.get "op").text? = some op → op ≠ "info" → op ≠ "get" → row.owner = user := by
    intro op hop hinfo hget
    by_contra hother
    exact hdenied ⟨by simpa [hop] using hinfo, by simpa [hop] using hget, hother⟩
  have hoperation : wp (transaction (operation id (data.get "op").text? data)) env st (Step.Ends p)
      fun _ => p := by
    rw [wp_transaction_iff]
    simp only [operation, wp_bind]
    refine wp_row (fun found hfound hdeleted => ?_) fun _ => hrefused
    obtain rfl : row = found := Option.some.inj (hrow.symm.trans hfound)
    simp only [fail, wp_ite, wp_do, wp_lift]
    refine ⟨fun hop => ?_, fun hop => ⟨fun _ => hrefused, fun hlapsed => ?_⟩⟩
    · exact wp_transaction_iff.1 (hdelete hop row hrow (howner hop (by decide) (by decide)))
    have hsame := hsame hop
    refine ⟨fun _ => ?_, fun _ => ⟨fun hop => ?_, fun _ => ⟨fun _ => ⟨fun _ => hrefused, fun _ =>
      wp_operate hsame hsame⟩, fun _ => ⟨fun index _ => ?_, fun _ _ => hrefused⟩⟩⟩⟩
    · simp only [status, wp_do, wp_lift]
      exact ⟨fun _ _ => wp_operate hsame hsame, fun _ _ => hrefused⟩
    · simp only [finish, fail, setRow, wp_do, wp_ite]
      have hready := hfinish hop row hrow (howner hop (by decide) (by decide))
        (active_of_not_lapsed hdeleted hlapsed)
      exact ⟨fun _ => hrefused, fun _ => wp_operate (fun _ => wp_operate hready hsame) hsame⟩
    · exact ⟨fun _ => ⟨fun _ => hrefused, fun _ => wp_operate (fun _ => hsame) hsame⟩, fun _ => hrefused⟩
  refine wp_mono hoperation (fun step st' hst' => ?_) fun _ _ h => h
  cases step with
  | reply reply => exact hst'
  | read index length =>
    simp only [wp_do]
    refine wp_operate (fun n => ?_) hst'
    cases st'.blobs id with
    | none => exact hst' n
    | some blob =>
      simp only [wp_ite, wp_do]
      exact ⟨fun _ => hst' n, fun _ => hst' n⟩

theorem makes_fileRequest (id : FileId) (data : Json) :
    Makes env user puts st (fileRequest user id data) := by
  refine wp_fileRequest .refl (fun _ n => .single (.operated st n)) (fun _ row hrow howner => ?_)
    fun _ row hrow howner hactive n => ?_
  · exact (commits_deleteFile hrow howner).makes
  · have hfinished : Changes env user puts st
        { st with files := st.files.set id { row with state := .ready } } :=
      .single (.finished hrow howner hactive)
    exact hfinished.tail (.operated _ n)

theorem wp_insertChunks {ι : Type} (index : ι → Nat) (digest : ι → Digest) (items : List ι)
    {post : Unit → Store → Prop} {onFail : StoreExn → Store → Prop} (hpost : ∀ n, post () { st with
      chunks := update st.chunks id
        (items.foldl (fun chunks item => chunks.set (index item) (digest item)) (st.chunks id))
      operations := n }) (hfail : ∀ chunks n, onFail .databaseError { st with
      chunks := update st.chunks id chunks, operations := n }) :
    wp (forEach (fun item => insertChunk id (index item) (digest item)) items) env st post onFail := by
  induction items generalizing st with
  | nil => simpa [forEach] using hpost st.operations
  | cons item rest ih =>
    simp only [forEach, insertChunk, wp_do, wp_ensure]
    have hsame : ∀ n, onFail .databaseError { st with operations := n } := by
      intro n
      simpa using hfail (st.chunks id) n
    refine wp_operate (fun n => ⟨fun _ => ?_, fun _ => hsame n⟩) hsame
    apply ih
    · intro n
      simpa using hpost n
    · intro chunks n
      simpa using hfail chunks n

variable (st) in
theorem commits_insertChunks {ι : Type} (hmine : Mine st.files user id) (index : ι → Nat)
    (digest : ι → Digest) (items : List ι) :
    Commits env user True st (forEach (fun item => insertChunk id (index item) (digest item)) items) := by
  apply wp_insertChunks
  · intro n
    refine ⟨fun k => ?_, fun k => .single (.operated st k)⟩
    have hadded : Changes env user True st { st with
        chunks := update st.chunks id
          (items.foldl (fun chunks item => chunks.set (index item) (digest item)) (st.chunks id)) } :=
      .single (.added trivial hmine)
    exact hadded.tail (.operated _ k)
  · intro chunks n
    exact .single (.operated st n)

variable (st) in
theorem wp_writeSlots (hmine : Mine st.files user id) (entries : List (Nat × Bytes × Digest)) :
    wp (forEach (fun entry => writeSlot id entry.1 entry.2.1) entries) env st
      (fun _ st' => Changes env user True st st' ∧ st'.files = st.files)
      fun _ st' => Changes env user True st st' := by
  refine wp_forEach (fun entry _ st₁ hst₁ => ?_) ⟨.refl, rfl⟩
  obtain ⟨hchanges, hfiles⟩ := hst₁
  have hmine₁ : Mine st₁.files user id := by
    rw [hfiles]
    exact hmine
  have hwritten : ∀ blob n, Changes env user True st
      { st₁ with blobs := update st₁.blobs id blob, operations := n } :=
    fun blob n => (hchanges.tail (.written trivial hmine₁)).tail (.operated _ n)
  simp only [writeSlot, wp_do]
  exact wp_operate (fun n => ⟨hwritten _ n, hfiles⟩) fun n => hwritten _ n

theorem makes_writeChunks (hmine : Mine st.files user id) (writes : Writes) :
    Makes env user True st (writeChunks id writes) := by
  unfold Makes
  simp only [writeChunks, wp_do, wp_ite, wp_ensure]
  refine ⟨fun _ => .refl, fun _ => ?_⟩
  refine wp_operate (fun n => ⟨fun _ => ?_, fun _ => .single (.operated st n)⟩)
    fun n => .single (.operated st n)
  have hopened : Changes env user True st { st with operations := n } := .single (.operated st n)
  refine wp_mono (wp_writeSlots { st with operations := n } hmine _) (fun _ st₁ hst₁ => ?_) fun _ _ h => hopened.trans h
  have hwritten := hopened.trans hst₁.1
  refine wp_operate (fun k => ?_) fun k => hwritten.tail (.operated st₁ k)
  have hmine₁ : Mine st₁.files user id := by
    rw [hst₁.2]
    exact hmine
  have hinsert : Commits env user True { st₁ with operations := k }
      (forEach (fun entry => insertChunk id entry.1 entry.2.2) writes.entries) :=
    commits_insertChunks { st₁ with operations := k } hmine₁ (fun entry : Nat × Bytes × Digest => entry.1)
      (fun entry => entry.2.2) writes.entries
  have hsynced := hwritten.tail (.operated st₁ k)
  exact wp_mono hinsert.makes (fun _ _ h => hsynced.trans h) fun _ _ h => hsynced.trans h

variable {setup : Setup}

theorem check_of_foreign {stored : Dict Nat Digest} {writes : Writes} {put : PendingPut}
    (h : row.owner ≠ put.user) :
    put.check setup row stored writes = .error (.file .accessDenied) := by
  simp only [PendingPut.check, PendingPut.fields, if_pos h]
  rfl

theorem checkBatch_of_foreign {stored : Dict Nat Digest} {writes : Writes} {batch : List PendingPut}
    (h : ∀ put ∈ batch, put.user ≠ row.owner) :
    checkBatch setup row stored writes batch =
      (writes, batch.map fun _ => .error (.file .accessDenied)) := by
  induction batch with
  | nil => rfl
  | cons put rest ih =>
    have hdenied : put.check setup row stored writes = .error (.file .accessDenied) :=
      check_of_foreign (h put (.head _)).symm
    simp [checkBatch, hdenied, ih fun other hother => h other (.tail _ hother)]

theorem makes_flushBatch {batch : List PendingPut}
    (h : ∀ row, st.files.get? id = some row → row.owner = user ∨ ∀ put ∈ batch, put.user ≠ row.owner) :
    Makes env user True st (flushBatch setup id batch) := by
  unfold Makes
  simp only [flushBatch, wp_rescue, wp_do]
  refine wp_row (fun row hrow _ => ?_) fun _ => .refl
  rcases h row hrow with howner | hforeign
  · exact wp_mono (makes_writeChunks (mine_of_row hrow howner) _) (fun _ _ h => h) fun _ _ h => h
  · rw [checkBatch_of_foreign hforeign]
    exact .refl

theorem makes_putBatch (upload : Upload) :
    Makes env user True st (putBatch setup user id upload) := by
  unfold Makes
  simp only [putBatch, wp_bind]
  refine wp_row (fun row hrow _ => ?_) fun _ => .refl
  simp only [fail, wp_ite, wp_do, wp_lift]
  refine ⟨fun _ => .refl, fun howner => ⟨fun _ => .refl, fun _ => ⟨fun _ => .refl, fun _ => ?_⟩⟩⟩
  refine ⟨fun result _ => ?_, fun _ _ => .refl⟩
  exact makes_writeChunks (mine_of_row hrow (not_not.mp howner)) result.2

theorem makes_listFiles (data : Json) : Makes env user puts st (listFiles user data) := by
  unfold Makes
  simp only [listFiles, wp_bind, wp_lift]
  refine ⟨fun offset _ => ?_, fun _ _ => .refl⟩
  split
  · exact .refl
  · exact .refl

theorem makes_request (setup : Setup) (data : Json) : Makes env user True st (request setup user data) := by
  unfold Makes
  simp only [request, wp_bind, wp_lift]
  refine ⟨fun route _ => ?_, fun _ _ => .refl⟩
  cases route with
  | capabilities => exact .refl
  | list => exact makes_listFiles data
  | put id =>
    simp only [wp_do]
    have hbatch : Makes env user True st (flushBatch setup id [⟨user, data, env.now⟩]) := by
      apply makes_flushBatch
      intro row _
      by_cases howner : row.owner = user
      · exact .inl howner
      · refine .inr fun put hput => ?_
        rw [List.mem_singleton.mp hput]
        exact Ne.symm howner
    refine wp_mono hbatch (fun outcomes st₁ hst₁ => ?_) fun _ _ h => h
    refine wp_forEach (fun outcome _ st₂ hst₂ => ?_) hst₁
    rw [wp_lift]
    exact ⟨fun _ _ => hst₂, fun _ _ => hst₂⟩
  | putBatch id => exact makes_putBatch _
  | create => exact makes_create data
  | file id => exact makes_fileRequest id data

end Requests

/-! ### Native requests -/

section Native

variable {env : StoreEnv} {user : String} {data : Json} {st : Store}

def Store.purged (st : Store) (now : Nanos) : Store :=
  { st with nativeWrites := st.nativeWrites.filter fun _ lease => decide (now < lease.deadline) }

def Store.leased (st : Store) (id : FileId) (lease : Lease) : Store :=
  { st with nativeWrites := st.nativeWrites.set id lease }

/-- The chunks of a file with those of a list added. -/
def addAll (chunks : Dict Nat Digest) (added : List Descriptor) : Dict Nat Digest :=
  added.foldl (fun chunks chunk => chunks.set chunk.index chunk.digest) chunks

def Store.committed (st : Store) (id : FileId) (added : List Descriptor) (n : Nat) : Store :=
  { st with
    chunks := update st.chunks id (addAll (st.chunks id) added)
    nativeWrites := st.nativeWrites.erase id
    operations := n }

/-- A request to prepare or to commit that has passed the checks: the file is an upload of the user,
and these are its chunks and the indices of the new ones. -/
structure Accepted (env : StoreEnv) (user : String) (data : Json) (st : Store) (op : String)
    (id : FileId) (row : FileRow) (chunks : List Descriptor) (new : List Nat) : Prop where
  asked : (data.get "op").text? = some op
  named : fileId? (data.get "id") = some id
  uploads : st.Uploads env.now user id row
  parsed : parseDescriptors row (st.chunks id) (data.get "chunks") = .ok (chunks, new)

/-- The lease a request to prepare is given. -/
def leaseFor (env : StoreEnv) (row : FileRow) (chunks : List Descriptor) : Lease :=
  ⟨env.token, env.monotonic + seconds 120, row.binding chunks⟩

/-- What a native request can come to. -/
inductive NativeOutcome (env : StoreEnv) (user : String) (data : Json) (st : Store) :
    Option Reply → Store → Prop
  | unchanged {reply : Option Reply} (n : Nat) :
      (∀ write received lease, reply ≠ some (.plan write received lease)) →
      NativeOutcome env user data st reply { st with operations := n }
  /-- Too many leases. -/
  | purged : NativeOutcome env user data st none (st.purged env.monotonic)
  | prepared {id : FileId} {row : FileRow} {chunks : List Descriptor} {new : List Nat} :
      Accepted env user data st "prepare" id row chunks new →
      NativeOutcome env user data st (some (.plan new (row.binding chunks).indices env.token))
        ((st.purged env.monotonic).leased id (leaseFor env row chunks))
  | committed {id : FileId} {row : FileRow} {chunks : List Descriptor} {new : List Nat} {lease : Lease}
      (n : Nat) : Accepted env user data st "commit" id row chunks new →
      st.nativeWrites.get? id = some lease →
      lease.admits (data.get "lease") env.monotonic (row.binding chunks) = true →
      NativeOutcome env user data st (some (.received (row.binding chunks).indices))
        (st.committed id (chunks.filter fun chunk => chunk.index ∈ new) n)

theorem nativeOutcome_refl {reply : Option Reply}
    (h : ∀ write received lease, reply ≠ some (.plan write received lease)) :
    NativeOutcome env user data st reply st := .unchanged st.operations h

/-- The rule for native requests. -/
def Comes (env : StoreEnv) (user : String) (data : Json) (st : Store) (m : StoreM Reply) : Prop :=
  wp m env st (fun reply => NativeOutcome env user data st (some reply))
    fun _ => NativeOutcome env user data st none

variable {row : FileRow}

theorem comes_read {op : Option String} : Comes env user data st (read row op data) := by
  have hfail : NativeOutcome env user data st none st := nativeOutcome_refl (by simp)
  unfold Comes
  simp only [read, fail, wp_do, wp_ite]
  refine ⟨fun _ => hfail, fun _ => ?_⟩
  split
  · simp only [wp_do, wp_ite, wp_lift]
    refine ⟨fun _ => hfail, fun _ => ⟨fun indices _ => ⟨fun _ => hfail, fun _ => ?_⟩, fun _ _ => hfail⟩⟩
    exact ⟨fun _ => nativeOutcome_refl (by simp), fun _ => nativeOutcome_refl (by simp)⟩
  · exact hfail

theorem comes_prepare {id : FileId} {chunks : List Descriptor} {new : List Nat}
    (h : Accepted env user data st "prepare" id row chunks new) :
    Comes env user data st (prepare id (row.binding chunks) new) := by
  unfold Comes
  simp only [prepare, fail, wp_do, wp_ite]
  exact ⟨fun _ => .purged, fun _ => .prepared h⟩

theorem comes_commit {id : FileId} {chunks : List Descriptor} {new : List Nat}
    (h : Accepted env user data st "commit" id row chunks new) :
    Comes env user data st (commit id (row.binding chunks) new (data.get "lease")) := by
  have hfail : ∀ n, NativeOutcome env user data st none { st with operations := n } :=
    fun n => .unchanged n (by simp)
  unfold Comes
  simp only [commit, wp_do, wp_require, wp_ensure]
  refine ⟨fun lease hlease => ⟨fun hadmits => ?_, fun _ => hfail _⟩, fun _ => hfail _⟩
  refine wp_transaction ?_
  apply wp_insertChunks
  · intro n
    refine ⟨fun k => ?_, fun k => hfail k⟩
    simp only [dropLease, wp_do]
    exact .committed k h hlease hadmits
  · intro chunks n
    exact hfail n

theorem comes_nativeFileRequest : Comes env user data st (nativeFileRequest user data) := by
  have hfail : NativeOutcome env user data st none st := nativeOutcome_refl (by simp)
  unfold Comes
  simp only [nativeFileRequest, wp_bind, wp_require]
  refine ⟨fun id hid => ?_, fun _ => hfail⟩
  refine wp_row (fun row hrow hdeleted => ?_) fun _ => hfail
  simp only [fail, wp_do, wp_ite, wp_lift]
  refine ⟨fun _ => hfail, fun hlapsed => ⟨fun _ => comes_read, fun _ => ⟨fun _ => hfail, fun hop => ?_⟩⟩⟩
  refine ⟨fun _ => hfail, fun howner => ⟨fun _ => hfail, fun hstate => ?_⟩⟩
  refine ⟨fun parsed hparsed => ?_, fun _ _ => hfail⟩
  have huploads : st.Uploads env.now user id row :=
    ⟨hrow, not_not.mp howner, not_not.mp hstate, by simpa using hlapsed⟩
  refine ⟨fun hcommit => ?_, fun hcommit => ?_⟩
  · exact comes_commit ⟨hcommit, hid, huploads, hparsed⟩
  · have hprepare : (data.get "op").text? = some "prepare" := by
      by_contra hne
      exact hop ⟨hne, hcommit⟩
    exact comes_prepare ⟨hprepare, hid, huploads, hparsed⟩

end Native

/-! ### Every request -/

/-- How a request of a user reaches the store. -/
inductive Request where
  /-- `FileStore.request`. -/
  | application (data : Json)
  /-- A binary upload, for `put_batch`. -/
  | upload (id : FileId) (chunks : List (Nat × Bytes))
  | native (data : Json)
  /-- Several `put` requests of the user, collected. -/
  | puts (id : FileId) (requests : List (Json × Nanos))

def Store.afterRequest (setup : Setup) (env : StoreEnv) (user : String) (st : Store) : Request → Store
  | .application data => (request setup user data env st).2
  | .upload id chunks => (putBatch setup user id (.binary chunks) env st).2
  | .native data => (nativeFileRequest user data env st).2
  | .puts id requests =>
    (flushBatch setup id (requests.map fun entry => ⟨user, entry.1, entry.2⟩) env st).2

/-- Every request makes changes on behalf of its user, or comes to what a native request can. -/
theorem afterRequest_effect (setup : Setup) (env : StoreEnv) (user : String) (st : Store)
    (request : Request) :
    Changes env user True st (st.afterRequest setup env user request) ∨
      ∃ data reply, NativeOutcome env user data st reply (st.afterRequest setup env user request) := by
  cases request with
  | application data => exact .inl (wp_final (p := Changes env user True st) (makes_request setup data))
  | upload id chunks =>
    exact .inl (wp_final (p := Changes env user True st) (makes_putBatch (.binary chunks)))
  | native data =>
    exact .inr ⟨data, _, wp_outcome (p := NativeOutcome env user data st) comes_nativeFileRequest⟩
  | puts id requests =>
    refine .inl (wp_final (p := Changes env user True st) (makes_flushBatch fun row _ => ?_))
    by_cases howner : row.owner = user
    · exact .inl howner
    · refine .inr fun put hput => ?_
      obtain ⟨entry, -, rfl⟩ := List.mem_map.mp hput
      exact Ne.symm howner

end CallBackend.Files
