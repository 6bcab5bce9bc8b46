import CallBackend.Files.Coalescing
import CallBackend.Files.Slots

/-!
# Rows and blobs that agree

A store is sound if every upload that has not expired has its blob, and every chunk in the table is in
the blob with the digest of its row. A batch is checked before anything is written, and only slots
without a row are written, so uploads keep a store sound however they end. So do the requests of an
application, but for `delete`, and a native request that fails.
-/

namespace CallBackend.Files

open Exec Function

def Matched (setup : Setup) (row : Option FileRow) (chunks : Dict Nat Digest) (blob : Option Blob) : Prop :=
  ∀ index digest, chunks.get? index = some digest → ∃ found file content,
    row = some found ∧ blob = some file ∧ content.length = found.chunkLength index ∧
      file.read (slot index) content.length = content ∧ setup.sha256 content = digest

/-- The row, the chunks and the blob of a file agree. -/
structure SoundFile (setup : Setup) (now : Nanos) (row : Option FileRow) (chunks : Dict Nat Digest)
    (blob : Option Blob) : Prop where
  present : ∀ found, row = some found → found.active = true → now < seconds found.expires →
    blob.isSome = true
  matched : Matched setup row chunks blob

def Store.Matched (setup : Setup) (st : Store) (id : FileId) : Prop :=
  Files.Matched setup (st.files.get? id) (st.chunks id) (st.blobs id)

def Store.Sound (setup : Setup) (now : Nanos) (st : Store) : Prop :=
  ∀ id, SoundFile setup now (st.files.get? id) (st.chunks id) (st.blobs id)

structure Aside (id : FileId) (st st' : Store) : Prop where
  files : ∀ other, other ≠ id → st'.files.get? other = st.files.get? other
  chunks : ∀ other, other ≠ id → st'.chunks other = st.chunks other
  blobs : ∀ other, other ≠ id → st'.blobs other = st.blobs other

section Stores

variable {setup : Setup} {now : Nanos} {st st' : Store} {id : FileId}

variable (id) in
theorem Store.Sound.update (h : st.Sound setup now) (haside : Aside id st st')
    (hfile : SoundFile setup now (st'.files.get? id) (st'.chunks id) (st'.blobs id)) :
    st'.Sound setup now := by
  intro other
  by_cases hother : other = id
  · rw [hother]
    exact hfile
  · rw [haside.files other hother, haside.chunks other hother, haside.blobs other hother]
    exact h other

theorem Store.Matched.no_chunks (h : st.Matched setup id) (hrow : st.files.get? id = none) (index : Nat) :
    (st.chunks id).get? index = none := by
  cases hchunk : (st.chunks id).get? index with
  | none => rfl
  | some digest =>
    obtain ⟨found, _, _, hfound, -⟩ := h index digest hchunk
    rw [hrow] at hfound
    cases hfound

theorem Rewritten.matched {touched : Nat → Prop} (h : Rewritten id touched st st')
    (hnew : ∀ index, touched index → (st.chunks id).get? index = none) (hmatched : st.Matched setup id) :
    st'.Matched setup id := by
  intro index digest hchunk
  rw [h.chunks] at hchunk
  obtain ⟨found, file, content, hfound, hfile, hlength, hread, hsha⟩ := hmatched index digest hchunk
  have huntouched : ¬touched index := by
    intro htouched
    rw [hnew index htouched] at hchunk
    cases hchunk
  obtain ⟨file', hfile', hread'⟩ := h.held index content huntouched
    (hlength.trans_le (chunkLength_le found index)) ⟨file, hfile, hread⟩
  rw [h.files]
  exact ⟨found, file', content, hfound, hfile', hlength, hread', hsha⟩

theorem Rewritten.sound {touched : Nat → Prop} (h : Rewritten id touched st st')
    (hnew : ∀ index, touched index → (st.chunks id).get? index = none) (hsound : st.Sound setup now) :
    st'.Sound setup now := by
  refine hsound.update id ⟨fun _ _ => by rw [h.files], fun _ _ => by rw [h.chunks], h.others⟩
    ⟨?_, h.matched hnew (hsound id).matched⟩
  rw [h.files, h.present]
  exact (hsound id).present

def Writes.Fits (setup : Setup) (row : FileRow) (writes : Writes) : Prop :=
  ∀ entry ∈ writes.entries, entry.2.1.length = row.chunkLength entry.1 ∧ entry.2.2 = setup.sha256 entry.2.1

theorem Store.Matched.indexed {row : FileRow} {writes : Writes} (h : st.Matched setup id)
    (hrow : st.files.get? id = some row) (hfits : writes.Fits setup row)
    (hheld : ∀ entry ∈ writes.entries, st.Holds id entry.1 entry.2.1) (n : Nat) :
    (st.indexed id writes n).Matched setup id := by
  intro index digest hchunk
  have hchunks : (st.indexed id writes n).chunks id = writes.addTo (st.chunks id) := update_self ..
  rw [hchunks, Writes.get?_addTo] at hchunk
  cases hwrite : writes.get? index with
  | none =>
    rw [hwrite] at hchunk
    exact h index digest hchunk
  | some value =>
    rw [hwrite] at hchunk
    have hmem := (writes.mem_entries_iff index value).mpr hwrite
    obtain ⟨file, hfile, hread⟩ := hheld _ hmem
    obtain ⟨hlength, hdigest⟩ := hfits _ hmem
    exact ⟨row, file, value.1, hrow, hfile, hlength, hread, hdigest.symm.trans (Option.some.inj hchunk)⟩

theorem Store.Sound.indexed {row : FileRow} {writes : Writes} (h : st.Sound setup now)
    (hrow : st.files.get? id = some row) (hfits : writes.Fits setup row)
    (hheld : ∀ entry ∈ writes.entries, st.Holds id entry.1 entry.2.1) (n : Nat) :
    (st.indexed id writes n).Sound setup now :=
  h.update id ⟨fun _ _ => rfl, fun _ hother => update_of_ne hother _ _, fun _ _ => rfl⟩
    ⟨(h id).present, Store.Matched.indexed (h id).matched hrow hfits hheld n⟩

end Stores

/-! ### Uploads -/

section Uploads

variable {setup : Setup} {now : Nanos} {env : StoreEnv} {st : Store} {id : FileId} {row : FileRow}
  {stored : Dict Nat Digest} {writes : Writes}

def KeepsSound (setup : Setup) (now : Nanos) (env : StoreEnv) (st : Store) {α : Type} (m : StoreM α) : Prop :=
  wp m env st (fun _ st' => st'.Sound setup now) fun _ st' => st'.Sound setup now

theorem keepsSound_writeChunks (h : st.Sound setup now) (hrow : st.files.get? id = some row)
    (hproper : writes.Proper (st.chunks id)) (hfits : writes.Fits setup row) :
    KeepsSound setup now env st (writeChunks id writes) := by
  refine wp_mono (wp_writeChunks_rewritten hproper.sized) ?_ fun _ st' hst' => hst'.sound hproper.new h
  rintro _ _ ⟨st₁, n, hrewritten, hheld, rfl⟩
  have hfound : st₁.files.get? id = some row := by
    rw [hrewritten.files]
    exact hrow
  exact (hrewritten.sound hproper.new h).indexed hfound hfits hheld n

theorem Writes.fits_empty (setup : Setup) (row : FileRow) : Writes.Fits setup row ∅ := nofun

theorem Writes.Fits.set {index : Nat} {chunk : Bytes} (h : writes.Fits setup row)
    (hindex : writes.get? index = none) (hlength : chunk.length = row.chunkLength index) :
    Writes.Fits setup row (writes.set index (chunk, setup.sha256 chunk)) := by
  intro entry hmem
  rw [entries_set_new hindex, List.mem_append, List.mem_singleton] at hmem
  rcases hmem with hmem | rfl
  · exact h entry hmem
  · exact ⟨hlength, rfl⟩

variable (stored) in
theorem checkBatch_fits (h : writes.Fits setup row) (batch : List PendingPut) :
    (checkBatch setup row stored writes batch).1.Fits setup row := by
  induction batch generalizing writes with
  | nil => exact h
  | cons put batch ih =>
    rw [checkBatch]
    cases judged setup row stored writes put with
    | refused error hhere _ =>
      rw [hhere]
      exact ih h
    | known hhere _ =>
      rw [hhere]
      exact ih h
    | new index chunk hfields hwrites _ hhere _ =>
      rw [hhere]
      exact ih (h.set hwrites (fields_ok hfields).2.2)

theorem keepsSound_flushBatch (h : st.Sound setup now) (batch : List PendingPut) :
    KeepsSound setup now env st (flushBatch setup id batch) := by
  unfold KeepsSound
  simp only [flushBatch, wp_rescue, wp_do]
  refine wp_row (fun row hrow _ => ?_) fun _ => h
  have hproper := (checkBatch_proper setup row (Writes.proper_empty (st.chunks id)) batch).1
  have hfits := checkBatch_fits (st.chunks id) (Writes.fits_empty setup row) batch
  exact wp_mono (keepsSound_writeChunks h hrow hproper hfits) (fun _ _ hst' => hst') fun _ _ hst' => hst'

theorem addUploaded_proper {done result : List Nat × Writes} {index : Nat} {chunk : Bytes}
    (hproper : done.2.Proper stored) (hfits : done.2.Fits setup row)
    (h : addUploaded setup row stored done index chunk = .ok result) :
    result.2.Proper stored ∧ result.2.Fits setup row := by
  unfold addUploaded at h
  cases hindex : integer (.int index) 0 (row.count - 1) with
  | error error =>
    rw [hindex] at h
    cases h
  | ok index =>
    rw [hindex] at h
    by_cases hbad : index ∈ done.1 ∨ chunk.length ≠ row.chunkLength index
    · cases (if_pos hbad).symm.trans h
    · have hlength : chunk.length = row.chunkLength index := not_not.mp fun hne => hbad (.inr hne)
      replace h := (if_neg hbad).symm.trans h
      rcases addChunk_alone stored done.2 index chunk (setup.sha256 chunk) with
        ⟨hadd, -⟩ | ⟨hadd, -⟩ | ⟨hwrites, hstored, hadd, -⟩
      · rw [hadd] at h
        cases h
      · rw [hadd] at h
        cases h
        exact ⟨hproper, hfits⟩
      · rw [hadd] at h
        cases h
        exact ⟨hproper.set hwrites hstored hlength _, hfits.set hwrites hlength⟩

theorem uploads_proper {chunks : List (Nat × Bytes)} {done result : List Nat × Writes}
    (hproper : done.2.Proper stored) (hfits : done.2.Fits setup row)
    (h : chunks.foldlM (fun done chunk => addUploaded setup row stored done chunk.1 chunk.2) done = .ok result) :
    result.2.Proper stored ∧ result.2.Fits setup row := by
  induction chunks generalizing done with
  | nil =>
    cases h
    exact ⟨hproper, hfits⟩
  | cons chunk chunks ih =>
    rw [List.foldlM_cons] at h
    cases hround : addUploaded setup row stored done chunk.1 chunk.2 with
    | error error =>
      rw [hround] at h
      cases h
    | ok done' =>
      rw [hround] at h
      obtain ⟨hproper', hfits'⟩ := addUploaded_proper hproper hfits hround
      exact ih hproper' hfits' h

theorem checkUpload_json (setup : Setup) (row : FileRow) (stored : Dict Nat Digest) (value : Json) :
    ∃ error, checkUpload setup row stored (.json value) = .error error := by
  cases value with
  | arr items =>
    unfold checkUpload
    dsimp only
    split_ifs
    · exact ⟨_, rfl⟩
    · cases items with
      | nil => exact ⟨_, rfl⟩
      | cons item items =>
        dsimp only
        cases unpack item with
        | error error => exact ⟨error, rfl⟩
        | ok index =>
          change ∃ error, ((integer index 0 (row.count - 1)).bind fun _ =>
            .error (.file .invalidChunk) : Except StoreExn (List Nat × Writes)) = .error error
          cases integer index 0 (row.count - 1) with
          | error error => exact ⟨error, rfl⟩
          | ok n => exact ⟨_, rfl⟩
  | _ => exact ⟨_, rfl⟩

theorem checkUpload_proper {upload : Upload} {result : List Nat × Writes}
    (h : checkUpload setup row stored upload = .ok result) :
    result.2.Proper stored ∧ result.2.Fits setup row := by
  cases upload with
  | json value =>
    obtain ⟨error, herror⟩ := checkUpload_json setup row stored value
    rw [herror] at h
    cases h
  | binary chunks =>
    rw [checkUpload] at h
    split_ifs at h
    exact uploads_proper (Writes.proper_empty stored) (Writes.fits_empty setup row) h

theorem keepsSound_putBatch (h : st.Sound setup now) (user : String) (upload : Upload) :
    KeepsSound setup now env st (putBatch setup user id upload) := by
  unfold KeepsSound
  simp only [putBatch, wp_bind]
  refine wp_row (fun row hrow _ => ?_) fun _ => h
  simp only [fail, wp_ite, wp_do, wp_lift]
  refine ⟨fun _ => h, fun _ => ⟨fun _ => h, fun _ => ⟨fun _ => h, fun _ => ⟨fun result hresult => ?_,
    fun _ _ => h⟩⟩⟩⟩
  obtain ⟨hproper, hfits⟩ := checkUpload_proper hresult
  exact keepsSound_writeChunks h hrow hproper hfits

end Uploads

/-! ### Requests of applications -/

section Requests

variable {setup : Setup} {now : Nanos} {env : StoreEnv} {st : Store} {id : FileId}

theorem Store.Sound.with_blob (h : st.Sound setup now) (hrow : st.files.get? id = none) {st' : Store}
    (haside : Aside id st st') (hfiles : st'.files.get? id = none) (hchunks : st'.chunks id = st.chunks id) :
    st'.Sound setup now := by
  refine h.update id haside ⟨fun found hfound => ?_, fun index digest hchunk => ?_⟩
  · rw [hfiles] at hfound
    cases hfound
  · rw [hchunks, Store.Matched.no_chunks (h id).matched hrow index] at hchunk
    cases hchunk

theorem keepsSound_create (h : st.Sound setup now) (user : String) (data : Json) :
    KeepsSound setup now env st (create user data) := by
  refine wp_create (fun _ => h) fun file _ hnone => ⟨fun _ => h, fun _ _ n => ⟨?_, fun row _ _ _ => ?_⟩⟩
  · -- the tables are as before
    exact h.with_blob hnone ⟨fun _ _ => rfl, fun _ _ => rfl, fun other hother => update_of_ne hother _ _⟩
      hnone rfl
  · refine h.update file.id ⟨fun other hother => Dict.get?_set_of_ne _ _ (Ne.symm hother),
      fun _ _ => rfl, fun other hother => update_of_ne hother _ _⟩ ⟨fun _ _ _ _ => ?_, fun index digest hchunk => ?_⟩
    · simp [Store.opened]
    · cases (Store.Matched.no_chunks (h file.id).matched hnone index).symm.trans hchunk

theorem Store.Sound.restate (h : st.Sound setup now) {row : FileRow} (hrow : st.files.get? id = some row)
    {state : FileState} (hactive : (FileRow.active { row with state }) = true → row.active = true) :
    ({ st with files := st.files.set id { row with state } } : Store).Sound setup now := by
  refine h.update id ⟨fun other hother => Dict.get?_set_of_ne _ _ (Ne.symm hother),
    fun _ _ => rfl, fun _ _ => rfl⟩ ⟨fun found hfound hneeds hlive => ?_, fun index digest hchunk => ?_⟩
  · dsimp only at hfound
    rw [Dict.get?_set_self, Option.some.injEq] at hfound
    subst hfound
    exact (h id).present row hrow (hactive hneeds) hlive
  · obtain ⟨found, file, content, hfound, hfile, hlength, hread, hsha⟩ := (h id).matched index digest hchunk
    rw [hrow, Option.some.injEq] at hfound
    subst hfound
    exact ⟨{ row with state }, file, content, Dict.get?_set_self .., hfile, hlength, hread, hsha⟩

theorem keepsSound_fileRequest (h : st.Sound setup now) (user : String) {data : Json}
    (hop : (data.get "op").text? ≠ some "delete") :
    KeepsSound setup now env st (fileRequest user id data) := by
  refine wp_fileRequest h (fun _ _ => h) (fun hdelete => absurd hdelete hop) fun _ row hrow _ hactive _ => ?_
  exact h.restate hrow fun _ => hactive

end Requests

theorem NativeOutcome.sound_of_none {setup : Setup} {now : Nanos} {env : StoreEnv} {user : String} {data : Json}
    {st st' : Store} (h : NativeOutcome env user data st none st') (hsound : st.Sound setup now) :
    st'.Sound setup now := by
  generalize hreply : (none : Option Reply) = reply at h
  cases h with
  | unchanged n _ => exact hsound
  | purged => exact hsound
  | prepared _ => cases hreply
  | committed n _ _ _ => cases hreply

end CallBackend.Files
