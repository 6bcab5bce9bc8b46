import CallBackend.Files.Effect

/-!
# Files of others

A request of a user leaves the rows, chunks, blobs and leases of everyone else's files as they were,
however it ends; only a lease that has expired may be swept away. In a batch of collected `put`
requests, those of a user who does not own the file are without effect, and those of the owner have
none on the others.
-/

namespace CallBackend.Files

open Exec Function

structure Spares (user : String) (kept : Lease → Prop) (st st' : Store) : Prop where
  rows : ∀ id row, row.owner ≠ user → (st'.files.get? id = some row ↔ st.files.get? id = some row)
  chunks : ∀ id row, st.files.get? id = some row → row.owner ≠ user → st'.chunks id = st.chunks id
  blobs : ∀ id row, st.files.get? id = some row → row.owner ≠ user → st'.blobs id = st.blobs id
  leases : ∀ id row, st.files.get? id = some row → row.owner ≠ user → ∀ lease, kept lease →
    (st'.nativeWrites.get? id = some lease ↔ st.nativeWrites.get? id = some lease)

namespace Spares

variable {user : String} {kept : Lease → Prop} {st st' st'' : Store}

theorem refl (st : Store) : Spares user kept st st :=
  ⟨fun _ _ _ => Iff.rfl, fun _ _ _ _ => rfl, fun _ _ _ _ => rfl, fun _ _ _ _ _ _ => Iff.rfl⟩

theorem trans (h : Spares user kept st st') (h' : Spares user kept st' st'') : Spares user kept st st'' := by
  have hrow : ∀ id row, st.files.get? id = some row → row.owner ≠ user → st'.files.get? id = some row :=
    fun id row hrow hother => (h.rows id row hother).mpr hrow
  refine ⟨fun id row hother => ?_, fun id row hget hother => ?_, fun id row hget hother => ?_,
    fun id row hget hother lease hkept => ?_⟩
  · exact (h'.rows id row hother).trans (h.rows id row hother)
  · rw [h'.chunks id row (hrow id row hget hother) hother, h.chunks id row hget hother]
  · rw [h'.blobs id row (hrow id row hget hother) hother, h.blobs id row hget hother]
  · exact (h'.leases id row (hrow id row hget hother) hother lease hkept).trans
      (h.leases id row hget hother lease hkept)

theorem of_content {id : FileId} (hmine : Mine st.files user id) (hfiles : st'.files = st.files)
    (hchunks : ∀ other, other ≠ id → st'.chunks other = st.chunks other)
    (hblobs : ∀ other, other ≠ id → st'.blobs other = st.blobs other)
    (hleases : ∀ other, other ≠ id → ∀ lease, kept lease →
      (st'.nativeWrites.get? other = some lease ↔ st.nativeWrites.get? other = some lease)) :
    Spares user kept st st' := by
  have hne : ∀ other row, st.files.get? other = some row → row.owner ≠ user → other ≠ id := by
    rintro other row hget hother rfl
    exact hother (hmine row hget)
  refine ⟨fun other row _ => by rw [hfiles], fun other row hget hother => ?_,
    fun other row hget hother => ?_, fun other row hget hother => ?_⟩
  · exact hchunks other (hne other row hget hother)
  · exact hblobs other (hne other row hget hother)
  · exact hleases other (hne other row hget hother)

theorem of_row {id : FileId} {row : FileRow} (hmine : Mine st.files user id)
    (hfiles : st'.files = st.files.set id row) (howner : row.owner = user)
    (hchunks : ∀ other, other ≠ id → st'.chunks other = st.chunks other)
    (hblobs : st'.blobs = st.blobs) (hleases : st'.nativeWrites = st.nativeWrites) :
    Spares user kept st st' := by
  have hne : ∀ other row, st.files.get? other = some row → row.owner ≠ user → other ≠ id := by
    rintro other row hget hother rfl
    exact hother (hmine row hget)
  refine ⟨fun other found hother => ?_, fun other row hget hother => ?_,
    fun other row _ _ => by rw [hblobs], fun other row _ _ lease _ => by rw [hleases]⟩
  · rw [hfiles, Dict.get?_set]
    split_ifs with hid
    · subst hid
      constructor
      · rintro ⟨⟩
        exact absurd howner hother
      · intro hget
        exact absurd (hmine found hget) hother
    · exact Iff.rfl
  · exact hchunks other (hne other row hget hother)

end Spares

section Requests

variable {env : StoreEnv} {user : String} {puts : Prop} {kept : Lease → Prop} {st st' : Store}

theorem mine_of_none {files : FileTable} {id : FileId} (h : files.get? id = none) : Mine files user id := by
  intro row hrow
  rw [h] at hrow
  cases hrow

theorem Change.spares (h : Change env user puts st st') : Spares user kept st st' := by
  cases h with
  | operated n => exact ⟨fun _ _ _ => Iff.rfl, fun _ _ _ _ => rfl, fun _ _ _ _ => rfl, fun _ _ _ _ _ _ => Iff.rfl⟩
  | released hmine =>
    refine .of_content hmine rfl (fun _ _ => rfl) (fun _ _ => rfl) fun other hother lease _ => ?_
    rw [Dict.get?_erase_of_ne _ (Ne.symm hother)]
  | created hnone _ =>
    exact .of_content (mine_of_none hnone) rfl (fun _ _ => rfl) (fun _ h => update_of_ne h _ _)
      fun _ _ _ _ => Iff.rfl
  | inserted hnone howner _ _ => exact .of_row (mine_of_none hnone) rfl howner (fun _ _ => rfl) rfl rfl
  | removed hmine =>
    exact .of_content hmine rfl (fun _ _ => rfl) (fun _ h => update_of_ne h _ _) fun _ _ _ _ => Iff.rfl
  | deleted hrow howner =>
    exact .of_row (mine_of_row hrow howner) rfl howner (fun _ h => update_of_ne h _ _) rfl rfl
  | finished hrow howner _ => exact .of_row (mine_of_row hrow howner) rfl howner (fun _ _ => rfl) rfl rfl
  | written _ hmine =>
    exact .of_content hmine rfl (fun _ _ => rfl) (fun _ h => update_of_ne h _ _) fun _ _ _ _ => Iff.rfl
  | added _ hmine =>
    exact .of_content hmine rfl (fun _ h => update_of_ne h _ _) (fun _ _ => rfl) fun _ _ _ _ => Iff.rfl

theorem Changes.spares (h : Changes env user puts st st') : Spares user kept st st' := by
  induction h with
  | refl => exact .refl st
  | tail _ hchange ih => exact ih.trans hchange.spares

theorem spares_purged (now : Nanos) : Spares user (fun lease => now < lease.deadline) st (st.purged now) := by
  refine ⟨fun _ _ _ => Iff.rfl, fun _ _ _ _ => rfl, fun _ _ _ _ => rfl, fun id _ _ _ lease hkept => ?_⟩
  rw [Store.purged, Dict.get?_filter, Option.filter_eq_some_iff]
  exact and_iff_left (decide_eq_true hkept)

theorem NativeOutcome.spares {data : Json} {reply : Option Reply}
    (h : NativeOutcome env user data st reply st') :
    Spares user (fun lease => env.monotonic < lease.deadline) st st' := by
  cases h with
  | unchanged n => exact (Change.operated st n : Change env user True st _).spares
  | purged => exact spares_purged env.monotonic
  | prepared hrequest =>
    have hmine := mine_of_row hrequest.uploads.stored hrequest.uploads.owner
    refine (spares_purged env.monotonic).trans (.of_content hmine rfl (fun _ _ => rfl) (fun _ _ => rfl) ?_)
    intro other hother lease _
    rw [Store.leased, Dict.get?_set_of_ne _ _ (Ne.symm hother)]
  | committed n hrequest _ _ =>
    have hmine := mine_of_row hrequest.uploads.stored hrequest.uploads.owner
    refine .of_content hmine rfl (fun _ h => update_of_ne h _ _) (fun _ _ => rfl) fun other hother lease _ => ?_
    rw [Store.committed, Dict.get?_erase_of_ne _ (Ne.symm hother)]

/-! ### Batches of several users -/

/-- What goes with the requests of others in a batch. -/
def withoutUser {β : Type} (user : String) : List PendingPut → List β → List β
  | put :: rest, b :: bs => if put.user = user then withoutUser user rest bs else b :: withoutUser user rest bs
  | _, _ => []

theorem withoutUser_map {β γ : Type} (f : β → γ) (batch : List PendingPut) (bs : List β) :
    withoutUser user batch (bs.map f) = (withoutUser user batch bs).map f := by
  induction batch generalizing bs with
  | nil => rfl
  | cons put rest ih =>
    cases bs with
    | nil => rfl
    | cons b bs =>
      simp only [List.map_cons, withoutUser, ih]
      split_ifs <;> rfl

theorem checkBatch_withoutUser {setup : Setup} {row : FileRow} {stored : Dict Nat Digest}
    (hother : row.owner ≠ user) (writes : Writes) (batch : List PendingPut) :
    checkBatch setup row stored writes (withoutUser user batch batch) =
      ((checkBatch setup row stored writes batch).1,
        withoutUser user batch (checkBatch setup row stored writes batch).2) := by
  induction batch generalizing writes with
  | nil => rfl
  | cons put rest ih =>
    rw [withoutUser]
    split_ifs with huser
    · have hdenied : put.check setup row stored writes = .error (.file .accessDenied) :=
        check_of_foreign (huser ▸ hother)
      simp [checkBatch, hdenied, withoutUser, huser, ih]
    · simp only [checkBatch]
      cases put.check setup row stored writes with
      | ok writes' => simp [withoutUser, huser, ih]
      | error error => simp [withoutUser, huser, ih]

theorem verdicts_of_owner {setup : Setup} {row : FileRow} {stored : Dict Nat Digest}
    (howner : row.owner = user) (writes writes' : Writes) (batch : List PendingPut) :
    (checkBatch setup row stored writes' (withoutUser user batch batch)).2 =
      withoutUser user batch (checkBatch setup row stored writes batch).2 := by
  induction batch generalizing writes with
  | nil => rfl
  | cons put rest ih =>
    rw [withoutUser]
    split_ifs with huser
    · simp only [checkBatch]
      cases put.check setup row stored writes with
      | ok writes' => simp [withoutUser, huser, ih writes']
      | error error => simp [withoutUser, huser, ih writes]
    · have hdenied : ∀ writes, put.check setup row stored writes = .error (.file .accessDenied) :=
        fun writes => check_of_foreign fun heq => huser (heq ▸ howner)
      simp [checkBatch, hdenied, withoutUser, huser, ih writes]

theorem withoutUser_foreign {batch : List PendingPut} :
    ∀ put ∈ withoutUser user batch batch, put.user ≠ user := by
  induction batch with
  | nil => simp [withoutUser]
  | cons put rest ih =>
    rw [withoutUser]
    split_ifs with huser
    · exact ih
    · exact List.forall_mem_cons.mpr ⟨huser, ih⟩

theorem row_eq (env : StoreEnv) (st : Store) (id : FileId) :
    (∃ error, row id env st = (.error error, st)) ∨
      ∃ found, st.files.get? id = some found ∧ row id env st = (.ok found, st) := by
  have hrow : wp (row id) env st (fun found st' => st' = st ∧ st.files.get? id = some found)
      fun _ st' => st' = st := wp_row (fun found hfound _ => ⟨rfl, hfound⟩) fun _ => rfl
  rcases hresult : row id env st with ⟨_ | found, st'⟩
  · rename_i error
    exact .inl ⟨error, by rw [wp_error hrow hresult]⟩
  · obtain ⟨rfl, hfound⟩ := wp_ok hrow hresult
    exact .inr ⟨found, hfound, rfl⟩

theorem flushBatch_of_error {setup : Setup} {id : FileId} {error : StoreExn} (batch : List PendingPut)
    (h : row id env st = (.error error, st)) :
    flushBatch setup id batch env st = (.ok (batch.map fun _ => .error error), st) := by
  rw [flushBatch, rescue_error (bind_error h)]
  rfl

/-- The verdicts of a batch, once it has been written or has failed to. -/
def settled (verdicts : List (Except StoreExn Unit)) (written : Except StoreExn Unit) :
    List (Except StoreExn Unit) :=
  match written with
  | .ok _ => verdicts
  | .error error => verdicts.map (settle error)

theorem flushBatch_of_row (setup : Setup) {id : FileId} {found : FileRow} (batch : List PendingPut)
    (h : row id env st = (.ok found, st)) :
    flushBatch setup id batch env st =
      (.ok (settled (checkBatch setup found (st.chunks id) ∅ batch).2
          (writeChunks id (checkBatch setup found (st.chunks id) ∅ batch).1 env st).1),
        (writeChunks id (checkBatch setup found (st.chunks id) ∅ batch).1 env st).2) := by
  rw [flushBatch]
  apply rescue_ok
  rw [bind_ok h]
  change rescue _ _ env st = _
  rcases hwrite : writeChunks id (checkBatch setup found (st.chunks id) ∅ batch).1 env st with ⟨written, st'⟩
  cases written with
  | ok _ =>
    apply rescue_ok
    rw [bind_ok hwrite]
    rfl
  | error error =>
    rw [rescue_error (bind_error hwrite)]
    rfl

theorem settled_refused {ι : Type} (items : List ι) (error : StoreExn) (written : Except StoreExn Unit) :
    settled (items.map fun _ => .error error) written = items.map fun _ => .error error := by
  cases written with
  | ok _ => rfl
  | error _ => simp [settled, settle]

theorem writeChunks_nothing (id : FileId) : writeChunks id ∅ env st = (.ok (), st) := rfl

theorem settled_map {batch : List PendingPut} (verdicts : List (Except StoreExn Unit))
    (written : Except StoreExn Unit) :
    settled (withoutUser user batch verdicts) written = withoutUser user batch (settled verdicts written) := by
  cases written with
  | ok _ => rfl
  | error error => exact (withoutUser_map _ _ _).symm

/-- Taking the requests of a user out of a batch: what belongs to others ends the same, and so does
every other request. -/
theorem flushBatch_withoutUser (setup : Setup) (id : FileId) (batch : List PendingPut) :
    ∃ outcomes, (flushBatch setup id batch env st).1 = .ok outcomes ∧
      (flushBatch setup id (withoutUser user batch batch) env st).1 = .ok (withoutUser user batch outcomes) ∧
      Spares user kept (flushBatch setup id (withoutUser user batch batch) env st).2
        (flushBatch setup id batch env st).2 := by
  rcases row_eq env st id with ⟨error, hrow⟩ | ⟨found, hfound, hrow⟩
  · rw [flushBatch_of_error _ hrow, flushBatch_of_error _ hrow]
    refine ⟨_, rfl, ?_, .refl st⟩
    rw [withoutUser_map]
  · rw [flushBatch_of_row setup batch hrow, flushBatch_of_row setup (withoutUser user batch batch) hrow]
    refine ⟨_, rfl, ?_⟩
    by_cases howner : found.owner = user
    · have hrefused : checkBatch setup found (st.chunks id) ∅ (withoutUser user batch batch) =
          (∅, (withoutUser user batch batch).map fun _ => .error (.file .accessDenied)) :=
        checkBatch_of_foreign (howner ▸ withoutUser_foreign)
      have hverdicts : withoutUser user batch (checkBatch setup found (st.chunks id) ∅ batch).2 =
          (withoutUser user batch batch).map fun _ => .error (.file .accessDenied) := by
        rw [← verdicts_of_owner howner ∅ ∅ batch, hrefused]
      rw [hrefused, writeChunks_nothing, settled_refused, ← settled_map, hverdicts, settled_refused]
      refine ⟨rfl, ?_⟩
      have hchanges : Changes env user True st
          (writeChunks id (checkBatch setup found (st.chunks id) ∅ batch).1 env st).2 :=
        wp_final (p := Changes env user True st) (makes_writeChunks (mine_of_row hfound howner) _)
      exact hchanges.spares
    · rw [checkBatch_withoutUser howner]
      refine ⟨?_, .refl _⟩
      rw [settled_map]

end Requests

/-- A request of a user leaves alone what belongs to others, and so do the user's requests in a batch of
several users. -/
theorem owner_isolation (setup : Setup) (env : StoreEnv) (user : String) (st : Store) :
    (∀ request, Spares user (fun lease => env.monotonic < lease.deadline) st
      (st.afterRequest setup env user request)) ∧
    ∀ id batch, ∃ outcomes, (flushBatch setup id batch env st).1 = .ok outcomes ∧
      (flushBatch setup id (withoutUser user batch batch) env st).1 =
        .ok (withoutUser user batch outcomes) ∧
      Spares user (fun _ => True) (flushBatch setup id (withoutUser user batch batch) env st).2
        (flushBatch setup id batch env st).2 := by
  refine ⟨fun request => ?_, flushBatch_withoutUser setup⟩
  rcases afterRequest_effect setup env user st request with hchanges | ⟨data, reply, houtcome⟩
  · exact hchanges.spares
  · exact houtcome.spares

end CallBackend.Files
