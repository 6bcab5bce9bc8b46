import CallBackend.Files.Quota
import CallBackend.Files.Soundness

/-!
# An operation that fails at one step

One disk or database operation of a request fails, and all others succeed. A transaction takes the
tables back, but a blob that has been removed or created stays as it is. So a `delete` or a cleanup
that fails behind `unlink` leaves rows without their blob, and a `create` that fails behind `open`
leaves a blob that the next `create` runs into. These are the only ways in which one failing step does
any harm.
-/

namespace CallBackend.Files

open Exec Function

def StoreEnv.FailsAt (env : StoreEnv) (m : Nat) : Prop := ∀ n, env.succeeds n = decide (n ≠ m)

/-- `cleanup` as a whole, with what `glob` finds. -/
def cleanup (listed : List FileId) : StoreM Unit := do
  let now := (← ask).clock
  let expired := (← get).stale now
  forEach (fun id => sweep id now) expired
  forEach removeOrphan listed

inductive Operation where
  | create (user : String) (data : Json)
  | put (id : FileId) (batch : List PendingPut)
  | putBatch (user : String) (id : FileId) (upload : Upload)
  | request (user : String) (id : FileId) (data : Json)
  | cleanup (listed : List FileId)
  | native (user : String) (data : Json)

def Operation.run (setup : Setup) : Operation → StoreM Unit
  | .create user data => do let _ ← Files.create user data
  | .put id batch => do let _ ← flushBatch setup id batch
  | .putBatch user id upload => do let _ ← Files.putBatch setup user id upload
  | .request user id data => do let _ ← fileRequest user id data
  | .cleanup listed => Files.cleanup listed
  | .native user data => do let _ ← nativeFileRequest user data

def expireCost : Option FileRow → Nat
  | none => 0
  | some row => if row.state ≠ .deleted then 1 else 0

def forgetCost (now : Nat) : Option FileRow → Nat
  | none => 0
  | some row => if row.forgotten now then 1 else 0

/-- How many disk and database operations the cleanup of one file takes, with its `unlink`, the
deletion of its chunks and the commit. -/
def sweepCost (now : Nat) (row : Option FileRow) : Nat := expireCost row + forgetCost now row + 3

/-- The file whose rows are being cleaned up when an operation comes, if its blob is gone by then. -/
def sweptAt (files : FileTable) (now : Nat) : Nat → List FileId → Nat → Option FileId
  | _, [], _ => none
  | start, id :: rest, m =>
    if start < m ∧ m < start + sweepCost now (files.get? id) then some id
    else sweptAt files now (start + sweepCost now (files.get? id)) rest m

def Store.HasChunks (st : Store) (id : FileId) : Prop := ∃ index, (st.chunks id).get? index ≠ none

def FileRow.InUse (row : FileRow) (now : Nanos) : Prop := row.active = true ∧ now < seconds row.expires

/-- The failing operation comes behind a change of the blobs that is not taken back: behind the
`unlink` of a file in use or with chunks, or behind the `open` of a new one. -/
def Operation.Exposed (env : StoreEnv) (st : Store) (m : Nat) : Operation → Prop
  | .create _ data => ∃ file, NewFile.parse data = .ok file ∧ st.files.get? file.id = none ∧
      st.operations < m
  | .request _ id data => (data.get "op").text? = some "delete" ∧ st.operations + 2 ≤ m ∧
      ((∃ row, st.files.get? id = some row ∧ row.InUse env.now) ∨ st.HasChunks id)
  | .cleanup _ => ∃ id, sweptAt st.files env.clock st.operations (st.stale env.clock) m = some id ∧
      st.HasChunks id
  | _ => False

/-- A `create` that would have succeeded without the failure succeeds when it is repeated. -/
def Operation.Repeatable (env : StoreEnv) (st st' : Store) : Operation → Prop
  | .create user data =>
    (∃ reply st₁, Files.create user data { env with succeeds := fun _ => true } st = (.ok reply, st₁)) →
      ∀ later : StoreEnv, later.Faultless → env.clock ≤ later.clock →
        ∃ reply st₁, Files.create user data later st' = (.ok reply, st₁)
  | _ => True

section Steps

variable {α : Type} {setup : Setup} {env : StoreEnv} {m : Nat} {st : Store} {post : α → Store → Prop}
  {onFail : StoreExn → Store → Prop}

theorem wp_operate_failsAt {error : StoreExn} {post : Unit → Store → Prop} (henv : env.FailsAt m)
    (hpost : st.operations ≠ m → post () { st with operations := st.operations + 1 })
    (hfail : st.operations = m → onFail error { st with operations := st.operations + 1 }) :
    wp (operate error) env st post onFail := by
  rw [wp_operate_iff, henv st.operations, decide_eq_true_eq, not_not]
  exact ⟨hpost, hfail⟩

theorem wp_transaction_failsAt {m : Nat} {body : StoreM α} (henv : env.FailsAt m)
    (h : wp body env st
      (fun a st' => (st'.operations ≠ m → post a { st' with operations := st'.operations + 1 }) ∧
        (st'.operations = m → onFail .databaseError
          (Store.rolledBack { st' with operations := st'.operations + 1 } st)))
      fun e st' => onFail e (st'.rolledBack st)) :
    wp (transaction body) env st post onFail :=
  wp_transaction_iff.2 (wp_mono h (fun _ _ h => wp_operate_failsAt henv h.1 h.2) fun _ _ h => h)

variable {now : Nanos}

theorem soundFile_none_iff {row : Option FileRow} {chunks : Dict Nat Digest} :
    SoundFile setup now row chunks none ↔
      (∀ found, row = some found → ¬found.InUse now) ∧ ∀ index, chunks.get? index = none := by
  constructor
  · intro h
    refine ⟨fun found hfound huse => ?_, fun index => ?_⟩
    · cases h.present found hfound huse.1 huse.2
    · cases hchunk : chunks.get? index with
      | none => rfl
      | some digest =>
        obtain ⟨_, _, _, _, hblob, _⟩ := h.matched index digest hchunk
        cases hblob
  · rintro ⟨hrow, hchunks⟩
    refine ⟨fun found hfound hactive hlive => absurd ⟨hactive, hlive⟩ (hrow found hfound), ?_⟩
    intro index digest hchunk
    rw [hchunks index] at hchunk
    cases hchunk

theorem Store.Sound.without_blob_iff {id : FileId} {st' : Store} (h : st.Sound setup now)
    (hfiles : st'.files = st.files) (hchunks : st'.chunks = st.chunks)
    (hblobs : st'.blobs = Function.update st.blobs id none) :
    st'.Sound setup now ↔
      ¬((∃ row, st.files.get? id = some row ∧ row.InUse now) ∨ st.HasChunks id) := by
  have hid : st'.blobs id = none := by
    rw [hblobs]
    exact update_self ..
  have hiff : st'.Sound setup now ↔ SoundFile setup now (st.files.get? id) (st.chunks id) none := by
    constructor
    · intro hsound
      have hfile := hsound id
      rwa [hfiles, hchunks, hid] at hfile
    · intro hfile
      refine h.update id ⟨fun _ _ => by rw [hfiles], fun _ _ => by rw [hchunks], fun other hother => ?_⟩ ?_
      · rw [hblobs]
        exact update_of_ne hother _ _
      · rwa [hfiles, hchunks, hid]
  rw [hiff, soundFile_none_iff, not_or, not_exists, Store.HasChunks, not_exists]
  refine and_congr ?_ (forall_congr' fun index => not_not.symm)
  exact forall_congr' fun row => not_and.symm

theorem Store.Sound.congr {st' : Store} (h : st.Sound setup now) (hfiles : st'.files = st.files)
    (hchunks : st'.chunks = st.chunks) (hblobs : st'.blobs = st.blobs) : st'.Sound setup now := by
  intro id
  rw [hfiles, hchunks, hblobs]
  exact h id

end Steps

/-! ### A delete that fails -/

section Delete

variable {setup : Setup} {env : StoreEnv} {m : Nat} {st : Store} {user : String} {id : FileId} {data : Json}

/-- What an operation leaves behind: it has not come to the failing step, or the tables are as before,
and the blobs are unless the step comes behind the point where the blob of a file is removed. -/
def Leaves (m : Nat) (st : Store) (id : FileId) (unlinked : Nat) (st' : Store) : Prop :=
  st'.operations ≤ m ∨ (st'.files = st.files ∧ st'.chunks = st.chunks ∧
    ((m < unlinked ∧ st'.blobs = st.blobs) ∨
      (unlinked ≤ m ∧ st'.blobs = update st.blobs id none)))

theorem delete_leaves (henv : env.FailsAt m) (hstart : st.operations ≤ m)
    (hop : (data.get "op").text? = some "delete") :
    Leaves m st id (st.operations + 2) (fileRequest user id data env st).2 := by
  refine wp_final (p := Leaves m st id (st.operations + 2)) (wp_fileRequest (.inl hstart)
    (fun hother => absurd hop hother) (fun _ row _ _ => wp_transaction_failsAt henv ?_)
    fun hfinish => absurd (hop.symm.trans hfinish) (by decide))
  simp only [deleteFile, dropLease, setRow, unlink, deleteChunks, wp_do]
  refine wp_operate_failsAt henv (fun hupdate => ?_) fun hupdate => ?_
  · refine wp_operate_failsAt henv (fun hunlink => ?_) fun hunlink => ?_
    · refine wp_operate_failsAt henv (fun hdelete => ⟨fun hcommit => ?_, fun hcommit => ?_⟩) fun hdelete => ?_
      · dsimp only at hupdate hunlink hdelete hcommit
        refine .inl ?_
        dsimp only
        omega
      · dsimp only at hupdate hunlink hdelete hcommit
        exact .inr ⟨rfl, rfl, .inr ⟨by omega, rfl⟩⟩
      · dsimp only at hupdate hunlink hdelete
        exact .inr ⟨rfl, rfl, .inr ⟨by omega, rfl⟩⟩
    · dsimp only at hupdate hunlink
      exact .inr ⟨rfl, rfl, .inl ⟨by omega, rfl⟩⟩
  · dsimp only at hupdate
    exact .inr ⟨rfl, rfl, .inl ⟨by omega, rfl⟩⟩

theorem delete_sound_iff (henv : env.FailsAt m) (hsound : st.Sound setup env.now)
    (hstart : st.operations ≤ m) (hop : (data.get "op").text? = some "delete")
    (hreached : m < (fileRequest user id data env st).2.operations) :
    (fileRequest user id data env st).2.Sound setup env.now ↔
      ¬(st.operations + 2 ≤ m ∧
        ((∃ row, st.files.get? id = some row ∧ row.InUse env.now) ∨ st.HasChunks id)) := by
  rcases delete_leaves henv hstart hop with hleft | ⟨hfiles, hchunks, ⟨hearly, hblobs⟩ | ⟨hlate, hblobs⟩⟩
  · exact absurd hreached (Nat.not_lt.mpr hleft)
  · refine iff_of_true (hsound.congr hfiles hchunks hblobs) fun h => ?_
    exact absurd h.1 (Nat.not_le.mpr hearly)
  · rw [hsound.without_blob_iff hfiles hchunks hblobs]
    exact not_congr (and_iff_right hlate).symm

end Delete

/-! ### A cleanup that fails -/

section Cleanup

variable {setup : Setup} {env : StoreEnv} {m : Nat} {st : Store} {id : FileId} {now : Nat} {time : Nanos}

def FileRow.swept (row : FileRow) : FileRow :=
  if row.state = .deleted then row else { row with state := .expired }

theorem FileRow.not_inUse_swept (row : FileRow) (time : Nanos) : ¬row.swept.InUse time := by
  unfold FileRow.swept
  split_ifs with hstate
  · intro huse
    have hactive := huse.1
    rw [FileRow.active, hstate] at hactive
    cases hactive
  · intro huse
    cases huse.1

theorem FileRow.forgotten_swept (row : FileRow) (now : Nat) : row.swept.forgotten now = row.forgotten now := by
  unfold FileRow.swept
  split_ifs with hstate
  · rfl
  · rw [FileRow.forgotten, FileRow.forgotten, decide_eq_false hstate]
    rfl

theorem wp_expireRow_failsAt (henv : env.FailsAt m) (hstart : st.operations ≤ m) :
    wp (expireRow id) env st
      (fun _ st' => st'.operations = st.operations + expireCost (st.files.get? id) ∧ st'.operations ≤ m ∧
        st'.files.get? id = (st.files.get? id).map FileRow.swept ∧
        (∀ other, other ≠ id → st'.files.get? other = st.files.get? other) ∧
        st'.chunks = st.chunks ∧ st'.blobs = st.blobs)
      fun _ st' => m < st.operations + expireCost (st.files.get? id) ∧ st'.blobs = st.blobs := by
  simp only [expireRow, wp_do]
  cases hrow : st.files.get? id with
  | none => exact ⟨rfl, hstart, by rw [hrow]; rfl, fun _ _ => rfl, rfl, rfl⟩
  | some row =>
    simp only [setRow, wp_ite, wp_do, expireCost]
    refine ⟨fun hstate => ?_, fun hstate => ?_⟩
    · rw [if_pos hstate]
      refine wp_operate_failsAt henv (fun hne => ?_) fun heq => ⟨by omega, rfl⟩
      refine ⟨rfl, ?_, ?_, fun other hother => Dict.get?_set_of_ne _ _ (Ne.symm hother), rfl, rfl⟩
      · dsimp only
        omega
      · rw [Dict.get?_set_self, Option.map_some, FileRow.swept, if_neg hstate]
    · rw [if_neg hstate]
      refine ⟨rfl, hstart, ?_, fun _ _ => trivial, trivial, trivial⟩
      rw [hrow, Option.map_some, FileRow.swept, if_pos (not_not.mp hstate)]

theorem wp_forgetRow_failsAt (henv : env.FailsAt m) (hstart : st.operations ≤ m) :
    wp (forgetRow id now) env st
      (fun _ st' => st'.operations = st.operations + forgetCost now (st.files.get? id) ∧
        st'.operations ≤ m ∧
        (∀ row, st'.files.get? id = some row → st.files.get? id = some row) ∧
        (∀ other, other ≠ id → st'.files.get? other = st.files.get? other) ∧
        st'.chunks = st.chunks ∧ st'.blobs = st.blobs)
      fun _ st' => m < st.operations + forgetCost now (st.files.get? id) ∧ st'.blobs = st.blobs := by
  simp only [forgetRow, wp_do]
  cases hrow : st.files.get? id with
  | none => exact ⟨rfl, hstart, fun row hsome => hrow ▸ hsome, fun _ _ => rfl, rfl, rfl⟩
  | some row =>
    simp only [deleteRow, wp_ite, wp_do, forgetCost]
    refine ⟨fun hforgotten => ?_, fun hkept => ?_⟩
    · rw [if_pos hforgotten]
      refine wp_operate_failsAt henv (fun hne => ?_) fun heq => ⟨by omega, rfl⟩
      refine ⟨rfl, ?_, fun found hfound => ?_,
        fun other hother => Dict.get?_erase_of_ne _ (Ne.symm hother), rfl, rfl⟩
      · dsimp only
        omega
      · rw [Dict.get?_erase_self] at hfound
        cases hfound
    · rw [if_neg hkept]
      exact ⟨rfl, hstart, fun found hfound => hrow ▸ hfound, fun _ _ => trivial, trivial, trivial⟩

theorem forgetCost_swept (now : Nat) (row : Option FileRow) :
    forgetCost now (row.map FileRow.swept) = forgetCost now row := by
  cases row with
  | none => rfl
  | some row => rw [Option.map_some, forgetCost, forgetCost, FileRow.forgotten_swept]

variable (time) in
/-- The transaction of a cleanup fails as a whole, or leaves a row that needs no blob. -/
theorem wp_sweepRows_failsAt (henv : env.FailsAt m) (hstart : st.operations ≤ m) :
    wp (sweepRows id now) env st
      (fun _ st' => st'.operations + 1 = st.operations + sweepCost now (st.files.get? id) ∧
        st'.operations ≤ m ∧ (∀ other, other ≠ id → st'.files.get? other = st.files.get? other) ∧
        (∀ row, st'.files.get? id = some row → ¬row.InUse time) ∧
        st'.chunks = update st.chunks id ∅ ∧ st'.blobs = st.blobs)
      fun _ st' => m + 1 < st.operations + sweepCost now (st.files.get? id) ∧ st'.files = st.files ∧
        st'.chunks = st.chunks ∧ st'.blobs = st.blobs := by
  refine wp_transaction_failsAt henv ?_
  simp only [dropLease, deleteChunks, wp_do]
  refine wp_mono (wp_expireRow_failsAt henv hstart) ?_ fun _ st₁ h => ⟨?_, rfl, rfl, h.2⟩
  · rintro _ st₁ ⟨hcount, hbefore, hswept, hothers, hchunks, hblobs⟩
    dsimp only at hcount hswept hothers hchunks hblobs
    refine wp_operate_failsAt henv (fun hne => ?_) fun heq => ⟨?_, rfl, rfl, hblobs⟩
    · have hcost : forgetCost now (st₁.files.get? id) = forgetCost now (st.files.get? id) := by
        rw [hswept, forgetCost_swept]
      refine wp_mono (wp_forgetRow_failsAt henv (by dsimp only; omega)) ?_ fun _ st₂ h =>
        ⟨?_, rfl, rfl, h.2.trans hblobs⟩
      · rintro _ st₂ ⟨hcount₂, hbefore₂, hkept, hothers₂, hchunks₂, hblobs₂⟩
        dsimp only at hcount₂ hkept hothers₂ hchunks₂ hblobs₂
        rw [hcost] at hcount₂
        refine ⟨fun hcommit => ⟨?_, ?_, fun other hother => ?_, fun row hrow => ?_, ?_, ?_⟩, fun hcommit =>
          ⟨?_, rfl, rfl, hblobs₂.trans hblobs⟩⟩
        · rw [sweepCost]
          omega
        · omega
        · exact (hothers₂ other hother).trans (hothers other hother)
        · have hrow₁ := hkept row hrow
          rw [hswept] at hrow₁
          obtain ⟨original, -, rfl⟩ := Option.map_eq_some_iff.mp hrow₁
          exact original.not_inUse_swept time
        · rw [hchunks₂, hchunks]
        · exact hblobs₂.trans hblobs
        · rw [sweepCost]
          omega
      · have hm := h.1
        dsimp only at hm
        rw [hcost] at hm
        rw [sweepCost]
        omega
    · rw [sweepCost]
      omega
  · rw [sweepCost]
    have hm := h.1
    dsimp only at hm
    omega

theorem wp_sweep (henv : env.FailsAt m) (hstart : st.operations ≤ m) (hsound : st.Sound setup time) :
    wp (sweep id now) env st
      (fun _ st' => st'.operations = st.operations + sweepCost now (st.files.get? id) ∧ st'.operations ≤ m ∧
        Aside id st st' ∧ st'.Sound setup time)
      fun _ st' => m < st.operations + sweepCost now (st.files.get? id) ∧ st'.files = st.files ∧
        st'.chunks = st.chunks ∧ ((m = st.operations ∧ st'.blobs = st.blobs) ∨
          (st.operations < m ∧ st'.blobs = update st.blobs id none)) := by
  simp only [sweep, unlink, wp_do]
  refine wp_operate_failsAt henv (fun hne => ?_) fun heq => ⟨?_, rfl, rfl, .inl ⟨heq.symm, rfl⟩⟩
  · refine wp_mono (wp_sweepRows_failsAt time henv (by dsimp only; omega)) ?_ ?_
    · rintro _ st' ⟨hcount, hbefore, hothers, hunused, hchunks, hblobs⟩
      dsimp only at hcount hothers hunused hchunks hblobs
      have haside : Aside id st st' := by
        refine ⟨hothers, fun other hother => ?_, fun other hother => ?_⟩
        · rw [hchunks, update_of_ne hother]
        · rw [hblobs, update_of_ne hother]
      refine ⟨by omega, hbefore, haside, hsound.update id haside ?_⟩
      rw [hchunks, hblobs, update_self, update_self, soundFile_none_iff]
      exact ⟨hunused, fun _ => rfl⟩
    · rintro _ st' ⟨hm, hfiles, hchunks, hblobs⟩
      dsimp only at hm hfiles hchunks hblobs
      exact ⟨by omega, hfiles, hchunks, .inr ⟨by omega, hblobs⟩⟩
  · rw [sweepCost]
    omega

variable {files : FileTable} {ids : List FileId} {start : Nat}

theorem sweptAt_congr {files' : FileTable} (h : ∀ id ∈ ids, files'.get? id = files.get? id) :
    sweptAt files' now start ids m = sweptAt files now start ids m := by
  induction ids generalizing start with
  | nil => rfl
  | cons id ids ih =>
    rw [sweptAt, sweptAt, h id (.head _),
      ih fun other hother => h other (.tail _ hother)]

theorem sweptAt_of_le (h : m ≤ start) :
    sweptAt files now start ids m = none := by
  induction ids generalizing start with
  | nil => rfl
  | cons id ids ih =>
    rw [sweptAt, if_neg (by omega)]
    exact ih (by omega)

theorem mem_of_sweptAt (h : sweptAt files now start ids m = some id) : id ∈ ids := by
  induction ids generalizing start with
  | nil => cases h
  | cons other ids ih =>
    rw [sweptAt] at h
    split_ifs at h
    · cases h
      exact .head _
    · exact .tail _ (ih h)

/-- A cleanup that comes to an end has not met the failing step, and one that fails has left a file
without its blob if and only if the step was in the transaction of a file with chunks. -/
theorem wp_sweeps (henv : env.FailsAt m) (hdistinct : ids.Nodup) (hstart : st.operations ≤ m)
    (hsound : st.Sound setup time)
    (hunused : ∀ id ∈ ids, ∀ row, st.files.get? id = some row → ¬row.InUse time) :
    wp (forEach (fun id => sweep id now) ids) env st
      (fun _ st' => st'.Sound setup time ∧ sweptAt st.files now st.operations ids m = none)
      fun _ st' => st'.Sound setup time ↔
        ¬∃ id, sweptAt st.files now st.operations ids m = some id ∧ st.HasChunks id := by
  induction ids generalizing st with
  | nil => exact ⟨hsound, rfl⟩
  | cons id ids ih =>
    rw [List.nodup_cons] at hdistinct
    simp only [forEach, wp_bind]
    refine wp_mono (wp_sweep henv hstart hsound) ?_ ?_
    · rintro _ st₁ ⟨hcount, hbefore, haside, hsound₁⟩
      have hothers : ∀ other ∈ ids, other ≠ id := fun other hmem heq => hdistinct.1 (heq ▸ hmem)
      have hfiles : ∀ other ∈ ids, st₁.files.get? other = st.files.get? other :=
        fun other hmem => haside.files other (hothers other hmem)
      have hnext : sweptAt st.files now st.operations (id :: ids) m =
          sweptAt st₁.files now st₁.operations ids m := by
        rw [sweptAt, if_neg (by omega), ← hcount, sweptAt_congr hfiles]
      have hlater := ih hdistinct.2 hbefore hsound₁ fun other hmem row hrow => by
        rw [hfiles other hmem] at hrow
        exact hunused other (.tail _ hmem) row hrow
      rw [hnext]
      refine wp_mono hlater (fun _ _ h => h) fun _ st₂ hst₂ => hst₂.trans (not_congr ?_)
      refine exists_congr fun other => and_congr_right fun hswept => ?_
      rw [Store.HasChunks, Store.HasChunks, haside.chunks other (hothers other (mem_of_sweptAt hswept))]
    · rintro _ st₁ ⟨hm, hfiles, hchunks, ⟨hfirst, hblobs⟩ | ⟨hlate, hblobs⟩⟩
      · -- the blob could not be removed
        refine iff_of_true (hsound.congr hfiles hchunks hblobs) ?_
        rintro ⟨other, hswept, -⟩
        rw [sweptAt_of_le (Nat.le_of_eq hfirst)] at hswept
        cases hswept
      · have hswept : sweptAt st.files now st.operations (id :: ids) m = some id := by
          rw [sweptAt, if_pos ⟨hlate, hm⟩]
        have hfree : ¬∃ row, st.files.get? id = some row ∧ row.InUse time := by
          rintro ⟨row, hrow, huse⟩
          exact hunused id (.head _) row hrow huse
        rw [hsound.without_blob_iff hfiles hchunks hblobs, or_iff_right hfree, hswept]
        refine not_congr ⟨fun h => ⟨id, rfl, h⟩, ?_⟩
        rintro ⟨other, hother, h⟩
        cases hother
        exact h

theorem mem_stale (h : id ∈ st.stale now) : ∃ row, st.files.get? id = some row ∧
    (row.expires ≤ now ∨ row.state = .expired ∨ row.state = .deleted) := by
  obtain ⟨⟨found, row⟩, hmem, rfl⟩ := List.mem_map.mp h
  obtain ⟨hentry, hstale⟩ := List.mem_filter.mp hmem
  refine ⟨row, (st.files.mem_entries_iff _ _).mp hentry, ?_⟩
  rwa [Bool.or_eq_true, Bool.or_eq_true, decide_eq_true_eq, decide_eq_true_eq, decide_eq_true_eq,
    or_assoc] at hstale

theorem nodup_stale (st : Store) (now : Nat) : (st.stale now).Nodup :=
  List.Nodup.sublist (List.filter_sublist.map _) st.files.nodup

theorem not_inUse_of_stale (h : id ∈ st.stale env.clock) {row : FileRow} (hrow : st.files.get? id = some row) :
    ¬row.InUse env.now := by
  obtain ⟨found, hfound, hstale⟩ := mem_stale h
  rw [hrow, Option.some.injEq] at hfound
  subst hfound
  rintro ⟨hactive, hlive⟩
  rcases hstale with hexpired | hstate | hstate
  · have hclock : row.expires * 1000000000 ≤ env.now :=
      (Nat.mul_le_mul_right _ hexpired).trans (Nat.div_mul_le_self _ _)
    exact absurd hlive (Nat.not_lt.mpr hclock)
  · rw [FileRow.active, hstate] at hactive
    cases hactive
  · rw [FileRow.active, hstate] at hactive
    cases hactive

theorem keepsSound_removeOrphan (h : st.Sound setup time) : KeepsSound setup time env st (removeOrphan id) := by
  unfold KeepsSound
  simp only [removeOrphan, unlink, wp_do, wp_ite]
  refine ⟨fun hrow => wp_operate (fun n => ?_) fun n => h, fun _ => h⟩
  exact h.with_blob hrow
    ⟨fun _ _ => rfl, fun _ _ => rfl, fun other hother => update_of_ne hother _ _⟩ hrow rfl

theorem cleanup_sound_iff (henv : env.FailsAt m) (hsound : st.Sound setup env.now)
    (hstart : st.operations ≤ m) (listed : List FileId) :
    (cleanup listed env st).2.Sound setup env.now ↔
      ¬∃ id, sweptAt st.files env.clock st.operations (st.stale env.clock) m = some id ∧ st.HasChunks id := by
  refine wp_final (p := fun st' : Store => st'.Sound setup env.now ↔
    ¬∃ id, sweptAt st.files env.clock st.operations (st.stale env.clock) m = some id ∧ st.HasChunks id) ?_
  simp only [cleanup, wp_do]
  refine wp_mono (wp_sweeps henv (nodup_stale st env.clock) hstart hsound
    fun id hid row hrow => not_inUse_of_stale hid hrow) ?_ fun _ _ h => h
  rintro _ st₁ ⟨hsound₁, hnone⟩
  have hnothing : ¬∃ id, sweptAt st.files env.clock st.operations (st.stale env.clock) m = some id ∧
      st.HasChunks id := by
    rintro ⟨id, hswept, -⟩
    rw [hnone] at hswept
    cases hswept
  have horphans : wp (forEach removeOrphan listed) env st₁ (fun _ st' => st'.Sound setup env.now)
      fun _ st' => st'.Sound setup env.now :=
    wp_forEach (fun id _ st' hst' => keepsSound_removeOrphan hst') hsound₁
  exact wp_mono horphans (fun _ _ h => iff_of_true h hnothing) fun _ _ h => iff_of_true h hnothing

end Cleanup

/-! ### A create that fails -/

section Create

variable {setup : Setup} {env : StoreEnv} {m : Nat} {st : Store} {user : String} {data : Json}

theorem NewFile.idPattern_of_parse {file : NewFile} (h : NewFile.parse data = .ok file) :
    idPattern file.id = true := by
  unfold NewFile.parse at h
  cases hid : fileId? (data.get "id") with
  | none =>
    rw [hid] at h
    cases h
  | some id =>
    rw [hid] at h
    have hpattern : idPattern id = true := by
      unfold fileId? at hid
      split at hid
      · split_ifs at hid with hpattern
        cases hid
        exact hpattern
      · cases hid
    obtain ⟨size, -, h⟩ := except_bind_eq_ok.1 h
    obtain ⟨ttl, -, h⟩ := except_bind_eq_ok.1 h
    by_cases haccess : (data.find? "access").isSome = true
    · cases (if_pos haccess).symm.trans h
    · replace h := (if_neg haccess).symm.trans h
      obtain ⟨_, -, h⟩ := except_bind_eq_ok.1 h
      obtain ⟨_, -, h⟩ := except_bind_eq_ok.1 h
      cases h
      exact hpattern

theorem wp_checkQuotas_room {size : Nat} {post : Unit → Store → Prop} {onFail : StoreExn → Store → Prop}
    (hroom : HasRoom st.files env.clock user size) (hpost : post () st) :
    wp (checkQuotas user size) env st post onFail := by
  simp only [checkQuotas, fail, wp_do, wp_ite]
  refine ⟨fun hfull => absurd hroom.links (Nat.not_lt.mpr hfull), fun _ => ⟨fun hfull => ?_, fun _ => hpost⟩⟩
  rcases hfull with hfull | hfull | hfull | hfull
  · exact absurd hroom.active (Nat.not_lt.mpr hfull)
  · exact absurd hroom.owned (Nat.not_lt.mpr hfull)
  · exact absurd hroom.bytes (Nat.not_le.mpr hfull)
  · exact absurd hroom.ownBytes (Nat.not_le.mpr hfull)

def Creatable (clock : Nat) (user : String) (st : Store) (file : NewFile) : Prop :=
  (∃ row, st.files.get? file.id = some row ∧ row.state ≠ .deleted ∧ row.owner = user ∧
    row.envelope = file.envelope) ∨
  (st.files.get? file.id = none ∧ HasRoom st.files clock user file.size ∧ st.blobs file.id = none)

theorem create_succeeds_iff (henv : env.Faultless) :
    (∃ reply st', create user data env st = (.ok reply, st')) ↔
      ∃ file, NewFile.parse data = .ok file ∧ Creatable env.clock user st file := by
  constructor
  · rintro ⟨reply, st', hrun⟩
    have hwp : wp (create user data) env st
        (fun _ _ => ∃ file, NewFile.parse data = .ok file ∧ Creatable env.clock user st file)
        fun _ _ => True := by
      simp only [create, wp_bind, wp_lift]
      refine ⟨fun file hfile => wp_transaction ?_, fun _ _ => trivial⟩
      simp only [wp_do, wp_ite]
      refine ⟨fun _ => ?_, fun hnew => ?_⟩
      · refine wp_row (fun row hrow hdeleted => ?_) fun _ => trivial
        simp only [fail, wp_raise]
        refine ⟨fun _ => trivial, fun hsame => ⟨fun _ => ⟨file, hfile, .inl ⟨row, hrow, hdeleted, ?_⟩⟩, fun _ => trivial⟩⟩
        rw [not_or, not_not, not_not] at hsame
        exact hsame
      · have hnone : st.files.get? file.id = none := by simpa using hnew
        refine wp_checkQuotas (fun hroom => ?_) fun _ => trivial
        simp only [dropLease, createBlob, wp_do, wp_ensure]
        refine wp_operate (fun n => ⟨fun hblob => ?_, fun _ => trivial⟩) fun _ => trivial
        have hcreatable := (⟨file, hfile, .inr ⟨hnone, hroom, hblob⟩⟩ :
          ∃ file, NewFile.parse data = .ok file ∧ Creatable env.clock user st file)
        refine wp_operate (fun _ => ?_) fun _ => trivial
        refine wp_mono (wp_true _) (fun _ _ _ => ?_) fun _ _ _ => trivial
        exact wp_mono (wp_true _) (fun _ _ _ => ⟨fun _ => hcreatable, fun _ => trivial⟩) fun _ _ _ => trivial
    exact wp_ok hwp hrun
  · rintro ⟨file, hfile, hcreatable⟩
    have hwp : wp (create user data) env st (fun _ _ => True) fun _ _ => False := by
      simp only [create, wp_bind, wp_lift]
      refine ⟨fun found hfound => ?_, fun error herror => ?_⟩
      · rw [hfile] at hfound
        cases hfound
        refine wp_transaction_faultless henv ?_
        simp only [wp_do, wp_ite]
        rcases hcreatable with ⟨row, hrow, hdeleted, howner, henvelope⟩ | ⟨hnone, hroom, hblob⟩
        · refine ⟨fun _ => ?_, fun hnew => absurd (by rw [hrow]; rfl) hnew⟩
          refine wp_row_stored (NewFile.idPattern_of_parse hfile) hrow hdeleted ?_
          simp only [fail, wp_raise]
          exact ⟨fun hother => hother.elim (fun h => h howner) fun h => h henvelope, fun _ => trivial⟩
        · have hnew : ¬(st.files.get? file.id).isSome = true := by
            rw [hnone]
            intro h
            cases h
          refine ⟨fun hsome => absurd hsome hnew, fun _ => ?_⟩
          refine wp_checkQuotas_room hroom ?_
          simp only [dropLease, createBlob, setRow, wp_do, wp_ensure]
          refine wp_operate_faultless henv ⟨fun _ => ?_, fun hother => absurd hblob hother⟩
          refine wp_operate_faultless henv (wp_operate_faultless henv ?_)
          exact wp_row_stored (NewFile.idPattern_of_parse hfile) (Dict.get?_set_self ..) (fun h => by cases h) trivial
      · rw [hfile] at herror
        cases herror
    obtain ⟨reply, st', hrun, -⟩ := wp_total hwp
    exact ⟨reply, st', hrun⟩

theorem create_leaves (henv : env.FailsAt m) (hstart : st.operations ≤ m) :
    (create user data env st).2.operations ≤ m ∨
      ((create user data env st).2.files = st.files ∧
        ((m = st.operations ∧ (create user data env st).2.blobs = st.blobs) ∨
          ∃ file, NewFile.parse data = .ok file ∧ st.files.get? file.id = none ∧
            HasRoom st.files env.clock user file.size ∧ st.blobs file.id = none ∧ st.operations < m ∧
            (create user data env st).2.blobs = update st.blobs file.id (some {}))) := by
  refine wp_final (p := fun st' : Store => st'.operations ≤ m ∨ (st'.files = st.files ∧
    ((m = st.operations ∧ st'.blobs = st.blobs) ∨
      ∃ file, NewFile.parse data = .ok file ∧ st.files.get? file.id = none ∧
        HasRoom st.files env.clock user file.size ∧ st.blobs file.id = none ∧ st.operations < m ∧
        st'.blobs = update st.blobs file.id (some {})))) ?_
  simp only [create, wp_bind, wp_lift]
  refine ⟨fun file hfile => wp_transaction_failsAt henv ?_, fun _ _ => .inl hstart⟩
  simp only [wp_do, wp_ite]
  refine ⟨fun _ => ?_, fun hnew => ?_⟩
  · refine wp_row (fun row _ _ => ?_) fun _ => .inl hstart
    simp only [fail, wp_raise]
    refine ⟨fun _ => .inl hstart, fun _ => ⟨fun hne => .inl ?_, fun heq => .inr ⟨rfl, .inl ⟨heq.symm, rfl⟩⟩⟩⟩
    omega
  · have hnone : st.files.get? file.id = none := by simpa using hnew
    refine wp_checkQuotas (fun hroom => ?_) fun _ => .inl hstart
    simp only [dropLease, createBlob, setRow, wp_do, wp_ensure]
    refine wp_operate_failsAt henv (fun hopen => ⟨fun hblob => ?_, fun _ => .inl ?_⟩) fun hopen => ?_
    · refine wp_operate_failsAt henv (fun hsync => ?_) fun hsync => ?_
      · refine wp_operate_failsAt henv (fun hinsert => ?_) fun hinsert => ?_
        · refine wp_row (fun row _ _ => ⟨fun hcommit => .inl ?_, fun hcommit => ?_⟩) fun _ => .inl ?_
          · dsimp only at hopen hsync hinsert hcommit ⊢
            omega
          · dsimp only at hopen hsync hinsert hcommit
            exact .inr ⟨rfl, .inr ⟨file, hfile, hnone, hroom, hblob, by omega, rfl⟩⟩
          · dsimp only [Store.rolledBack] at hopen hsync hinsert ⊢
            omega
        · dsimp only at hopen hsync hinsert
          exact .inr ⟨rfl, .inr ⟨file, hfile, hnone, hroom, hblob, by omega, rfl⟩⟩
      · dsimp only at hopen hsync
        exact .inr ⟨rfl, .inr ⟨file, hfile, hnone, hroom, hblob, by omega, rfl⟩⟩
    · dsimp only [Store.rolledBack] at hopen ⊢
      omega
    · dsimp only at hopen
      exact .inr ⟨rfl, .inl ⟨hopen.symm, rfl⟩⟩

theorem HasRoom.later {files : FileTable} {clock clock' size : Nat} (h : HasRoom files clock user size)
    (hclock : clock ≤ clock') : HasRoom files clock' user size := by
  refine ⟨(number_le_number fun row hrow => ?_).trans_lt h.links, h.active, h.owned, h.bytes, h.ownBytes⟩
  rw [Bool.and_eq_true, decide_eq_true_eq] at hrow ⊢
  exact ⟨hrow.1, hclock.trans_lt hrow.2⟩

theorem create_repeatable_iff (henv : env.FailsAt m) (hstart : st.operations ≤ m)
    (hreached : m < (create user data env st).2.operations) :
    Operation.Repeatable env st (create user data env st).2 (.create user data) ↔
      ¬∃ file, NewFile.parse data = .ok file ∧ st.files.get? file.id = none ∧ st.operations < m := by
  have hunfailing : ({ env with succeeds := fun _ => true } : StoreEnv).Faultless := fun _ => rfl
  have hleaves : _ ∨ ((create user data env st).2.files = st.files ∧ _) := create_leaves henv hstart
  rcases hleaves with hleft | ⟨hfiles, ⟨hfirst, hblobs⟩ | ⟨file, hfile, hnone, hroom, hblob, hlate, hblobs⟩⟩
  · exact absurd hreached (Nat.not_lt.mpr hleft)
  · refine iff_of_true (fun hsucceeds later hlater hclock => ?_) ?_
    · obtain ⟨file, hfile, hcreatable⟩ := (create_succeeds_iff hunfailing).mp hsucceeds
      refine (create_succeeds_iff hlater).mpr ⟨file, hfile, ?_⟩
      rw [Creatable, hfiles, hblobs]
      rcases hcreatable with hrow | ⟨hnone, hroom, hblob⟩
      · exact .inl hrow
      · exact .inr ⟨hnone, HasRoom.later hroom hclock, hblob⟩
    · rintro ⟨file, -, -, hlate⟩
      omega
  · refine iff_of_false (fun hrepeatable => ?_) fun h => h ⟨file, hfile, hnone, hlate⟩
    have hsucceeds := (create_succeeds_iff hunfailing).mpr ⟨file, hfile, .inr ⟨hnone, hroom, hblob⟩⟩
    obtain ⟨found, hfound, hcreatable⟩ :=
      (create_succeeds_iff hunfailing).mp (hrepeatable hsucceeds _ hunfailing (Nat.le_refl _))
    rw [hfile] at hfound
    cases hfound
    rcases hcreatable with ⟨row, hrow, -⟩ | ⟨-, -, hmissing⟩
    · rw [hfiles, hnone] at hrow
      cases hrow
    · rw [hblobs, update_self] at hmissing
      cases hmissing

end Create

/-! ### Every operation -/

section Every

variable {setup : Setup} {env : StoreEnv} {m : Nat} {st : Store} {user : String} {data : Json}

theorem native_succeeds_before (henv : env.FailsAt m) (hstart : st.operations ≤ m) :
    wp (nativeFileRequest user data) env st (fun _ st' => st'.operations ≤ m) fun _ _ => True := by
  simp only [nativeFileRequest, wp_bind, wp_require]
  refine ⟨fun id _ => ?_, fun _ => trivial⟩
  refine wp_row (fun row _ _ => ?_) fun _ => trivial
  simp only [fail, wp_do, wp_ite, wp_lift]
  refine ⟨fun _ => trivial, fun _ => ⟨fun _ => ?_, fun _ => ⟨fun _ => trivial, fun _ => ⟨fun _ => trivial,
    fun _ => ⟨fun _ => trivial, fun _ => ⟨fun parsed _ => ⟨fun _ => ?_, fun _ => ?_⟩, fun _ _ => trivial⟩⟩⟩⟩⟩⟩
  · simp only [read, fail, wp_do, wp_ite]
    refine ⟨fun _ => trivial, fun _ => ?_⟩
    split
    · simp only [wp_do, wp_ite, wp_lift]
      exact ⟨fun _ => trivial, fun _ => ⟨fun _ _ => ⟨fun _ => trivial, fun _ => ⟨fun _ => hstart, fun _ => hstart⟩⟩,
        fun _ _ => trivial⟩⟩
    · trivial
  · simp only [commit, wp_do, wp_require, wp_ensure]
    refine ⟨fun lease _ => ⟨fun _ => ?_, fun _ => trivial⟩, fun _ => trivial⟩
    refine wp_transaction_failsAt henv ?_
    have hloop : wp (forEach (fun chunk => insertChunk id chunk.index chunk.digest)
        ((row.binding parsed.1).chunks.filter fun chunk => chunk.index ∈ parsed.2)) env st
        (fun _ st' => st'.operations ≤ m) fun _ _ => True := by
      refine wp_forEach (fun chunk _ st₁ hst₁ => ?_) hstart
      simp only [insertChunk, wp_do, wp_ensure]
      refine wp_operate_failsAt henv (fun hne => ⟨fun _ => ?_, fun _ => trivial⟩) fun _ => trivial
      dsimp only
      omega
    refine wp_mono hloop (fun _ st₁ hst₁ => ⟨fun hne => ?_, fun _ => trivial⟩) fun _ _ _ => trivial
    simp only [dropLease, wp_do]
    omega
  · simp only [prepare, fail, wp_do, wp_ite]
    exact ⟨fun _ => trivial, fun _ => hstart⟩

theorem sound_of_native (henv : env.FailsAt m) (hsound : st.Sound setup env.now) (hstart : st.operations ≤ m)
    (hreached : m < (nativeFileRequest user data env st).2.operations) :
    (nativeFileRequest user data env st).2.Sound setup env.now := by
  have hwp : wp (nativeFileRequest user data) env st
      (fun _ st' => st'.operations ≤ m ∨ st'.Sound setup env.now)
      fun _ st' => st'.operations ≤ m ∨ st'.Sound setup env.now :=
    wp_mono (wp_and (native_succeeds_before henv hstart) comes_nativeFileRequest)
      (fun _ _ h => .inl h.1) fun _ _ h => .inr (h.2.sound_of_none hsound)
  rcases wp_final (p := fun st' : Store => st'.operations ≤ m ∨ st'.Sound setup env.now) hwp with hleft | hkept
  · exact absurd hreached (Nat.not_lt.mpr hleft)
  · exact hkept

/-- The state an operation ends in does not depend on what becomes of its result. -/
theorem run_state {α : Type} (action : StoreM α) (env : StoreEnv) (st : Store) :
    ((do let _ ← action : StoreM Unit) env st).2 = (action env st).2 := by
  refine wp_final (p := fun st' : Store => st' = (action env st).2) ?_
  simp only [wp_do]
  exact wp_of_final (p := fun st' : Store => st' = (action env st).2) rfl

/-- When one step of an operation fails, the store stays sound and a `create` can be repeated if and
only if the step does not come behind a removed or a new blob. -/
theorem sound_after_failure_iff (setup : Setup) {env : StoreEnv} {m : Nat} (henv : env.FailsAt m) {st : Store}
    (hsound : st.Sound setup env.now) (op : Operation) (hstart : st.operations ≤ m)
    (hreached : m < (op.run setup env st).2.operations) :
    ((op.run setup env st).2.Sound setup env.now ∧ op.Repeatable env st (op.run setup env st).2) ↔
      ¬op.Exposed env st m := by
  cases op with
  | create user data =>
    rw [Operation.run, run_state] at hreached ⊢
    refine (and_iff_right ?_).trans (create_repeatable_iff henv hstart hreached)
    exact wp_final (p := fun st' : Store => st'.Sound setup env.now) (keepsSound_create hsound user data)
  | put id batch =>
    rw [Operation.run, run_state]
    exact iff_of_true ⟨wp_final (p := fun st' : Store => st'.Sound setup env.now)
      (keepsSound_flushBatch hsound batch), trivial⟩ nofun
  | putBatch user id upload =>
    rw [Operation.run, run_state]
    exact iff_of_true ⟨wp_final (p := fun st' : Store => st'.Sound setup env.now)
      (keepsSound_putBatch hsound user upload), trivial⟩ nofun
  | request user id data =>
    rw [Operation.run, run_state] at hreached ⊢
    refine (and_iff_left trivial).trans ?_
    by_cases hop : (data.get "op").text? = some "delete"
    · rw [delete_sound_iff henv hsound hstart hop hreached]
      exact not_congr (and_iff_right hop).symm
    · exact iff_of_true (wp_final (p := fun st' : Store => st'.Sound setup env.now)
        (keepsSound_fileRequest hsound user hop)) fun h => hop h.1
  | cleanup listed => exact (and_iff_left trivial).trans (cleanup_sound_iff henv hsound hstart listed)
  | native user data =>
    rw [Operation.run, run_state] at hreached ⊢
    exact iff_of_true ⟨sound_of_native henv hsound hstart hreached, trivial⟩ nofun

end Every

namespace Sample

def lostId : FileId := "ffffffffffffffffffffffffffffffff"

def plainSetup : Setup := ⟨fun _ => ""⟩

def lost : Store where
  files := (∅ : FileTable).set lostId ⟨"alice", 1, 100, 0, .uploading, "AAAA", "AAAA"⟩
  blobs := update (fun _ => none) lostId (some {})

def failing (m : Nat) : StoreEnv := ⟨seconds 1, 0, "", fun n => decide (n ≠ m), fun _ => 0⟩

def deletion : Json := .obj [("op", .str "delete")]

def creation : Json :=
  .obj [("op", .str "create"), ("id", .str lostId), ("size", .int 1), ("ttl", .int 60),
    ("envelope", .str "AAAA"), ("manifest", .str "AAAA")]

theorem sound_lost : lost.Sound plainSetup (seconds 1) := by
  intro id
  refine ⟨fun found hfound _ _ => ?_, nofun⟩
  by_cases hid : id = lostId
  · subst hid
    rfl
  · have hnone : lost.files.get? id = none := Dict.get?_set_of_ne _ _ (Ne.symm hid)
    rw [hnone] at hfound
    cases hfound

end Sample

open Sample in
/-- A `delete` whose third operation fails leaves an upload without its blob, and a `create` whose
second one fails cannot be repeated. -/
theorem failed_delete_and_create :
    (lost.Sound plainSetup (failing 2).now ∧
      2 < ((Operation.request "alice" lostId deletion).run plainSetup (failing 2) lost).2.operations ∧
      ¬((Operation.request "alice" lostId deletion).run plainSetup (failing 2) lost).2.Sound plainSetup
        (failing 2).now) ∧
    ({} : Store).Sound plainSetup (failing 1).now ∧
      1 < ((Operation.create "alice" creation).run plainSetup (failing 1) {}).2.operations ∧
      ¬(Operation.create "alice" creation).Repeatable (failing 1) {}
        ((Operation.create "alice" creation).run plainSetup (failing 1) {}).2 := by
  refine ⟨⟨sound_lost, by decide +kernel, fun hsound => ?_⟩, fun id => ⟨nofun, nofun⟩, by decide +kernel,
    fun hrepeatable => ?_⟩
  · rw [Operation.run, run_state] at hsound
    have hfails : (failing 2).FailsAt 2 := fun _ => rfl
    have hkept := (delete_sound_iff hfails sound_lost (Nat.zero_le 2) rfl (by decide +kernel)).mp hsound
    exact hkept ⟨Nat.le_refl 2, .inl ⟨_, Dict.get?_set_self .., by decide, by decide⟩⟩
  · rw [Operation.run, run_state] at hrepeatable
    have hfails : (failing 1).FailsAt 1 := fun _ => rfl
    have hkept := (create_repeatable_iff hfails (Nat.zero_le 1) (by decide +kernel)).mp hrepeatable
    exact hkept ⟨⟨lostId, 1, 60, "AAAA", "AAAA"⟩, by rfl, rfl, Nat.zero_lt_one⟩

open Sample in
theorem sound_after_failure_iff_delete :
    ((Operation.request "alice" lostId deletion).run plainSetup (failing 1) lost).2.Sound plainSetup (seconds 1) := by
  have hfails : (failing 1).FailsAt 1 := fun _ => rfl
  have hiff := sound_after_failure_iff plainSetup hfails sound_lost (.request "alice" lostId deletion)
    (Nat.zero_le 1) (by decide +kernel)
  exact (hiff.mpr fun hexposed => absurd hexposed.2.1 (by decide)).1

end CallBackend.Files
