import CallBackend.Files.Writing

/-!
# Puts that are flushed together

`put` collects the requests for one file and lets the first of them flush the batch. The batch checks
each request against the table and against what the batch is to write already, so that a request is
judged as if those before it had been flushed alone. Nothing is written until all are judged.

A request is answered through its future. `lead` models what is called on the futures, with the reads
that can fail on the way: the lock file, the row of the file, and the chunk that is there already.
-/

namespace CallBackend.Files

open Exec

def flushEach (setup : Setup) (id : FileId) : List PendingPut → StoreM (List (Except StoreExn Unit))
  | [] => return []
  | put :: rest => do
    let first ← flushBatch setup id [put]
    let later ← flushEach setup id rest
    return first ++ later

/-! ### Futures -/

/-- The calls of `set_result` and `set_exception`, by the place of the request in the batch. -/
abbrev Resolutions : Type := List (Nat × Except StoreExn Unit)

/-- Which reads succeed; there is one for each request that passes its checks. -/
structure Reads where
  lock : Bool
  row : Bool
  chunk : Nat → Bool

structure Flush where
  writes : Writes := ∅
  accepted : List Nat := []
  resolved : Resolutions := []

/-- The loop of `flush_batch` from the `n`-th request on. A read that fails ends it. -/
def Flush.check (setup : Setup) (reads : Reads) (row : FileRow) (stored : Dict Nat Digest) :
    Nat → Flush → List PendingPut → Flush × Option StoreExn
  | _, flush, [] => (flush, none)
  | n, flush, put :: rest =>
    match put.fields row with
    | .error error =>
      check setup reads row stored (n + 1)
        { flush with resolved := flush.resolved ++ [(n, .error error)] } rest
    | .ok (index, chunk) =>
      if reads.chunk n = false then (flush, some .databaseError)
      else
        match addChunk stored flush.writes index chunk (setup.sha256 chunk) with
        | .error error =>
          check setup reads row stored (n + 1)
            { flush with resolved := flush.resolved ++ [(n, .error error)] } rest
        | .ok writes =>
          check setup reads row stored (n + 1)
            { flush with writes, accepted := flush.accepted ++ [n] } rest

/-- `flush_batch` under the lock: the calls it makes, and what it raises. -/
def flushFutures (setup : Setup) (reads : Reads) (id : FileId) (batch : List PendingPut) :
    StoreM (Resolutions × Option StoreExn) :=
  if reads.lock = false then return ([], some .osError)
  else
    rescue (do
      ensure (reads.row = true) .databaseError
      let row ← Files.row id
      let checked := Flush.check setup reads row ((← get).chunks id) 0 {} batch
      match checked.2 with
      | some error => return (checked.1.resolved, some error)
      | none =>
        rescue (do
          writeChunks id checked.1.writes
          return (checked.1.resolved ++ checked.1.accepted.map fun n => (n, .ok ()), none))
          fun error => return (checked.1.resolved, some error))
      fun error => return ([], some error)

/-- The requests whose futures have not been resolved. -/
def waiting (count : Nat) (resolved : Resolutions) : List Nat :=
  (List.range count).filter fun n => n ∉ resolved.map Prod.fst

/-- The leader's part of `put`: every call on the futures of the batch, and the exception of the
flush. -/
def lead (setup : Setup) (reads : Reads) (id : FileId) (batch : List PendingPut) :
    StoreM (Resolutions × Option StoreExn) := do
  let flushed ← flushFutures setup reads id batch
  match flushed.2 with
  | none => return flushed
  | some error =>
    return (flushed.1 ++ (waiting batch.length flushed.1).map fun n => (n, .error error), some error)

section Checks

variable {setup : Setup} {row : FileRow} {stored : Dict Nat Digest} {writes : Writes} {put : PendingPut}
  {index : Nat} {chunk : Bytes}

theorem fields_ok (h : put.fields row = .ok (index, chunk)) :
    row.state = .uploading ∧ row.lapsed put.now = false ∧ chunk.length = row.chunkLength index := by
  unfold PendingPut.fields at h
  by_cases howner : row.owner ≠ put.user
  · rw [if_pos howner] at h
    cases h
  rw [if_neg howner] at h
  by_cases hlapsed : row.lapsed put.now
  · rw [if_pos hlapsed] at h
    cases h
  rw [if_neg hlapsed] at h
  by_cases hstate : row.state ≠ .uploading
  · rw [if_pos hstate] at h
    cases h
  rw [if_neg hstate] at h
  cases hindex : integer (put.data.get "index") 0 (row.count - 1) with
  | error error =>
    rw [hindex] at h
    cases h
  | ok index' =>
    cases hchunk : encoded (put.data.get "chunk") (chunkSize + chunkOverhead) with
    | error error =>
      rw [hindex, hchunk] at h
      cases h
    | ok chunk' =>
      rw [hindex, hchunk] at h
      by_cases hlength : chunk'.length ≠ row.chunkLength index'
      · cases (if_pos hlength).symm.trans h
      · cases (if_neg hlength).symm.trans h
        exact ⟨not_not.mp hstate, by simpa using hlapsed, not_not.mp hlength⟩

theorem addChunk_alone (stored : Dict Nat Digest) (writes : Writes) (index : Nat) (chunk : Bytes)
    (digest : Digest) :
    (addChunk stored writes index chunk digest = .error (.file .chunkConflict) ∧
      addChunk (writes.addTo stored) ∅ index chunk digest = .error (.file .chunkConflict)) ∨
    (addChunk stored writes index chunk digest = .ok writes ∧
      addChunk (writes.addTo stored) ∅ index chunk digest = .ok ∅) ∨
    (writes.get? index = none ∧ stored.get? index = none ∧
      addChunk stored writes index chunk digest = .ok (writes.set index (chunk, digest)) ∧
      addChunk (writes.addTo stored) ∅ index chunk digest = .ok ((∅ : Writes).set index (chunk, digest))) := by
  have hlookup : (((∅ : Writes).get? index).map Prod.snd).or ((writes.addTo stored).get? index) =
      ((writes.get? index).map Prod.snd).or (stored.get? index) := writes.get?_addTo stored index
  unfold addChunk
  rw [hlookup]
  cases hprevious : ((writes.get? index).map Prod.snd).or (stored.get? index) with
  | none =>
    rw [Option.or_eq_none_iff, Option.map_eq_none_iff] at hprevious
    exact .inr (.inr ⟨hprevious.1, hprevious.2, rfl, rfl⟩)
  | some previous =>
    dsimp only
    by_cases hsame : previous = digest
    · rw [if_pos hsame, if_pos hsame]
      exact .inr (.inl ⟨rfl, rfl⟩)
    · rw [if_neg hsame, if_neg hsame]
      exact .inl ⟨rfl, rfl⟩

/-- What a request is to a batch, and what it is when those before it have been flushed. -/
inductive Judged (setup : Setup) (row : FileRow) (stored : Dict Nat Digest) (writes : Writes)
    (put : PendingPut) : Prop
  | refused (error : StoreExn) : put.check setup row stored writes = .error error →
      put.check setup row (writes.addTo stored) ∅ = .error error → Judged setup row stored writes put
  | known : put.check setup row stored writes = .ok writes →
      put.check setup row (writes.addTo stored) ∅ = .ok ∅ → Judged setup row stored writes put
  | new (index : Nat) (chunk : Bytes) : put.fields row = .ok (index, chunk) →
      writes.get? index = none → stored.get? index = none →
      put.check setup row stored writes = .ok (writes.set index (chunk, setup.sha256 chunk)) →
      put.check setup row (writes.addTo stored) ∅ =
        .ok ((∅ : Writes).set index (chunk, setup.sha256 chunk)) →
      Judged setup row stored writes put

theorem judged (setup : Setup) (row : FileRow) (stored : Dict Nat Digest) (writes : Writes)
    (put : PendingPut) : Judged setup row stored writes put := by
  cases hfields : put.fields row with
  | error error =>
    refine .refused error ?_ ?_
    · rw [PendingPut.check, hfields]
      rfl
    · rw [PendingPut.check, hfields]
      rfl
  | ok found =>
    obtain ⟨index, chunk⟩ := found
    have hcheck : ∀ stored writes, put.check setup row stored writes =
        addChunk stored writes index chunk (setup.sha256 chunk) := by
      intro stored writes
      rw [PendingPut.check, hfields]
      rfl
    rcases addChunk_alone stored writes index chunk (setup.sha256 chunk) with
      ⟨hhere, hthere⟩ | ⟨hhere, hthere⟩ | ⟨hwrites, hstored, hhere, hthere⟩
    · exact .refused _ ((hcheck _ _).trans hhere) ((hcheck _ _).trans hthere)
    · exact .known ((hcheck _ _).trans hhere) ((hcheck _ _).trans hthere)
    · exact .new index chunk hfields hwrites hstored ((hcheck _ _).trans hhere) ((hcheck _ _).trans hthere)

variable (setup row) in
/-- A batch that is checked can be written, and needs the blob only for requests that are in time. -/
theorem checkBatch_proper (h : writes.Proper stored) (batch : List PendingPut) :
    (checkBatch setup row stored writes batch).1.Proper stored ∧
      ((checkBatch setup row stored writes batch).1.entries ≠ [] → writes.entries = [] →
        row.state = .uploading ∧ ∃ put ∈ batch, row.lapsed put.now = false) := by
  induction batch generalizing writes with
  | nil => exact ⟨h, fun hsome hnone => absurd hnone hsome⟩
  | cons put batch ih =>
    have hlater : ∀ {rest : Writes}, (checkBatch setup row stored rest batch).1.entries ≠ [] →
        (rest.Proper stored) → rest.entries = [] →
          row.state = .uploading ∧ ∃ other ∈ put :: batch, row.lapsed other.now = false := by
      intro rest hsome hrest hnone
      obtain ⟨hstate, other, hmem, hlive⟩ := (ih hrest).2 hsome hnone
      exact ⟨hstate, other, .tail _ hmem, hlive⟩
    rw [checkBatch]
    cases judged setup row stored writes put with
    | refused error hhere _ =>
      rw [hhere]
      exact ⟨(ih h).1, fun hsome hnone => hlater hsome h hnone⟩
    | known hhere _ =>
      rw [hhere]
      exact ⟨(ih h).1, fun hsome hnone => hlater hsome h hnone⟩
    | new index chunk hfields hwrites hstored hhere _ =>
      rw [hhere]
      obtain ⟨hstate, hlive, hlength⟩ := fields_ok hfields
      exact ⟨(ih (h.set hwrites hstored hlength _)).1,
        fun _ _ => ⟨hstate, put, .head _, hlive⟩⟩

end Checks

/-! ### One at a time -/

section Each

variable {setup : Setup} {env : StoreEnv} {st : Store} {id : FileId} {found : FileRow} {writes : Writes}
  {batch : List PendingPut}

/-- The file can be opened for the requests that are in time. -/
def Openable (st : Store) (id : FileId) (batch : List PendingPut) : Prop :=
  ∀ row, st.files.get? id = some row → row.state = .uploading →
    (∃ put ∈ batch, row.lapsed put.now = false) → (st.blobs id).isSome

variable (setup) in
/-- Without a fault, flushing a batch writes it and gives every request its verdict. -/
theorem flushBatch_faultless (henv : env.Faultless) (hrow : row id env st = (.ok found, st))
    (hfound : st.files.get? id = some found) (hopen : Openable st id batch) :
    ∃ n, flushBatch setup id batch env st = (.ok (checkBatch setup found (st.chunks id) ∅ batch).2,
      st.withWrites id (checkBatch setup found (st.chunks id) ∅ batch).1 n) := by
  obtain ⟨hproper, hneeded⟩ := checkBatch_proper setup found (Writes.proper_empty (st.chunks id)) batch
  obtain ⟨n, hwrite⟩ := writeChunks_faultless henv hproper.sized hproper.new fun hsome =>
    hopen found hfound (hneeded hsome rfl).1 (hneeded hsome rfl).2
  refine ⟨n, ?_⟩
  rw [flushBatch_of_row setup batch hrow, hwrite]
  rfl

variable (setup) in
theorem flush_next (henv : env.Faultless) (hrow : row id env st = (.ok found, st))
    (hfound : st.files.get? id = some found) {put : PendingPut} (hopen : Openable st id [put])
    (hproper : writes.Proper (st.chunks id)) (k : Nat) :
    ∃ verdict, ∃ writes' : Writes, ∃ n, writes'.Proper (st.chunks id) ∧
      flushBatch setup id [put] env (st.withWrites id writes k) = (.ok [verdict], st.withWrites id writes' n) ∧
      ∀ rest, checkBatch setup found (st.chunks id) writes (put :: rest) =
        ((checkBatch setup found (st.chunks id) writes' rest).1,
          verdict :: (checkBatch setup found (st.chunks id) writes' rest).2) := by
  have hopen' : Openable (st.withWrites id writes k) id [put] := by
    intro row hget hstate hlive
    have hblob := hopen row hget hstate hlive
    simpa [Store.withWrites] using hblob
  obtain ⟨n, hflush⟩ := flushBatch_faultless setup henv
    (row_congr (st.withWrites id writes k) hrow rfl) hfound hopen'
  have hchunks : (st.withWrites id writes k).chunks id = writes.addTo (st.chunks id) := by
    simp [Store.withWrites]
  rw [hchunks, checkBatch] at hflush
  cases judged setup found (st.chunks id) writes put with
  | refused error hhere hthere =>
    rw [hthere] at hflush
    dsimp only [checkBatch] at hflush
    rw [withWrites_withWrites_nothing] at hflush
    refine ⟨.error error, writes, n, hproper, hflush, fun rest => ?_⟩
    rw [checkBatch, hhere]
  | known hhere hthere =>
    rw [hthere] at hflush
    dsimp only [checkBatch] at hflush
    rw [withWrites_withWrites_nothing] at hflush
    refine ⟨.ok (), writes, n, hproper, hflush, fun rest => ?_⟩
    rw [checkBatch, hhere]
  | new index chunk hfields hwrites hstored hhere hthere =>
    rw [hthere] at hflush
    dsimp only [checkBatch] at hflush
    rw [withWrites_set hwrites] at hflush
    refine ⟨.ok (), _, n, hproper.set hwrites hstored (fields_ok hfields).2.2 _, hflush, fun rest => ?_⟩
    rw [checkBatch, hhere]

variable (setup) in
theorem flushEach_after (henv : env.Faultless) (hrow : row id env st = (.ok found, st))
    (hfound : st.files.get? id = some found) (hopen : Openable st id batch)
    (hproper : writes.Proper (st.chunks id)) (k : Nat) :
    ∃ n, flushEach setup id batch env (st.withWrites id writes k) =
      (.ok (checkBatch setup found (st.chunks id) writes batch).2,
        st.withWrites id (checkBatch setup found (st.chunks id) writes batch).1 n) := by
  induction batch generalizing writes k with
  | nil => exact ⟨k, rfl⟩
  | cons put batch ih =>
    have hfirst : Openable st id [put] := by
      intro row hget hstate hlive
      obtain ⟨other, hmem, hlive⟩ := hlive
      exact hopen row hget hstate ⟨other, List.mem_singleton.mp hmem ▸ List.mem_cons_self .., hlive⟩
    have hrest : Openable st id batch := by
      intro row hget hstate hlive
      obtain ⟨other, hmem, hlive⟩ := hlive
      exact hopen row hget hstate ⟨other, .tail _ hmem, hlive⟩
    obtain ⟨verdict, writes', n, hproper', hflush, hcheck⟩ :=
      flush_next setup henv hrow hfound hfirst hproper k
    obtain ⟨m, hlater⟩ := ih hrest hproper' n
    refine ⟨m, ?_⟩
    rw [flushEach, bind_ok hflush, bind_ok hlater, hcheck]
    rfl

theorem flushEach_of_error {error : StoreExn} (h : row id env st = (.error error, st)) :
    flushEach setup id batch env st = (.ok (batch.map fun _ => .error error), st) := by
  induction batch with
  | nil => rfl
  | cons put batch ih =>
    rw [flushEach, bind_ok (flushBatch_of_error [put] h), bind_ok ih]
    rfl

theorem flushBatch_eq_flushEach (henv : env.Faultless) (hopen : Openable st id batch) :
    ∃ outcomes st₁ n, flushBatch setup id batch env st = (.ok outcomes, st₁) ∧
      flushEach setup id batch env st = (.ok outcomes, { st₁ with operations := n }) := by
  rcases row_eq env st id with ⟨error, hrow⟩ | ⟨found, hfound, hrow⟩
  · exact ⟨_, _, st.operations, flushBatch_of_error batch hrow, flushEach_of_error hrow⟩
  · obtain ⟨m, hbatch⟩ := flushBatch_faultless setup henv hrow hfound hopen
    obtain ⟨n, heach⟩ := flushEach_after setup henv hrow hfound hopen
      (Writes.proper_empty (st.chunks id)) st.operations
    rw [withWrites_nothing] at heach
    exact ⟨_, _, n, hbatch, heach⟩

end Each

/-! ### Every future is resolved once -/

section Futures

variable {setup : Setup} {reads : Reads} {row : FileRow} {stored : Dict Nat Digest} {flush : Flush}
  {batch : List PendingPut} {n : Nat}

def Flush.seen (flush : Flush) : List Nat := flush.resolved.map Prod.fst ++ flush.accepted

theorem seen_refuse (h : flush.seen.Perm (List.range n)) (error : StoreExn) :
    Flush.seen { flush with resolved := flush.resolved ++ [(n, .error error)] } |>.Perm
      (List.range (n + 1)) := by
  rw [Flush.seen, List.map_append, List.map_singleton, List.append_assoc, List.range_succ]
  exact (List.perm_middle.trans (h.cons n)).trans (List.perm_append_singleton n _).symm

theorem seen_accept (h : flush.seen.Perm (List.range n)) (writes : Writes) :
    Flush.seen { flush with writes, accepted := flush.accepted ++ [n] } |>.Perm (List.range (n + 1)) := by
  rw [Flush.seen, ← List.append_assoc, List.range_succ]
  exact h.append_right [n]

variable (setup reads row stored flush n) in
theorem check_cons (put : PendingPut) (rest : List PendingPut) :
    (∃ error, put.check setup row stored flush.writes = .error error ∧
      Flush.check setup reads row stored n flush (put :: rest) =
        Flush.check setup reads row stored (n + 1)
          { flush with resolved := flush.resolved ++ [(n, .error error)] } rest) ∨
    (∃ writes, put.check setup row stored flush.writes = .ok writes ∧
      Flush.check setup reads row stored n flush (put :: rest) =
        Flush.check setup reads row stored (n + 1)
          { flush with writes, accepted := flush.accepted ++ [n] } rest) ∨
    (reads.chunk n = false ∧
      Flush.check setup reads row stored n flush (put :: rest) = (flush, some .databaseError)) := by
  rw [PendingPut.check, Flush.check]
  cases put.fields row with
  | error error => exact .inl ⟨error, rfl, rfl⟩
  | ok found =>
    obtain ⟨index, chunk⟩ := found
    dsimp only [Bind.bind, Except.bind]
    by_cases hread : reads.chunk n = false
    · rw [if_pos hread]
      exact .inr (.inr ⟨hread, rfl⟩)
    · rw [if_neg hread]
      cases addChunk stored flush.writes index chunk (setup.sha256 chunk) with
      | error error => exact .inl ⟨error, rfl, rfl⟩
      | ok writes => exact .inr (.inl ⟨writes, rfl, rfl⟩)

variable (setup reads row stored flush batch n) in
/-- The loop judges the requests one after the other, all of them unless a read fails. -/
theorem seen_check (h : flush.seen.Perm (List.range n)) :
    ∃ m ≤ n + batch.length,
      (Flush.check setup reads row stored n flush batch).1.seen.Perm (List.range m) ∧
        ((Flush.check setup reads row stored n flush batch).2 = none → m = n + batch.length) := by
  induction batch generalizing n flush with
  | nil => exact ⟨n, Nat.le_refl _, h, fun _ => rfl⟩
  | cons put rest ih =>
    have hlength : n + (put :: rest).length = n + 1 + rest.length := by
      rw [List.length_cons]
      omega
    rw [hlength]
    rcases check_cons setup reads row stored flush n put rest with
      ⟨error, -, hcheck⟩ | ⟨writes, -, hcheck⟩ | ⟨-, hcheck⟩
    · rw [hcheck]
      exact ih _ _ (seen_refuse h error)
    · rw [hcheck]
      exact ih _ _ (seen_accept h writes)
    · rw [hcheck]
      exact ⟨n, by omega, h, nofun⟩

theorem check_keeps :
    flush.resolved ⊆ (Flush.check setup reads row stored n flush batch).1.resolved ∧
      flush.accepted ⊆ (Flush.check setup reads row stored n flush batch).1.accepted := by
  induction batch generalizing n flush with
  | nil => exact ⟨List.Subset.refl _, List.Subset.refl _⟩
  | cons put rest ih =>
    rcases check_cons setup reads row stored flush n put rest with
      ⟨error, -, hcheck⟩ | ⟨writes, -, hcheck⟩ | ⟨-, hcheck⟩
    · have hlater := @ih { flush with resolved := flush.resolved ++ [(n, .error error)] } (n + 1)
      rw [hcheck]
      exact ⟨List.Subset.trans (List.subset_append_left _ _) hlater.1, hlater.2⟩
    · have hlater := @ih { flush with writes, accepted := flush.accepted ++ [n] } (n + 1)
      rw [hcheck]
      exact ⟨hlater.1, List.Subset.trans (List.subset_append_left _ _) hlater.2⟩
    · rw [hcheck]
      exact ⟨List.Subset.refl _, List.Subset.refl _⟩

variable (setup reads row flush n) in
/-- The verdict on a request, as long as the reads have succeeded: a refusal is on record, and what is
not refused is accepted. -/
theorem verdict_check {i : Nat} (hreads : ∀ m ≤ n + i, reads.chunk m = true)
    {verdict : Except StoreExn Unit}
    (h : (checkBatch setup row stored flush.writes batch).2[i]? = some verdict) :
    (∀ error, verdict = .error error →
      (n + i, verdict) ∈ (Flush.check setup reads row stored n flush batch).1.resolved) ∧
    (verdict = .ok () → n + i ∈ (Flush.check setup reads row stored n flush batch).1.accepted) := by
  induction batch generalizing n flush i with
  | nil => cases h
  | cons put rest ih =>
    have hshift : ∀ j, n + (j + 1) = n + 1 + j := fun j => by omega
    rcases check_cons setup reads row stored flush n put rest with
      ⟨error, hput, hcheck⟩ | ⟨writes, hput, hcheck⟩ | ⟨hread, -⟩
    · rw [hcheck]
      rw [checkBatch, hput] at h
      cases i with
      | zero =>
        cases h
        refine ⟨fun _ _ => check_keeps.1 ?_, fun h => by cases h⟩
        exact List.mem_append_right _ (List.mem_singleton_self _)
      | succ i =>
        rw [hshift i] at hreads ⊢
        exact ih { flush with resolved := flush.resolved ++ [(n, .error error)] } (n + 1) hreads h
    · rw [hcheck]
      rw [checkBatch, hput] at h
      cases i with
      | zero =>
        cases h
        refine ⟨fun _ h => (by cases h), fun _ => check_keeps.2 ?_⟩
        exact List.mem_append_right _ (List.mem_singleton_self _)
      | succ i =>
        rw [hshift i] at hreads ⊢
        exact ih { flush with writes, accepted := flush.accepted ++ [n] } (n + 1) hreads h
    · rw [hreads n (by omega)] at hread
      cases hread

theorem check_reads (hreads : ∀ m, reads.chunk m = true) :
    (Flush.check setup reads row stored n flush batch).2 = none ∧
      (Flush.check setup reads row stored n flush batch).1.writes =
        (checkBatch setup row stored flush.writes batch).1 := by
  induction batch generalizing n flush with
  | nil => exact ⟨rfl, rfl⟩
  | cons put rest ih =>
    rcases check_cons setup reads row stored flush n put rest with
      ⟨error, hput, hcheck⟩ | ⟨writes, hput, hcheck⟩ | ⟨hread, -⟩
    · rw [hcheck, checkBatch, hput]
      exact ih
    · rw [hcheck, checkBatch, hput]
      exact ih
    · rw [hreads n] at hread
      cases hread

theorem perm_waiting {resolved : Resolutions} {count : Nat} (hdistinct : (resolved.map Prod.fst).Nodup)
    (hrange : ∀ i ∈ resolved.map Prod.fst, i < count) (error : StoreExn) :
    ((resolved ++ (waiting count resolved).map fun i => (i, Except.error error)).map Prod.fst).Perm
      (List.range count) := by
  have hwaiting : ((waiting count resolved).map fun i => (i, (.error error : Except StoreExn Unit))).map
      Prod.fst = waiting count resolved := by
    rw [List.map_map]
    exact List.map_id _
  rw [List.map_append, hwaiting]
  refine (List.perm_ext_iff_of_nodup ?_ List.nodup_range).mpr fun i => ?_
  · refine List.nodup_append.mpr ⟨hdistinct, List.nodup_range.filter _, fun i hi j hj => ?_⟩
    rintro rfl
    exact of_decide_eq_true (List.mem_filter.mp hj).2 hi
  · rw [List.mem_append, waiting, List.mem_filter, List.mem_range, decide_eq_true_eq]
    constructor
    · rintro (hi | hi)
      · exact hrange i hi
      · exact hi.1
    · intro hi
      by_cases hresolved : i ∈ resolved.map Prod.fst
      · exact .inl hresolved
      · exact .inr ⟨hi, hresolved⟩

end Futures

/-! ### The leader -/

section Lead

variable {setup : Setup} {reads : Reads} {env : StoreEnv} {st : Store} {id : FileId}
  {batch : List PendingPut} {st' : Store}

theorem chunks_of_writeChunks_error {writes : Writes} {error : StoreExn}
    (h : writeChunks id writes env st = (.error error, st')) : st'.chunks = st.chunks := by
  have hwp : wp (writeChunks id writes) env st (fun _ _ => True) fun _ st' => st'.chunks = st.chunks := by
    simp only [writeChunks, wp_do, wp_ite, wp_ensure]
    refine ⟨fun _ => trivial, fun _ => wp_operate (fun n => ⟨fun _ => ?_, fun _ => rfl⟩) fun _ => rfl⟩
    have hslots : wp (forEach (fun entry => writeSlot id entry.1 entry.2.1)
        (writes.entries.insertionSort fun a b => a.1 ≤ b.1)) env { st with operations := n }
        (fun _ st₁ => st₁.chunks = st.chunks) fun _ st₁ => st₁.chunks = st.chunks := by
      refine wp_forEach (fun entry _ st₁ hst₁ => ?_) rfl
      simp only [writeSlot, wp_do]
      exact wp_operate (fun _ => hst₁) fun _ => hst₁
    refine wp_mono hslots (fun _ st₁ hst₁ => ?_) fun _ _ hst₁ => hst₁
    refine wp_operate (fun k => ?_) fun _ => hst₁
    exact wp_transaction (wp_mono (wp_true _) (fun _ _ _ => ⟨fun _ => trivial, fun _ => hst₁⟩) fun _ _ _ => hst₁)
  have hchunks := wp_error hwp h
  exact hchunks

/-- How a flush can go: it does not find the row, a read fails, the batch is written, or it is not. -/
inductive FlushRun (setup : Setup) (reads : Reads) (env : StoreEnv) (st : Store) (id : FileId)
    (batch : List PendingPut) : Resolutions × Option StoreExn → Store → Prop
  | unread (error : StoreExn) :
      (reads.lock = true → reads.row = true → row id env st = (.error error, st)) →
      FlushRun setup reads env st id batch ([], some error) st
  | stopped (found : FileRow) (error : StoreExn) : row id env st = (.ok found, st) →
      (Flush.check setup reads found (st.chunks id) 0 {} batch).2 = some error →
      FlushRun setup reads env st id batch
        ((Flush.check setup reads found (st.chunks id) 0 {} batch).1.resolved, some error) st
  | written (found : FileRow) (st' : Store) : row id env st = (.ok found, st) →
      (Flush.check setup reads found (st.chunks id) 0 {} batch).2 = none →
      writeChunks id (Flush.check setup reads found (st.chunks id) 0 {} batch).1.writes env st =
        (.ok (), st') →
      FlushRun setup reads env st id batch
        ((Flush.check setup reads found (st.chunks id) 0 {} batch).1.resolved ++
          (Flush.check setup reads found (st.chunks id) 0 {} batch).1.accepted.map fun n => (n, .ok ()),
          none) st'
  | unwritten (found : FileRow) (error : StoreExn) (st' : Store) : row id env st = (.ok found, st) →
      (Flush.check setup reads found (st.chunks id) 0 {} batch).2 = none →
      writeChunks id (Flush.check setup reads found (st.chunks id) 0 {} batch).1.writes env st =
        (.error error, st') →
      FlushRun setup reads env st id batch
        ((Flush.check setup reads found (st.chunks id) 0 {} batch).1.resolved, some error) st'

theorem flushRun (setup : Setup) (reads : Reads) (env : StoreEnv) (st : Store) (id : FileId)
    (batch : List PendingPut) :
    ∃ result st', flushFutures setup reads id batch env st = (.ok result, st') ∧
      FlushRun setup reads env st id batch result st' := by
  unfold flushFutures
  by_cases hlock : reads.lock = false
  · rw [if_pos hlock]
    exact ⟨_, _, rfl, .unread .osError fun h => absurd (hlock.symm.trans h) Bool.false_ne_true⟩
  rw [if_neg hlock]
  by_cases hread : reads.row = true
  case neg =>
    have hfail : (ensure (reads.row = true) .databaseError : StoreM Unit) env st =
        (.error .databaseError, st) := by
      rw [ensure, if_neg hread]
      rfl
    exact ⟨_, _, rescue_error (bind_error hfail), .unread .databaseError fun _ h => absurd h hread⟩
  rcases row_eq env st id with ⟨error, hrow⟩ | ⟨found, -, hrow⟩
  · refine ⟨_, _, rescue_error ?_, .unread error fun _ _ => hrow⟩
    rw [ensure_bind hread, bind_error hrow]
  cases hchecked : (Flush.check setup reads found (st.chunks id) 0 {} batch).2 with
  | some error =>
    refine ⟨_, _, rescue_ok ?_, .stopped found error hrow hchecked⟩
    rw [ensure_bind hread, bind_ok hrow, get_bind, hchecked]
    rfl
  | none =>
    rcases hwrite : writeChunks id (Flush.check setup reads found (st.chunks id) 0 {} batch).1.writes
      env st with ⟨written, st'⟩
    cases written with
    | ok done =>
      refine ⟨_, _, rescue_ok ?_, .written found st' hrow hchecked hwrite⟩
      rw [ensure_bind hread, bind_ok hrow, get_bind, hchecked]
      exact rescue_ok (by rw [bind_ok hwrite]; rfl)
    | error error =>
      refine ⟨_, _, rescue_ok ?_, .unwritten found error st' hrow hchecked hwrite⟩
      rw [ensure_bind hread, bind_ok hrow, get_bind, hchecked]
      exact rescue_error (bind_error hwrite)

variable {result : Resolutions × Option StoreExn}

theorem FlushRun.resolved (h : FlushRun setup reads env st id batch result st') :
    (result.1.map Prod.fst).Nodup ∧ (∀ i ∈ result.1.map Prod.fst, i < batch.length) ∧
      (result.2 = none → (result.1.map Prod.fst).Perm (List.range batch.length)) ∧
        (result.2 ≠ none → st'.chunks = st.chunks) := by
  have hseen : ∀ found, ∃ m ≤ batch.length,
      (Flush.check setup reads found (st.chunks id) 0 {} batch).1.seen.Perm (List.range m) ∧
        ((Flush.check setup reads found (st.chunks id) 0 {} batch).2 = none → m = batch.length) := by
    intro found
    have hcheck := seen_check setup reads found (st.chunks id) {} batch 0 (List.Perm.refl [])
    rwa [Nat.zero_add] at hcheck
  have hpart : ∀ found, ((Flush.check setup reads found (st.chunks id) 0 {} batch).1.resolved.map
      Prod.fst).Nodup ∧ ∀ i ∈ (Flush.check setup reads found (st.chunks id) 0 {} batch).1.resolved.map
        Prod.fst, i < batch.length := by
    intro found
    obtain ⟨m, hm, hperm, -⟩ := hseen found
    refine ⟨(List.nodup_append.mp (hperm.nodup_iff.mpr List.nodup_range)).1, fun i hi => ?_⟩
    have hrange := hperm.subset (List.mem_append_left _ hi)
    exact (List.mem_range.mp hrange).trans_le hm
  cases h with
  | unread error hread => exact ⟨List.nodup_nil, nofun, nofun, fun _ => rfl⟩
  | stopped found error hrow hchecked => exact ⟨(hpart found).1, (hpart found).2, nofun, fun _ => rfl⟩
  | written found st' hrow hchecked hwrite =>
    obtain ⟨m, -, hperm, hall⟩ := hseen found
    have hfirst : ∀ accepted : List Nat,
        (accepted.map fun n => (n, (.ok () : Except StoreExn Unit))).map Prod.fst = accepted := by
      intro accepted
      rw [List.map_map]
      exact List.map_id _
    rw [hall hchecked] at hperm
    dsimp only
    rw [List.map_append, hfirst]
    refine ⟨hperm.nodup_iff.mpr List.nodup_range, fun i hi => ?_, fun _ => hperm, fun hsome => absurd rfl hsome⟩
    exact List.mem_range.mp (hperm.subset hi)
  | unwritten found error st' hrow hchecked hwrite =>
    exact ⟨(hpart found).1, (hpart found).2, nofun, fun _ => chunks_of_writeChunks_error hwrite⟩

theorem lead_eq (h : flushFutures setup reads id batch env st = (.ok result, st')) :
    lead setup reads id batch env st = (.ok (match result.2 with
      | none => result
      | some error => (result.1 ++ (waiting batch.length result.1).map fun n => (n, .error error),
          some error)), st') := by
  rw [lead, bind_ok h]
  cases result.2 with
  | none => rfl
  | some error => rfl

theorem lead_resolves (setup : Setup) (reads : Reads) (env : StoreEnv) (st : Store) (id : FileId)
    (batch : List PendingPut) :
    ∃ resolved error st', lead setup reads id batch env st = (.ok (resolved, error), st') ∧
      (resolved.map Prod.fst).Perm (List.range batch.length) ∧ (error ≠ none → st'.chunks = st.chunks) := by
  obtain ⟨⟨resolved, error⟩, st', hflush, hrun⟩ := flushRun setup reads env st id batch
  obtain ⟨hdistinct, hrange, hall, hrows⟩ := hrun.resolved
  have hlead := lead_eq hflush
  cases error with
  | none => exact ⟨resolved, none, st', hlead, hall rfl, hrows⟩
  | some error => exact ⟨_, some error, st', hlead, perm_waiting hdistinct hrange error, hrows⟩

theorem mem_lead_of_resolved (h : flushFutures setup reads id batch env st = (.ok result, st'))
    {entry : Nat × Except StoreExn Unit} (hmem : entry ∈ result.1) :
    ∃ resolved error, lead setup reads id batch env st = (.ok (resolved, error), st') ∧
      entry ∈ resolved := by
  have hlead := lead_eq h
  obtain ⟨resolved, error⟩ := result
  cases error with
  | none => exact ⟨_, _, hlead, hmem⟩
  | some error => exact ⟨_, _, hlead, List.mem_append_left _ hmem⟩

variable {n : Nat}

theorem lead_keeps_refusals {found : FileRow} (hrow : row id env st = (.ok found, st))
    (hlock : reads.lock = true) (hread : reads.row = true) (hreads : ∀ m ≤ n, reads.chunk m = true)
    {own : StoreExn} (hown : (checkBatch setup found (st.chunks id) ∅ batch).2[n]? = some (.error own)) :
    ∃ resolved error st', lead setup reads id batch env st = (.ok (resolved, error), st') ∧
      (n, .error own) ∈ resolved := by
  have hloop : (n, Except.error own) ∈
      (Flush.check setup reads found (st.chunks id) 0 {} batch).1.resolved := by
    have hverdict := (verdict_check setup reads found {} 0 (by rwa [Nat.zero_add]) hown).1 own rfl
    rwa [Nat.zero_add] at hverdict
  obtain ⟨result, st', hflush, hrun⟩ := flushRun setup reads env st id batch
  have hmem : (n, Except.error own) ∈ result.1 := by
    cases hrun with
    | unread error hunread =>
      rw [hunread hlock hread] at hrow
      cases hrow
    | stopped other error hother hchecked =>
      rw [hother] at hrow
      cases hrow
      exact hloop
    | written other st' hother hchecked hwrite =>
      rw [hother] at hrow
      cases hrow
      exact List.mem_append_left _ hloop
    | unwritten other error st' hother hchecked hwrite =>
      rw [hother] at hrow
      cases hrow
      exact hloop
  obtain ⟨resolved, error, hlead, hin⟩ := mem_lead_of_resolved hflush hmem
  exact ⟨resolved, error, st', hlead, hin⟩

theorem mem_waiting {count : Nat} {resolved : Resolutions} (hn : n < count)
    (h : n ∉ resolved.map Prod.fst) : n ∈ waiting count resolved :=
  List.mem_filter.mpr ⟨List.mem_range.mpr hn, decide_eq_true h⟩

/-- A request that has been accepted is not resolved before the batch is written. -/
theorem accepted_unresolved {found : FileRow}
    (h : n ∈ (Flush.check setup reads found (st.chunks id) 0 {} batch).1.accepted) :
    n < batch.length ∧
      n ∉ (Flush.check setup reads found (st.chunks id) 0 {} batch).1.resolved.map Prod.fst := by
  obtain ⟨m, hm, hperm, -⟩ := seen_check setup reads found (st.chunks id) {} batch 0
    (List.Perm.refl [])
  have hdistinct := List.nodup_append.mp (hperm.nodup_iff.mpr List.nodup_range)
  refine ⟨?_, fun hresolved => hdistinct.2.2 n hresolved n h rfl⟩
  have hrange := List.mem_range.mp (hperm.subset (List.mem_append_right _ h))
  omega

/-- If the reads succeed, the leader resolves the futures with the outcomes of the batch. -/
theorem lead_flushBatch (hlock : reads.lock = true) (hread : reads.row = true)
    (hreads : ∀ m, reads.chunk m = true) :
    ∃ resolved error outcomes st', lead setup reads id batch env st = (.ok (resolved, error), st') ∧
      flushBatch setup id batch env st = (.ok outcomes, st') ∧
      ∀ n outcome, outcomes[n]? = some outcome → (n, outcome) ∈ resolved := by
  obtain ⟨result, st', hflush, hrun⟩ := flushRun setup reads env st id batch
  have hlead := lead_eq hflush
  have hverdict : ∀ found n verdict,
      (checkBatch setup found (st.chunks id) ∅ batch).2[n]? = some verdict →
        (∀ error, verdict = .error error →
          (n, verdict) ∈ (Flush.check setup reads found (st.chunks id) 0 {} batch).1.resolved) ∧
        (verdict = .ok () → n ∈ (Flush.check setup reads found (st.chunks id) 0 {} batch).1.accepted) := by
    intro found n verdict hverdict
    have hcheck := verdict_check setup reads found {} 0 (i := n) (fun m _ => hreads m) hverdict
    rwa [Nat.zero_add] at hcheck
  cases hrun with
  | unread error hunread =>
    refine ⟨_, _, _, _, hlead, flushBatch_of_error batch (hunread hlock hread), fun n outcome hn => ?_⟩
    rw [List.getElem?_map, Option.map_eq_some_iff] at hn
    obtain ⟨put, hput, rfl⟩ := hn
    have hlength : n < batch.length := (List.getElem?_eq_some_iff.mp hput).1
    exact List.mem_map_of_mem (f := fun n => (n, Except.error error))
      (mem_waiting hlength List.not_mem_nil)
  | stopped found error hrow hchecked =>
    rw [(check_reads hreads).1] at hchecked
    cases hchecked
  | written found st' hrow hchecked hwrite =>
    have hbatch := flushBatch_of_row setup batch hrow
    rw [(check_reads hreads).2] at hwrite
    rw [hwrite] at hbatch
    refine ⟨_, _, _, _, hlead, hbatch, fun n outcome hn => ?_⟩
    cases houtcome : outcome with
    | error own =>
      rw [houtcome] at hn
      exact List.mem_append_left _ ((hverdict found n _ hn).1 own rfl)
    | ok done =>
      rw [houtcome] at hn
      exact List.mem_append_right _ (List.mem_map_of_mem ((hverdict found n _ hn).2 rfl))
  | unwritten found error st' hrow hchecked hwrite =>
    have hbatch := flushBatch_of_row setup batch hrow
    rw [(check_reads hreads).2] at hwrite
    rw [hwrite] at hbatch
    refine ⟨_, _, _, _, hlead, hbatch, fun n outcome hn => ?_⟩
    dsimp only [settled] at hn
    rw [List.getElem?_map, Option.map_eq_some_iff] at hn
    obtain ⟨verdict, hn, rfl⟩ := hn
    cases verdict with
    | error own => exact List.mem_append_left _ ((hverdict found n _ hn).1 own rfl)
    | ok done =>
      obtain ⟨hlength, hunresolved⟩ := accepted_unresolved ((hverdict found n _ hn).2 rfl)
      exact List.mem_append_right _ (List.mem_map_of_mem (f := fun n => (n, Except.error error))
        (mem_waiting hlength hunresolved))

/-- Coalescing does not change what puts mean: without a fault, every request has the same outcome as
alone and the store ends the same. Whatever fails, each future is resolved once, no chunk is added to
the table unless the whole flush succeeds, and what was refused for its own sake keeps its error. -/
theorem coalescing_sound (setup : Setup) (id : FileId) (batch : List PendingPut) (env : StoreEnv)
    (st : Store) :
    (env.Faultless → Openable st id batch →
      ∃ outcomes st₁ n, flushBatch setup id batch env st = (.ok outcomes, st₁) ∧
        flushEach setup id batch env st = (.ok outcomes, { st₁ with operations := n })) ∧
    (∀ reads : Reads, reads.lock = true → reads.row = true → (∀ m, reads.chunk m = true) →
      ∃ resolved error outcomes st', lead setup reads id batch env st = (.ok (resolved, error), st') ∧
        flushBatch setup id batch env st = (.ok outcomes, st') ∧
        ∀ n outcome, outcomes[n]? = some outcome → (n, outcome) ∈ resolved) ∧
    ∀ reads : Reads, ∃ resolved error st',
      lead setup reads id batch env st = (.ok (resolved, error), st') ∧
      (resolved.map Prod.fst).Perm (List.range batch.length) ∧
      (error ≠ none → st'.chunks = st.chunks) ∧
      ∀ found n own, row id env st = (.ok found, st) → reads.lock = true → reads.row = true →
        (∀ m ≤ n, reads.chunk m = true) →
        (checkBatch setup found (st.chunks id) ∅ batch).2[n]? = some (.error own) →
          (n, .error own) ∈ resolved := by
  refine ⟨flushBatch_eq_flushEach, fun reads => lead_flushBatch, fun reads => ?_⟩
  obtain ⟨resolved, error, st', hlead, hperm, hrows⟩ := lead_resolves setup reads env st id batch
  refine ⟨resolved, error, st', hlead, hperm, hrows, fun found n own hrow hlock hread hreads hown => ?_⟩
  obtain ⟨resolved', error', st'', hlead', hmem⟩ := lead_keeps_refusals hrow hlock hread hreads hown
  rw [hlead] at hlead'
  cases hlead'
  exact hmem

end Lead

end CallBackend.Files
