import CallBackend.Files.Ownership

/-!
# What a batch writes

A batch of chunks for one file goes to the blob in the order of the indices and to the table in the
order of the batch. The slots of different chunks do not overlap, so what is in the blob afterwards
does not depend on the order. If no disk or database operation fails, the whole batch is in the blob
and in the table.
-/

namespace CallBackend.Files

open Exec Function

def Writes.pieces (writes : Writes) : List (Nat × Bytes) :=
  writes.entries.map fun entry => (slot entry.1, entry.2.1)

def Writes.addTo (writes : Writes) (chunks : Dict Nat Digest) : Dict Nat Digest :=
  writes.entries.foldl (fun chunks entry => chunks.set entry.1 entry.2.2) chunks

/-- No chunk is longer than its slot. -/
def Writes.Sized (writes : Writes) : Prop :=
  ∀ entry ∈ writes.entries, entry.2.1.length ≤ chunkSize + chunkOverhead

def Writes.New (writes : Writes) (chunks : Dict Nat Digest) : Prop :=
  ∀ index ∈ writes.keys, chunks.get? index = none

def Store.withWrites (st : Store) (id : FileId) (writes : Writes) (n : Nat) : Store :=
  { st with
    blobs := update st.blobs id ((st.blobs id).map fun blob => blob.writeAll writes.pieces)
    chunks := update st.chunks id (writes.addTo (st.chunks id))
    operations := n }

/-! ### Slots -/

theorem slot_disjoint {index index' : Nat} (h : index ≠ index') :
    slot index + (chunkSize + chunkOverhead) ≤ slot index' ∨
      slot index' + (chunkSize + chunkOverhead) ≤ slot index := by
  have hstride : ∀ n, slot n + (chunkSize + chunkOverhead) = slot (n + 1) := by
    intro n
    rw [slot, slot, Nat.add_mul, Nat.one_mul]
  rw [hstride, hstride]
  rcases Nat.lt_or_gt_of_ne h with hlt | hgt
  · exact .inl (Nat.mul_le_mul_right _ hlt)
  · exact .inr (Nat.mul_le_mul_right _ hgt)

theorem chunkLength_le (row : FileRow) (index : Nat) :
    row.chunkLength index ≤ chunkSize + chunkOverhead :=
  Nat.add_le_add_right (Nat.min_le_left ..) _

section Batches

variable {writes : Writes} {chunks stored : Dict Nat Digest} {index : Nat} {chunk : Bytes} {digest : Digest}
  {row : FileRow}

theorem Writes.Sized.disjoint (h : writes.Sized) : Blob.Disjoint writes.pieces := by
  intro piece hpiece piece' hpiece'
  obtain ⟨first, hfirst, rfl⟩ := List.mem_map.mp hpiece
  obtain ⟨second, hsecond, rfl⟩ := List.mem_map.mp hpiece'
  have hfirstSize := h first hfirst
  have hsecondSize := h second hsecond
  by_cases hindex : first.1 = second.1
  · left
    have hvalue : writes.get? first.1 = some second.2 := by
      rw [hindex]
      exact (writes.mem_entries_iff _ _).mp hsecond
    rw [(writes.mem_entries_iff _ _).mp hfirst, Option.some.injEq] at hvalue
    rw [hindex, hvalue]
  · right
    rcases slot_disjoint hindex with hlt | hgt
    · exact .inl (by dsimp only; omega)
    · exact .inr (by dsimp only; omega)

theorem Writes.get?_addTo (writes : Writes) (chunks : Dict Nat Digest) (index : Nat) :
    (writes.addTo chunks).get? index = ((writes.get? index).map Prod.snd).or (chunks.get? index) := by
  obtain ⟨entries, hnodup⟩ := writes
  change (entries.foldl (fun chunks entry => chunks.set entry.1 entry.2.2) chunks).get? index =
    ((Dict.lookup entries index).map Prod.snd).or (chunks.get? index)
  induction entries generalizing chunks with
  | nil => rfl
  | cons entry entries ih =>
    rw [List.map_cons, List.nodup_cons] at hnodup
    rw [List.foldl_cons, ih _ hnodup.2, Dict.get?_set, Dict.lookup]
    by_cases hindex : entry.1 = index
    · have hnone : Dict.lookup entries index = none := by
        subst hindex
        cases hlookup : Dict.lookup entries entry.1 with
        | none => rfl
        | some value =>
          exact absurd (List.mem_map_of_mem (f := Prod.fst)
            ((Dict.lookup_eq_some_iff hnodup.2 _ _).mp hlookup)) hnodup.1
      rw [hnone, if_pos hindex, if_pos hindex]
      rfl
    · rw [if_neg hindex, if_neg hindex]

theorem entries_set_new (h : writes.get? index = none) :
    (writes.set index (chunk, digest)).entries = writes.entries ++ [(index, chunk, digest)] :=
  Dict.assign_of_lookup_eq_none h

structure Writes.Proper (writes : Writes) (stored : Dict Nat Digest) : Prop where
  sized : writes.Sized
  new : writes.New stored

theorem Writes.proper_empty (stored : Dict Nat Digest) : Writes.Proper ∅ stored :=
  ⟨nofun, nofun⟩

theorem Writes.Proper.set (h : writes.Proper stored) (hindex : writes.get? index = none)
    (hstored : stored.get? index = none) (hlength : chunk.length = row.chunkLength index)
    (digest : Digest) : Writes.Proper (writes.set index (chunk, digest)) stored := by
  have hentries : (writes.set index (chunk, digest)).entries = writes.entries ++ [(index, chunk, digest)] :=
    entries_set_new hindex
  constructor
  · intro entry hmem
    rw [hentries, List.mem_append, List.mem_singleton] at hmem
    rcases hmem with hmem | rfl
    · exact h.sized entry hmem
    · exact hlength.trans_le (chunkLength_le row index)
  · intro other hmem
    rw [Dict.keys, hentries, List.map_append, List.mem_append] at hmem
    rcases hmem with hmem | hmem
    · exact h.new other hmem
    · rw [List.map_singleton, List.mem_singleton] at hmem
      rw [hmem]
      exact hstored

end Batches

/-! ### Without a fault -/

section Faultless

variable {env : StoreEnv} {st : Store} {id : FileId} {writes : Writes}

theorem operate_faultless (henv : env.Faultless) (error : StoreExn) :
    operate error env st = (.ok (), { st with operations := st.operations + 1 }) := by
  rw [operate, get_bind, modify_bind, ask_bind, ensure, if_pos (henv _)]
  rfl

variable (st id) in
theorem writeSlots_faultless {ι : Type} (henv : env.Faultless) (index : ι → Nat) (chunk : ι → Bytes)
    (items : List ι) :
    ∃ n, forEach (fun item => writeSlot id (index item) (chunk item)) items env st = (.ok (), { st with
      blobs := update st.blobs id ((st.blobs id).map fun blob =>
        blob.writeAll (items.map fun item => (slot (index item), chunk item)))
      operations := n }) := by
  induction items generalizing st with
  | nil =>
    refine ⟨st.operations, ?_⟩
    have hsame : ((st.blobs id).map fun blob => blob.writeAll []) = st.blobs id := by
      cases st.blobs id <;> rfl
    rw [List.map_nil, hsame, update_eq_self]
    rfl
  | cons item items ih =>
    have hslot : writeSlot id (index item) (chunk item) env st = (.ok (), { st with
        blobs := update st.blobs id ((st.blobs id).map fun blob =>
          blob.write (slot (index item)) (chunk item))
        operations := st.operations + 1 }) := by
      have hwritten : env.written st.operations (index item) (chunk item) =
          fun blob => blob.write (slot (index item)) (chunk item) := by
        funext blob
        exact if_pos (henv _)
      rw [writeSlot, ask_bind, modify_bind, operate_faultless henv, hwritten]
    obtain ⟨n, hrest⟩ := ih { st with
      blobs := update st.blobs id ((st.blobs id).map fun blob =>
        blob.write (slot (index item)) (chunk item))
      operations := st.operations + 1 }
    refine ⟨n, ?_⟩
    rw [forEach, bind_ok hslot, hrest]
    dsimp only
    rw [update_self, update_idem, Option.map_map]
    rfl

variable (st id) in
theorem insertChunks_faultless {ι : Type} (henv : env.Faultless) {index : ι → Nat} (digest : ι → Digest)
    {items : List ι} (hdistinct : (items.map index).Nodup)
    (hnew : ∀ item ∈ items, (st.chunks id).get? (index item) = none) :
    ∃ n, forEach (fun item => insertChunk id (index item) (digest item)) items env st = (.ok (), { st with
      chunks := update st.chunks id
        (items.foldl (fun chunks item => chunks.set (index item) (digest item)) (st.chunks id))
      operations := n }) := by
  induction items generalizing st with
  | nil =>
    refine ⟨st.operations, ?_⟩
    rw [List.foldl_nil, update_eq_self]
    rfl
  | cons item items ih =>
    rw [List.map_cons, List.nodup_cons] at hdistinct
    have hinsert : insertChunk id (index item) (digest item) env st = (.ok (), { st with
        chunks := update st.chunks id ((st.chunks id).set (index item) (digest item))
        operations := st.operations + 1 }) := by
      have hfree := hnew item (.head _)
      rw [insertChunk, bind_ok (operate_faultless henv _), get_bind, ensure_bind hfree]
      rfl
    obtain ⟨n, hrest⟩ := ih { st with
      chunks := update st.chunks id ((st.chunks id).set (index item) (digest item))
      operations := st.operations + 1 } hdistinct.2 (fun other hmem => by
        dsimp only
        rw [update_self, Dict.get?_set_of_ne]
        · exact hnew other (.tail _ hmem)
        · intro hsame
          exact hdistinct.1 (hsame ▸ List.mem_map_of_mem hmem))
    refine ⟨n, ?_⟩
    rw [forEach, bind_ok hinsert, hrest]
    dsimp only
    rw [update_self, update_idem, List.foldl_cons]

theorem transaction_ok {α : Type} {m : StoreM α} {a : α} {st' : Store} (henv : env.Faultless)
    (h : m env st = (.ok a, st')) :
    transaction m env st = (.ok a, { st' with operations := st'.operations + 1 }) := by
  have hbody : (do
      let result ← m
      operate .databaseError
      return result : StoreM α) env st = (.ok a, { st' with operations := st'.operations + 1 }) := by
    rw [bind_ok h, bind_ok (operate_faultless henv _)]
    rfl
  rw [transaction, get_bind]
  exact rescue_ok hbody

theorem writeChunks_faultless (henv : env.Faultless) (hsized : writes.Sized)
    (hnew : writes.New (st.chunks id)) (hblob : writes.entries ≠ [] → (st.blobs id).isSome) :
    ∃ n, writeChunks id writes env st = (.ok (), st.withWrites id writes n) := by
  by_cases hempty : writes.entries = []
  · refine ⟨st.operations, ?_⟩
    have hblobs : ((st.blobs id).map fun blob => blob.writeAll writes.pieces) = st.blobs id := by
      rw [Writes.pieces, hempty]
      cases st.blobs id <;> rfl
    rw [Store.withWrites, hblobs, Writes.addTo, hempty, update_eq_self, List.foldl_nil,
      update_eq_self, writeChunks, if_pos hempty]
    rfl
  · obtain ⟨n, hwrite⟩ := writeSlots_faultless { st with operations := st.operations + 1 } id
      henv (fun entry : Nat × Bytes × Digest => entry.1) (fun entry => entry.2.1)
      (writes.entries.insertionSort fun a b => a.1 ≤ b.1)
    have hsorted : ∀ blob : Blob, blob.writeAll ((writes.entries.insertionSort fun a b => a.1 ≤ b.1).map
        fun entry => (slot entry.1, entry.2.1)) = blob.writeAll writes.pieces := by
      intro blob
      exact (blob.writeAll_perm ((List.perm_insertionSort _ _).symm.map _) hsized.disjoint).symm
    simp only [hsorted] at hwrite
    obtain ⟨k, hinsert⟩ := insertChunks_faultless { st with
        blobs := update st.blobs id ((st.blobs id).map fun blob => blob.writeAll writes.pieces)
        operations := n + 1 } id
      henv (fun entry => entry.2.2) writes.nodup fun entry hmem => hnew entry.1 (List.mem_map_of_mem hmem)
    refine ⟨k + 1, ?_⟩
    rw [writeChunks, if_neg hempty, bind_ok (operate_faultless henv _), get_bind,
      ensure_bind (hblob hempty), bind_ok hwrite, bind_ok (operate_faultless henv _),
      transaction_ok henv hinsert]
    rfl

end Faultless

section Stores

variable {env : StoreEnv} {st : Store} {id : FileId} {found : FileRow} {writes : Writes}

theorem row_congr (st' : Store) (h : row id env st = (.ok found, st)) (hfiles : st'.files = st.files) :
    row id env st' = (.ok found, st') := by
  unfold row at h ⊢
  by_cases hid : idPattern id = true
  · rw [ensure_bind hid, get_bind] at h ⊢
    rw [hfiles]
    cases hrow : st.files.get? id with
    | none =>
      rw [hrow] at h
      cases h
    | some other =>
      rw [hrow] at h
      dsimp only at h ⊢
      split_ifs at h ⊢ with hstate
      · cases h
      · cases h
        rfl
  · have hfail : (ensure (idPattern id = true) (.file .notAvailable) : StoreM Unit) env st =
        (.error (.file .notAvailable), st) := by
      rw [ensure, if_neg hid]
      rfl
    rw [bind_error hfail] at h
    cases h

theorem withWrites_nothing (st : Store) (id : FileId) (n : Nat) :
    st.withWrites id ∅ n = { st with operations := n } := by
  have hblobs : ((st.blobs id).map fun blob => blob.writeAll (Writes.pieces ∅)) = st.blobs id := by
    cases st.blobs id <;> rfl
  have hchunks : Writes.addTo ∅ (st.chunks id) = st.chunks id := rfl
  rw [Store.withWrites, hblobs, hchunks, update_eq_self, update_eq_self]

theorem withWrites_withWrites_nothing (st : Store) (id : FileId) (writes : Writes) (k n : Nat) :
    (st.withWrites id writes k).withWrites id ∅ n = st.withWrites id writes n :=
  withWrites_nothing _ _ _

theorem withWrites_set {index : Nat} {chunk : Bytes × Digest} (h : writes.get? index = none) (k n : Nat) :
    (st.withWrites id writes k).withWrites id ((∅ : Writes).set index chunk) n =
      st.withWrites id (writes.set index chunk) n := by
  have hentries : (writes.set index chunk).entries = writes.entries ++ [(index, chunk)] :=
    Dict.assign_of_lookup_eq_none h
  simp only [Store.withWrites, update_self, update_idem, Option.map_map]
  congr 1
  · rw [Writes.addTo, Writes.addTo, Writes.addTo, hentries, List.foldl_append]
    rfl
  · congr 2
    funext blob
    rw [comp, Writes.pieces, Writes.pieces, Writes.pieces, hentries, List.map_append,
      Blob.writeAll_append]
    rfl

end Stores

end CallBackend.Files
