import CallBackend.Files.Writing

/-!
# What a write can touch

A write may fail and leave a part behind, and so may any of the operations around it. However it ends,
it stays in the slots it is for: the tables, the leases, the other files and the other slots are as
they were. What a slot holds is said without its length, so that a chunk of a row and the part of a
chunk that has reached the disk are the same kind of thing.
-/

namespace CallBackend.Files

open Exec Function

def Store.Holds (st : Store) (id : FileId) (index : Nat) (content : Bytes) : Prop :=
  ∃ blob, st.blobs id = some blob ∧ blob.read (slot index) content.length = content

theorem Store.Holds.congr {st st' : Store} {id : FileId} {index : Nat} {content : Bytes}
    (h : st.Holds id index content) (hblobs : st'.blobs id = st.blobs id) : st'.Holds id index content := by
  obtain ⟨blob, hblob, hread⟩ := h
  exact ⟨blob, hblobs.trans hblob, hread⟩

structure Rewritten (id : FileId) (touched : Nat → Prop) (st st' : Store) : Prop where
  files : st'.files = st.files
  chunks : st'.chunks = st.chunks
  leases : st'.nativeWrites = st.nativeWrites
  others : ∀ other, other ≠ id → st'.blobs other = st.blobs other
  present : (st'.blobs id).isSome = (st.blobs id).isSome
  held : ∀ index content, ¬touched index → content.length ≤ chunkSize + chunkOverhead →
    st.Holds id index content → st'.Holds id index content

section Rewriting

variable {id : FileId} {touched : Nat → Prop} {st st₁ st₂ : Store}

theorem rewritten_operated (st : Store) (n : Nat) : Rewritten id touched st { st with operations := n } :=
  ⟨rfl, rfl, rfl, fun _ _ => rfl, rfl, fun _ _ _ _ h => h⟩

theorem rewritten_refl (st : Store) : Rewritten id touched st st := rewritten_operated st st.operations

theorem Rewritten.trans (h : Rewritten id touched st st₁) (h' : Rewritten id touched st₁ st₂) :
    Rewritten id touched st st₂ where
  files := h'.files.trans h.files
  chunks := h'.chunks.trans h.chunks
  leases := h'.leases.trans h.leases
  others := fun other hother => (h'.others other hother).trans (h.others other hother)
  present := h'.present.trans h.present
  held := fun index content hindex hsize hheld =>
    h'.held index content hindex hsize (h.held index content hindex hsize hheld)

theorem Rewritten.mono {touched' : Nat → Prop} (h : Rewritten id touched st st₁)
    (hwide : ∀ index, touched index → touched' index) : Rewritten id touched' st st₁ where
  files := h.files
  chunks := h.chunks
  leases := h.leases
  others := h.others
  present := h.present
  held := fun index content hindex => h.held index content fun htouched => hindex (hwide index htouched)

theorem Rewritten.operated (h : Rewritten id touched st st₁) (n : Nat) :
    Rewritten id touched st { st₁ with operations := n } := h.trans (rewritten_operated st₁ n)

theorem Rewritten.holds (h : Rewritten id touched st st₁) {other : FileId} {index : Nat} {content : Bytes}
    (hindex : other = id → ¬touched index) (hsize : content.length ≤ chunkSize + chunkOverhead)
    (hheld : st.Holds other index content) : st₁.Holds other index content := by
  by_cases hid : other = id
  · subst hid
    exact h.held index content (hindex rfl) hsize hheld
  · exact hheld.congr (h.others other hid)

end Rewriting

/-! ### Writes that may fail -/

section Writing

variable {env : StoreEnv} {id : FileId} {st : Store} {chunk : Bytes} {index : Nat}

theorem read_written {blob : Blob} {content : Bytes} {other : Nat} (n : Nat) (hother : other ≠ index)
    (hchunk : chunk.length ≤ chunkSize + chunkOverhead)
    (hcontent : content.length ≤ chunkSize + chunkOverhead)
    (h : blob.read (slot other) content.length = content) :
    (env.written n index chunk blob).read (slot other) content.length = content := by
  have hwrite : ∀ data : Bytes, data.length ≤ chunkSize + chunkOverhead →
      (blob.write (slot index) data).read (slot other) content.length = content := by
    intro data hdata
    refine Blob.read_write_of_disjoint h ?_
    rcases slot_disjoint hother with hbefore | hbehind
    · exact .inl (by omega)
    · exact .inr (by omega)
  rw [StoreEnv.written]
  split_ifs
  · exact hwrite chunk hchunk
  · exact h
  · exact hwrite _ ((List.length_take_le' _ _).trans hchunk)

theorem rewritten_slot {touched : Nat → Prop} (hread : ∀ blob other content, st.blobs id = some blob →
      ¬touched other → content.length ≤ chunkSize + chunkOverhead →
      blob.read (slot other) content.length = content →
      (env.written st.operations index chunk blob).read (slot other) content.length = content) (n : Nat) :
    Rewritten id touched st { st with
      blobs := update st.blobs id ((st.blobs id).map (env.written st.operations index chunk))
      operations := n } := by
  refine ⟨rfl, rfl, rfl, fun other hother => update_of_ne hother _ _, ?_, ?_⟩
  · dsimp only
    rw [update_self, Option.isSome_map]
  · rintro other content hother hcontent ⟨blob, hblob, hbefore⟩
    refine ⟨env.written st.operations index chunk blob, ?_, hread blob other content hblob hother hcontent hbefore⟩
    dsimp only
    rw [update_self, hblob]
    rfl

theorem wp_writeSlot_rewritten (hchunk : chunk.length ≤ chunkSize + chunkOverhead) :
    wp (writeSlot id index chunk) env st
      (fun _ st' => Rewritten id (· = index) st st' ∧
        ((st.blobs id).isSome = true → st'.Holds id index chunk))
      fun _ st' => Rewritten id (· = index) st st' := by
  have hrewritten : ∀ n, Rewritten id (· = index) st { st with
      blobs := update st.blobs id ((st.blobs id).map (env.written st.operations index chunk))
      operations := n } :=
    rewritten_slot fun _ _ _ _ hother hcontent hbefore =>
      read_written st.operations hother hchunk hcontent hbefore
  simp only [writeSlot, operate, wp_do, wp_ensure]
  refine ⟨fun hsucceeds => ⟨hrewritten _, fun hsome => ?_⟩, fun _ => hrewritten _⟩
  obtain ⟨blob, hblob⟩ := Option.isSome_iff_exists.mp hsome
  refine ⟨blob.write (slot index) chunk, ?_, blob.read_write_self _ _⟩
  dsimp only
  rw [update_self, hblob, Option.map_some, StoreEnv.written, if_pos hsucceeds]

/-- Writing again what a slot holds touches nothing, also if only a part of it is done. -/
theorem wp_writeSlot_held (hheld : st.Holds id index chunk) (hchunk : chunk.length ≤ chunkSize + chunkOverhead) :
    wp (writeSlot id index chunk) env st
      (fun _ st' => Rewritten id (fun _ => False) st st' ∧ st'.Holds id index chunk)
      fun _ st' => Rewritten id (fun _ => False) st st' := by
  have hrewritten : ∀ n, Rewritten id (fun _ => False) st { st with
      blobs := update st.blobs id ((st.blobs id).map (env.written st.operations index chunk))
      operations := n } := by
    refine rewritten_slot fun blob other content hblob _ _ hbefore => ?_
    obtain ⟨blob', hblob', hsame⟩ := hheld
    rw [hblob, Option.some.injEq] at hblob'
    subst hblob'
    rw [StoreEnv.written]
    split_ifs
    · have hwhole := Blob.read_write_of_same hsame chunk.length hbefore
      rwa [List.take_length] at hwhole
    · exact hbefore
    · exact Blob.read_write_of_same hsame _ hbefore
  simp only [writeSlot, operate, wp_do, wp_ensure]
  exact ⟨fun _ => ⟨hrewritten _, (hrewritten _).held index chunk not_false hchunk hheld⟩, fun _ => hrewritten _⟩

variable (env id st) in
theorem wp_writeSlots_rewritten {ι : Type} (index : ι → Nat) (chunk : ι → Bytes) {items : List ι}
    (hdistinct : (items.map index).Nodup)
    (hsize : ∀ item ∈ items, (chunk item).length ≤ chunkSize + chunkOverhead)
    (hsome : (st.blobs id).isSome = true) :
    wp (forEach (fun item => writeSlot id (index item) (chunk item)) items) env st
      (fun _ st' => Rewritten id (· ∈ items.map index) st st' ∧
        ∀ item ∈ items, st'.Holds id (index item) (chunk item))
      fun _ st' => Rewritten id (· ∈ items.map index) st st' := by
  induction items generalizing st with
  | nil => exact ⟨rewritten_refl st, nofun⟩
  | cons item items ih =>
    rw [List.map_cons, List.nodup_cons] at hdistinct
    have hfirst := hsize item (.head _)
    have hwiden : ∀ st₁, Rewritten id (· = index item) st st₁ →
        Rewritten id (· ∈ (item :: items).map index) st st₁ := by
      intro st₁ h
      refine h.mono fun other hother => ?_
      rw [hother]
      exact .head _
    simp only [forEach, wp_bind]
    refine wp_mono (wp_writeSlot_rewritten hfirst) (fun _ st₁ hst₁ => ?_) fun _ => hwiden
    have hrest := ih st₁ hdistinct.2 (fun other hmem => hsize other (.tail _ hmem))
      (hst₁.1.present.trans hsome)
    have hboth : ∀ st₂, Rewritten id (· ∈ items.map index) st₁ st₂ →
        Rewritten id (· ∈ (item :: items).map index) st st₂ := by
      intro st₂ h
      exact (hwiden st₁ hst₁.1).trans (h.mono fun other hother => .tail _ hother)
    refine wp_mono hrest (fun _ st₂ hst₂ => ⟨hboth st₂ hst₂.1, fun found hmem => ?_⟩) fun _ => hboth
    rcases List.mem_cons.mp hmem with rfl | hmem
    · -- the first chunk is not overwritten by the others
      exact hst₂.1.held _ _ hdistinct.1 hfirst (hst₁.2 hsome)
    · exact hst₂.2 found hmem

def Store.indexed (st : Store) (id : FileId) (writes : Writes) (n : Nat) : Store :=
  { st with chunks := update st.chunks id (writes.addTo (st.chunks id)), operations := n }

theorem wp_writeChunks_rewritten {writes : Writes} (hsized : writes.Sized) :
    wp (writeChunks id writes) env st
      (fun _ st' => ∃ st₁ n, Rewritten id (· ∈ writes.keys) st st₁ ∧
        (∀ entry ∈ writes.entries, st₁.Holds id entry.1 entry.2.1) ∧ st' = st₁.indexed id writes n)
      fun _ st' => Rewritten id (· ∈ writes.keys) st st' := by
  simp only [writeChunks, wp_do, wp_ite, wp_ensure]
  refine ⟨fun hempty => ⟨st, st.operations, rewritten_refl st, ?_, ?_⟩, fun _ => ?_⟩
  · rw [hempty]
    intro _ h
    cases h
  · rw [Store.indexed, Writes.addTo, hempty, List.foldl_nil, update_eq_self]
  refine wp_operate (fun n => ⟨fun hsome => ?_, fun _ => rewritten_operated st n⟩) (rewritten_operated st)
  have hperm := List.perm_insertionSort (fun a b : Nat × Bytes × Digest => a.1 ≤ b.1) writes.entries
  have hmem : ∀ index, index ∈ (writes.entries.insertionSort fun a b => a.1 ≤ b.1).map Prod.fst →
      index ∈ writes.keys := fun index h => (hperm.map Prod.fst).subset h
  have hslots := wp_writeSlots_rewritten env id { st with operations := n }
    (fun entry : Nat × Bytes × Digest => entry.1) (fun entry => entry.2.1)
    ((hperm.map Prod.fst).nodup_iff.mpr writes.nodup)
    (fun entry hentry => hsized entry (hperm.subset hentry)) hsome
  refine wp_mono hslots (fun _ st₁ hst₁ => ?_) fun _ st₁ hst₁ => (rewritten_operated st n).trans (hst₁.mono hmem)
  have hrewritten : Rewritten id (· ∈ writes.keys) st st₁ :=
    (rewritten_operated st n).trans (hst₁.1.mono hmem)
  refine wp_operate (fun k => ?_) hrewritten.operated
  refine wp_transaction (wp_insertChunks (fun entry : Nat × Bytes × Digest => entry.1)
    (fun entry => entry.2.2) writes.entries (fun m => ⟨fun i => ?_, hrewritten.operated⟩)
    fun chunks m => hrewritten.operated m)
  exact ⟨st₁, i, hrewritten, fun entry hentry => hst₁.2 entry (hperm.symm.subset hentry), rfl⟩

end Writing

end CallBackend.Files
