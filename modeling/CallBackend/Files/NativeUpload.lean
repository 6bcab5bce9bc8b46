import CallBackend.Files.Slots

/-!
# Uploads through the native transport

`fileOperation` uploads a batch in three steps: the backend is asked for a plan and a lease, the
chunks of the plan are written to the blob, and the backend is asked to commit. Run without
interference it does what `put_batch` does with the same chunks. Both go through the chunks one by
one with the same checks; `Tally` says what the two loops have in common at each chunk.
-/

namespace CallBackend.Files

open Exec Function

/-! ### The native transport -/

/-- Digests are written as the backend expects them. -/
def Setup.Hex (setup : Setup) : Prop := ∀ data, digestPattern (setup.sha256 data) = true

def announce (setup : Setup) (chunk : Nat × Bytes) : Json :=
  .obj [("index", .int chunk.1), ("length", .int chunk.2.length), ("digest", .str (setup.sha256 chunk.2))]

/-- The metadata of a request to prepare or to commit; empty fields are omitted. -/
def nativeRequest (setup : Setup) (op : String) (id : FileId) (chunks : List (Nat × Bytes))
    (lease : String) : Json :=
  .obj ([("type", .str ""), ("op", .str op), ("id", .str id), ("index", .int 0), ("chunk", .str "")] ++
    (if chunks = [] then [] else [("chunks", .arr (chunks.map (announce setup)))]) ++
    if lease = "" then [] else [("lease", .str lease)])

def planned (plan : List Nat) (chunks : List (Nat × Bytes)) : List (Nat × Bytes) :=
  chunks.filter fun chunk => chunk.1 ∈ plan

/-- Writes the chunks of a plan, if there are any, and syncs. -/
def writePlan (id : FileId) (plan : List Nat) (chunks : List (Nat × Bytes)) : StoreM Unit :=
  if plan = [] then return
  else do
    operate .osError
    ensure (((← get).blobs id).isSome) .osError
    forEach (fun chunk => writeSlot id chunk.1 chunk.2) (planned plan chunks)
    operate .osError

/-- A request that is served at another time. -/
def servedAt (env : StoreEnv) {α : Type} (m : StoreM α) : StoreM α := fun _ st => m env st

/-- An upload by `fileOperation` that nothing interferes with, with the time of its commit. -/
def fileOperation (setup : Setup) (later : StoreEnv) (user : String) (id : FileId)
    (chunks : List (Nat × Bytes)) : StoreM Reply := do
  ensure (idPattern id) (.file .notAvailable)
  match ← nativeFileRequest user (nativeRequest setup "prepare" id chunks "") with
  | .plan write _ lease => do
    ensure (lease.utf8ByteSize = 32) (.file .invalidRequest)
    writePlan id write chunks
    servedAt later (nativeFileRequest user (nativeRequest setup "commit" id chunks lease))
  | _ => fail .invalidRequest

section Requests

variable {setup : Setup} {op lease : String} {id : FileId} {chunks : List (Nat × Bytes)}

theorem get_op : (nativeRequest setup op id chunks lease).get "op" = .str op := rfl

theorem get_id : (nativeRequest setup op id chunks lease).get "id" = .str id := rfl

theorem get_chunks (h : chunks ≠ []) :
    (nativeRequest setup op id chunks lease).get "chunks" = .arr (chunks.map (announce setup)) := by
  rw [nativeRequest, if_neg h]
  rfl

theorem get_chunks_nil : (nativeRequest setup op id [] lease).get "chunks" = .null := by
  rw [nativeRequest, if_pos rfl]
  split_ifs <;> rfl

theorem get_lease (h : lease ≠ "") : (nativeRequest setup op id chunks lease).get "lease" = .str lease := by
  rw [nativeRequest, if_neg h]
  split_ifs <;> rfl

theorem fileId?_str (h : idPattern id = true) : fileId? (.str id) = some id := by
  rw [fileId?, if_pos h]

end Requests

/-! ### One chunk on both sides -/

section Chunks

variable {setup : Setup} {row : FileRow} {stored : Dict Nat Digest} {op lease : String} {id : FileId}

theorem integer_nat (n high : Nat) :
    integer (.int n) 0 high = if n ≤ high then .ok n else .error (.file .invalidRequest) := by
  rw [integer]
  by_cases h : n ≤ high
  · rw [if_pos h, if_pos ⟨Int.natCast_nonneg n, by exact_mod_cast h⟩, Int.toNat_natCast]
  · rw [if_neg h, if_neg fun hboth => h (by exact_mod_cast hboth.2)]

inductive Fate where
  | known
  | conflict
  | new
  deriving DecidableEq

def fate (stored : Dict Nat Digest) (index : Nat) (digest : Digest) : Fate :=
  match stored.get? index with
  | none => .new
  | some existing => if existing = digest then .known else .conflict

theorem addUploaded_eq {done : List Nat × Writes} {index : Nat} {chunk : Bytes}
    (hwrites : index ∉ done.1 → done.2.get? index = none) :
    addUploaded setup row stored done index chunk =
      if row.count - 1 < index then .error (.file .invalidRequest)
      else if index ∈ done.1 ∨ chunk.length ≠ row.chunkLength index then .error (.file .invalidChunk)
      else match fate stored index (setup.sha256 chunk) with
        | .known => .ok (done.1 ++ [index], done.2)
        | .conflict => .error (.file .chunkConflict)
        | .new => .ok (done.1 ++ [index], done.2.set index (chunk, setup.sha256 chunk)) := by
  rw [addUploaded, integer_nat]
  by_cases hrange : row.count - 1 < index
  · rw [if_neg (by omega), if_pos hrange]
    rfl
  rw [if_pos (by omega), if_neg hrange]
  by_cases hbad : index ∈ done.1 ∨ chunk.length ≠ row.chunkLength index
  · rw [if_pos hbad]
    exact if_pos hbad
  rw [if_neg hbad]
  have hnone := hwrites fun hmem => hbad (.inl hmem)
  have hadd : addChunk stored done.2 index chunk (setup.sha256 chunk) =
      match fate stored index (setup.sha256 chunk) with
      | .known => .ok done.2
      | .conflict => .error (.file .chunkConflict)
      | .new => .ok (done.2.set index (chunk, setup.sha256 chunk)) := by
    rw [addChunk, hnone, fate]
    cases stored.get? index with
    | none => rfl
    | some existing =>
      dsimp only [Option.map_none, Option.none_or]
      split_ifs <;> rfl
  refine (if_neg hbad).trans ?_
  rw [hadd]
  cases fate stored index (setup.sha256 chunk) <;> rfl

theorem addDescriptor_eq (hdigest : setup.Hex)
    {done : List Descriptor × List Nat} {chunk : Nat × Bytes} :
    addDescriptor row stored done (announce setup chunk) =
      if row.count - 1 < chunk.1 then .error (.file .invalidRequest)
      else if chunk.1 ∈ done.1.map Descriptor.index ∨ chunk.2.length ≠ row.chunkLength chunk.1 then
        .error (.file .invalidChunk)
      else match fate stored chunk.1 (setup.sha256 chunk.2) with
        | .known => .ok (done.1 ++ [⟨chunk.1, row.chunkLength chunk.1, setup.sha256 chunk.2⟩], done.2)
        | .conflict => .error (.file .chunkConflict)
        | .new => .ok (done.1 ++ [⟨chunk.1, row.chunkLength chunk.1, setup.sha256 chunk.2⟩],
            done.2 ++ [chunk.1]) := by
  have hindex : (announce setup chunk).get "index" = .int chunk.1 := rfl
  have hlength : (announce setup chunk).get "length" = .int chunk.2.length := rfl
  have hsha : (announce setup chunk).get "digest" = .str (setup.sha256 chunk.2) := rfl
  have hnumber : isNumber (.int chunk.2.length) (row.chunkLength chunk.1) =
      decide (chunk.2.length = row.chunkLength chunk.1) := by
    rw [isNumber]
    exact decide_eq_decide.mpr Int.natCast_inj
  obtain ⟨members, hobj⟩ : ∃ members, announce setup chunk = .obj members := ⟨_, rfl⟩
  rw [hobj] at hindex hlength hsha ⊢
  rw [addDescriptor]
  dsimp only
  rw [hindex, hlength, hsha, integer_nat]
  by_cases hrange : row.count - 1 < chunk.1
  · rw [if_neg (by omega), if_pos hrange]
    rfl
  rw [if_pos (by omega), if_neg hrange]
  have hcheck : (chunk.1 ∈ done.1.map Descriptor.index ∨
      (!isNumber (.int chunk.2.length) (row.chunkLength chunk.1)) = true ∨
      (!digestPattern (setup.sha256 chunk.2)) = true) ↔
      (chunk.1 ∈ done.1.map Descriptor.index ∨ chunk.2.length ≠ row.chunkLength chunk.1) := by
    rw [hnumber, hdigest chunk.2]
    simp
  by_cases hbad : chunk.1 ∈ done.1.map Descriptor.index ∨ chunk.2.length ≠ row.chunkLength chunk.1
  · rw [if_pos hbad]
    exact if_pos (hcheck.mpr hbad)
  rw [if_neg hbad]
  refine (if_neg fun h => hbad (hcheck.mp h)).trans ?_
  rw [fate]
  cases stored.get? chunk.1 with
  | none => rfl
  | some existing =>
    dsimp only
    by_cases hsame : existing = setup.sha256 chunk.2
    · rw [if_pos hsame]
      exact if_neg (not_not_intro hsame)
    · rw [if_neg hsame]
      exact if_pos hsame

def descriptor (setup : Setup) (chunk : Nat × Bytes) : Descriptor :=
  ⟨chunk.1, chunk.2.length, setup.sha256 chunk.2⟩

def entry (setup : Setup) (chunk : Nat × Bytes) : Nat × Bytes × Digest :=
  (chunk.1, chunk.2, setup.sha256 chunk.2)

def fresh (stored : Dict Nat Digest) (chunks : List (Nat × Bytes)) : List (Nat × Bytes) :=
  chunks.filter fun chunk => stored.get? chunk.1 = none

/-- The loops of `put_batch` and of `native_file_request` after the same chunks. -/
structure Tally (setup : Setup) (row : FileRow) (stored : Dict Nat Digest) (chunks : List (Nat × Bytes))
    (put : List Nat × Writes) (native : List Descriptor × List Nat) : Prop where
  seen : put.1 = chunks.map Prod.fst
  entries : put.2.entries = (fresh stored chunks).map (entry setup)
  descriptors : native.1 = chunks.map (descriptor setup)
  new : native.2 = (fresh stored chunks).map Prod.fst
  distinct : (chunks.map Prod.fst).Nodup
  length : ∀ chunk ∈ chunks, chunk.2.length = row.chunkLength chunk.1
  range : ∀ chunk ∈ chunks, chunk.1 ≤ row.count - 1
  agree : ∀ chunk ∈ chunks, ∀ digest, stored.get? chunk.1 = some digest → digest = setup.sha256 chunk.2

variable {chunks : List (Nat × Bytes)} {put : List Nat × Writes} {native : List Descriptor × List Nat}

variable (setup row stored) in
theorem tally_nil : Tally setup row stored [] ([], ∅) ([], []) :=
  ⟨rfl, rfl, rfl, rfl, List.nodup_nil, nofun, nofun, nofun⟩

theorem Tally.get?_of_not_seen (h : Tally setup row stored chunks put native) {index : Nat}
    (hindex : index ∉ put.1) : put.2.get? index = none := by
  by_contra hsome
  obtain ⟨value, hvalue⟩ := Option.ne_none_iff_exists'.mp hsome
  have hmem := (put.2.mem_entries_iff index value).mpr hvalue
  rw [h.entries] at hmem
  obtain ⟨chunk, hchunk, heq⟩ := List.mem_map.mp hmem
  rw [h.seen] at hindex
  refine hindex (List.mem_map.mpr ⟨chunk, (List.mem_filter.mp hchunk).1, ?_⟩)
  exact congrArg Prod.fst heq

theorem forall_mem_concat {α : Type} {p : α → Prop} {l : List α} {a : α} (hl : ∀ b ∈ l, p b) (ha : p a) :
    ∀ b ∈ l ++ [a], p b := by
  intro b hmem
  rcases List.mem_append.mp hmem with hmem | hmem
  · exact hl b hmem
  · rw [List.mem_singleton.mp hmem]
    exact ha

theorem Tally.step (hdigest : setup.Hex)
    (h : Tally setup row stored chunks put native) (chunk : Nat × Bytes) :
    (∃ error, addUploaded setup row stored put chunk.1 chunk.2 = .error error ∧
      addDescriptor row stored native (announce setup chunk) = .error error) ∨
    ∃ put' native', addUploaded setup row stored put chunk.1 chunk.2 = .ok put' ∧
      addDescriptor row stored native (announce setup chunk) = .ok native' ∧
      Tally setup row stored (chunks ++ [chunk]) put' native' := by
  have hindices : native.1.map Descriptor.index = put.1 := by
    rw [h.descriptors, h.seen, List.map_map]
    rfl
  rw [addUploaded_eq h.get?_of_not_seen, addDescriptor_eq hdigest, hindices]
  by_cases hrange : row.count - 1 < chunk.1
  · rw [if_pos hrange, if_pos hrange]
    exact .inl ⟨_, rfl, rfl⟩
  rw [if_neg hrange, if_neg hrange]
  by_cases hbad : chunk.1 ∈ put.1 ∨ chunk.2.length ≠ row.chunkLength chunk.1
  · rw [if_pos hbad, if_pos hbad]
    exact .inl ⟨_, rfl, rfl⟩
  rw [if_neg hbad, if_neg hbad]
  rw [not_or, not_not] at hbad
  have hseen : put.1 ++ [chunk.1] = (chunks ++ [chunk]).map Prod.fst := by
    rw [h.seen, List.map_append]
    rfl
  have hdescriptors : native.1 ++ [⟨chunk.1, row.chunkLength chunk.1, setup.sha256 chunk.2⟩] =
      (chunks ++ [chunk]).map (descriptor setup) := by
    rw [h.descriptors, List.map_append, ← hbad.2]
    rfl
  have hdistinct : ((chunks ++ [chunk]).map Prod.fst).Nodup := by
    rw [List.map_append]
    refine List.nodup_append.mpr ⟨h.distinct, List.nodup_singleton _, fun i hi j hj => ?_⟩
    rw [List.map_singleton, List.mem_singleton] at hj
    rintro rfl
    rw [h.seen] at hbad
    exact hbad.1 (hj ▸ hi)
  have hlength := forall_mem_concat h.length hbad.2
  have hranges := forall_mem_concat h.range (not_lt.mp hrange)
  have hfresh : fresh stored (chunks ++ [chunk]) =
      fresh stored chunks ++ if stored.get? chunk.1 = none then [chunk] else [] := by
    rw [fresh, List.filter_append]
    by_cases hnone : stored.get? chunk.1 = none
    · rw [if_pos hnone, List.filter_cons_of_pos (by simpa using hnone)]
      rfl
    · rw [if_neg hnone, List.filter_cons_of_neg (by simpa using hnone)]
      rfl
  cases hstored : stored.get? chunk.1 with
  | none =>
    have hfate : fate stored chunk.1 (setup.sha256 chunk.2) = .new := by rw [fate, hstored]
    rw [hfate]
    rw [if_pos hstored] at hfresh
    refine .inr ⟨_, _, rfl, rfl, ⟨hseen, ?_, hdescriptors, ?_, hdistinct, hlength, hranges, ?_⟩⟩
    · rw [hfresh, List.map_append, ← h.entries]
      exact entries_set_new (h.get?_of_not_seen hbad.1)
    · rw [hfresh, List.map_append, ← h.new]
      rfl
    · exact forall_mem_concat h.agree fun digest hsome => by rw [hstored] at hsome; cases hsome
  | some existing =>
    rw [if_neg (by rw [hstored]; exact fun h => by cases h), List.append_nil] at hfresh
    by_cases hsame : existing = setup.sha256 chunk.2
    · have hfate : fate stored chunk.1 (setup.sha256 chunk.2) = .known := by
        rw [fate, hstored]
        exact if_pos hsame
      rw [hfate]
      refine .inr ⟨_, _, rfl, rfl, ⟨hseen, ?_, hdescriptors, ?_, hdistinct, hlength, hranges, ?_⟩⟩
      · rw [hfresh]
        exact h.entries
      · rw [hfresh]
        exact h.new
      · refine forall_mem_concat h.agree fun digest hsome => ?_
        rw [hstored, Option.some.injEq] at hsome
        rw [← hsome, hsame]
    · have hfate : fate stored chunk.1 (setup.sha256 chunk.2) = .conflict := by
        rw [fate, hstored]
        exact if_neg hsame
      rw [hfate]
      exact .inl ⟨_, rfl, rfl⟩

theorem Tally.fold (hdigest : setup.Hex)
    (h : Tally setup row stored chunks put native) (rest : List (Nat × Bytes)) :
    (∃ error, rest.foldlM (fun done chunk => addUploaded setup row stored done chunk.1 chunk.2) put =
        .error error ∧
      (rest.map (announce setup)).foldlM (addDescriptor row stored) native = .error error) ∨
    ∃ put' native', rest.foldlM (fun done chunk => addUploaded setup row stored done chunk.1 chunk.2) put =
        .ok put' ∧
      (rest.map (announce setup)).foldlM (addDescriptor row stored) native = .ok native' ∧
      Tally setup row stored (chunks ++ rest) put' native' := by
  induction rest generalizing chunks put native with
  | nil => exact .inr ⟨put, native, rfl, rfl, by rwa [List.append_nil]⟩
  | cons chunk rest ih =>
    rw [List.foldlM_cons, List.map_cons, List.foldlM_cons]
    rcases h.step hdigest chunk with ⟨error, hput, hnative⟩ | ⟨put', native', hput, hnative, hnext⟩
    · rw [hput, hnative]
      exact .inl ⟨error, rfl, rfl⟩
    · rw [hput, hnative]
      have hrest := ih hnext
      rw [List.append_assoc] at hrest
      exact hrest

variable (op lease id row stored) in
theorem checks_agree (hdigest : setup.Hex)
    (chunks : List (Nat × Bytes)) :
    (∃ error, checkUpload setup row stored (.binary chunks) = .error error ∧
      parseDescriptors row stored ((nativeRequest setup op id chunks lease).get "chunks") = .error error) ∨
    ∃ put native, checkUpload setup row stored (.binary chunks) = .ok put ∧
      parseDescriptors row stored ((nativeRequest setup op id chunks lease).get "chunks") = .ok native ∧
      chunks ≠ [] ∧ Tally setup row stored chunks put native := by
  by_cases hempty : chunks = []
  · subst hempty
    rw [get_chunks_nil, checkUpload, if_pos (.inl rfl)]
    exact .inl ⟨_, rfl, rfl⟩
  rw [get_chunks hempty, checkUpload, parseDescriptors, List.length_map]
  have hmap : chunks.map (announce setup) = [] ↔ chunks = [] := List.map_eq_nil_iff
  by_cases hmany : batchChunks < chunks.length
  · rw [if_pos (.inr hmany), if_pos (.inr hmany)]
    exact .inl ⟨_, rfl, rfl⟩
  rw [if_neg (not_or.mpr ⟨hempty, hmany⟩), if_neg (not_or.mpr ⟨fun h => hempty (hmap.mp h), hmany⟩)]
  rcases (tally_nil setup row stored).fold hdigest chunks with
    herror | ⟨put, native, hput, hnative, htally⟩
  · exact .inl herror
  · exact .inr ⟨put, native, hput, hnative, hempty, htally⟩

/-- A batch that `put_batch` takes is one of which the plan is made, too. -/
theorem tally_of_checked (hdigest : setup.Hex)
    (h : checkUpload setup row stored (.binary chunks) = .ok put) :
    ∃ native, parseDescriptors row stored (.arr (chunks.map (announce setup))) = .ok native ∧ chunks ≠ [] ∧
      Tally setup row stored chunks put native := by
  rcases checks_agree row stored "prepare" "" "" hdigest chunks with
    ⟨error, hput, -⟩ | ⟨put', native, hput, hnative, hnonempty, htally⟩
  · rw [hput] at h
    cases h
  · rw [hput] at h
    cases h
    rw [get_chunks hnonempty] at hnative
    exact ⟨native, hnative, hnonempty, htally⟩

theorem tally_of_parsed (hdigest : setup.Hex)
    (h : parseDescriptors row stored ((nativeRequest setup op id chunks lease).get "chunks") = .ok native) :
    ∃ put, checkUpload setup row stored (.binary chunks) = .ok put ∧ chunks ≠ [] ∧
      Tally setup row stored chunks put native := by
  rcases checks_agree row stored op lease id hdigest chunks with
    ⟨error, -, hnative⟩ | ⟨put, native', hput, hnative, hnonempty, htally⟩
  · rw [hnative] at h
    cases h
  · rw [hnative] at h
    cases h
    exact ⟨put, hput, hnonempty, htally⟩

end Chunks

/-! ### Batches that are taken -/

/-- A batch that both sides take: the file is an upload of the user, and the chunks pass the checks. -/
structure Admitted (setup : Setup) (now : Nanos) (user : String) (st : Store) (id : FileId)
    (chunks : List (Nat × Bytes)) (row : FileRow) (put : List Nat × Writes)
    (native : List Descriptor × List Nat) : Prop where
  pattern : idPattern id = true
  uploads : st.Uploads now user id row
  nonempty : chunks ≠ []
  checked : checkUpload setup row (st.chunks id) (.binary chunks) = .ok put
  parsed : parseDescriptors row (st.chunks id) (.arr (chunks.map (announce setup))) = .ok native
  tally : Tally setup row (st.chunks id) chunks put native

def Writable (st : Store) (id : FileId) (writes : Writes) : Prop :=
  writes.entries ≠ [] → (st.blobs id).isSome = true

section Taken

variable {setup : Setup} {env later : StoreEnv} {user : String} {st : Store} {id : FileId}
  {chunks : List (Nat × Bytes)} {row : FileRow} {put : List Nat × Writes}
  {native : List Descriptor × List Nat} {now : Nanos}

theorem Admitted.not_deleted (h : Admitted setup now user st id chunks row put native) :
    row.state ≠ .deleted := by
  rw [h.uploads.state]
  exact nofun

theorem Admitted.unexpired (h : Admitted setup now user st id chunks row put native) :
    ¬seconds row.expires ≤ now := by
  have hlive := h.uploads.live
  rw [FileRow.lapsed, Bool.or_eq_false_iff, decide_eq_false_iff_not] at hlive
  exact hlive.1

variable {stored : Dict Nat Digest}

theorem Tally.sized (h : Tally setup row stored chunks put native) :
    put.2.Sized := by
  intro found hmem
  rw [h.entries] at hmem
  obtain ⟨chunk, hchunk, rfl⟩ := List.mem_map.mp hmem
  exact (h.length chunk (List.mem_filter.mp hchunk).1).trans_le (chunkLength_le row _)

theorem Tally.fresh_keys (h : Tally setup row stored chunks put native) :
    put.2.New stored := by
  intro index hmem
  rw [Dict.keys, h.entries, List.map_map] at hmem
  obtain ⟨chunk, hchunk, rfl⟩ := List.mem_map.mp hmem
  exact of_decide_eq_true (List.mem_filter.mp hchunk).2

theorem putBatch_admitted (henv : env.Faultless) (h : Admitted setup env.now user st id chunks row put native)
    (hblob : Writable st id put.2) :
    ∃ n, putBatch setup user id (.binary chunks) env st =
      (.ok (.received ((chunks.map Prod.fst).insertionSort (· ≤ ·))), st.withWrites id put.2 n) := by
  obtain ⟨n, hwrite⟩ := writeChunks_faultless henv h.tally.sized h.tally.fresh_keys hblob
  have hwp : wp (putBatch setup user id (.binary chunks)) env st
      (fun reply st' => reply = .received ((chunks.map Prod.fst).insertionSort (· ≤ ·)) ∧
        st' = st.withWrites id put.2 n) fun _ _ => False := by
    simp only [putBatch, wp_bind]
    refine wp_row_stored h.pattern h.uploads.stored h.not_deleted ?_
    simp only [fail, wp_ite, wp_do, wp_lift]
    refine ⟨fun howner => howner h.uploads.owner, fun _ => ⟨h.unexpired, fun _ =>
      ⟨fun hstate => hstate h.uploads.state, fun _ => ⟨fun put' hput => ?_, fun error herror => ?_⟩⟩⟩⟩
    · rw [h.checked] at hput
      cases hput
      refine wp_of_ok hwrite ⟨?_, rfl⟩
      rw [h.tally.seen]
    · rw [h.checked] at herror
      cases herror
  obtain ⟨reply, st', hrun, rfl, rfl⟩ := wp_total hwp
  exact ⟨n, hrun⟩

theorem admitted_of_putBatch (hdigest : setup.Hex)
    {reply : Reply} {st' : Store}
    (h : putBatch setup user id (.binary chunks) env st = (.ok reply, st')) :
    ∃ row put native, Admitted setup env.now user st id chunks row put native ∧ Writable st id put.2 := by
  have hid : idPattern id = true := by
    by_contra hbad
    have hrow : Files.row id env st = (.error (.file .notAvailable), st) := by
      have hfail : (ensure (idPattern id = true) (.file .notAvailable) : StoreM Unit) env st =
          (.error (.file .notAvailable), st) := by
        rw [ensure, if_neg hbad]
        rfl
      rw [Files.row, bind_error hfail]
    rw [putBatch, bind_error hrow] at h
    cases h
  have hwp : wp (putBatch setup user id (.binary chunks)) env st
      (fun _ _ => ∃ row put native, Admitted setup env.now user st id chunks row put native ∧
        Writable st id put.2) fun _ _ => True := by
    simp only [putBatch, wp_bind]
    refine wp_row (fun row hrow hdeleted => ?_) fun _ => trivial
    simp only [fail, wp_ite, wp_do, wp_lift]
    refine ⟨fun _ => trivial, fun howner => ⟨fun _ => trivial, fun hexpires => ⟨fun _ => trivial,
      fun hstate => ⟨fun put hput => ?_, fun _ _ => trivial⟩⟩⟩⟩
    rw [not_not] at howner hstate
    have huploads : st.Uploads env.now user id row := by
      refine ⟨hrow, howner, hstate, ?_⟩
      rw [FileRow.lapsed, hstate, Bool.or_eq_false_iff, decide_eq_false_iff_not]
      exact ⟨hexpires, rfl⟩
    obtain ⟨native, hnative, hnonempty, htally⟩ := tally_of_checked hdigest hput
    have hadmitted : Admitted setup env.now user st id chunks row put native :=
      ⟨hid, huploads, hnonempty, hput, hnative, htally⟩
    simp only [writeChunks, wp_do, wp_ite, wp_ensure]
    refine ⟨fun hempty => ⟨row, put, native, hadmitted, fun hsome => absurd hempty hsome⟩, fun _ => ?_⟩
    refine wp_operate (fun n => ⟨fun hblob => ?_, fun _ => trivial⟩) fun _ => trivial
    refine wp_of_forall fun _ _ => wp_of_forall fun _ _ => wp_of_forall fun _ _ => ?_
    exact ⟨row, put, native, hadmitted, fun _ => hblob⟩
  exact wp_ok hwp h

/-! ### Prepare, write and commit -/

def Roomy (env : StoreEnv) (st : Store) (id : FileId) : Prop :=
  (st.purged env.monotonic).nativeWrites.get? id = none →
    (st.purged env.monotonic).nativeWrites.size < maxLeases

variable {lease : String}

theorem wp_nativeFileRequest {op : String} {post : Reply → Store → Prop}
    {onFail : StoreExn → Store → Prop} (h : Admitted setup env.now user st id chunks row put native)
    (hcommit : op = "commit" → wp (commit id (row.binding native.1) native.2
      ((nativeRequest setup op id chunks lease).get "lease")) env st post onFail)
    (hprepare : op ≠ "commit" → wp (prepare id (row.binding native.1) native.2) env st post onFail)
    (hop : op = "prepare" ∨ op = "commit") :
    wp (nativeFileRequest user (nativeRequest setup op id chunks lease)) env st post onFail := by
  have htext : ((nativeRequest setup op id chunks lease).get "op").text? = some op := rfl
  have hread : ¬(some op = some "read" ∨ some op = some "read_batch") := by
    rcases hop with rfl | rfl <;> decide
  have hknown : ¬(some op ≠ some "prepare" ∧ some op ≠ some "commit") := by
    rcases hop with rfl | rfl <;> decide
  simp only [nativeFileRequest, wp_bind, wp_require, get_id, fileId?_str h.pattern]
  refine ⟨fun found hfound => ?_, fun h => by cases h⟩
  cases hfound
  refine wp_row_stored h.pattern h.uploads.stored h.not_deleted ?_
  simp only [fail, wp_do, wp_ite, wp_lift, htext, get_chunks h.nonempty]
  refine ⟨fun hlapsed => ?_, fun _ => ⟨fun hop => absurd hop hread, fun _ => ⟨fun hop => absurd hop hknown,
    fun _ => ⟨fun howner => absurd h.uploads.owner howner, fun _ =>
      ⟨fun hstate => absurd h.uploads.state hstate, fun _ => ⟨fun parsed hparsed => ?_, fun error herror => ?_⟩⟩⟩⟩⟩⟩
  · rw [h.uploads.live] at hlapsed
    cases hlapsed
  · rw [h.parsed] at hparsed
    cases hparsed
    exact ⟨fun hop => hcommit (Option.some.inj hop), fun hop => hprepare fun heq => hop (congrArg some heq)⟩
  · rw [h.parsed] at herror
    cases herror

theorem prepare_admitted (h : Admitted setup env.now user st id chunks row put native)
    (hroom : Roomy env st id) :
    nativeFileRequest user (nativeRequest setup "prepare" id chunks "") env st =
      (.ok (.plan native.2 (row.binding native.1).indices env.token),
        (st.purged env.monotonic).leased id (leaseFor env row native.1)) := by
  have hwp : wp (nativeFileRequest user (nativeRequest setup "prepare" id chunks "")) env st
      (fun reply st' => reply = .plan native.2 (row.binding native.1).indices env.token ∧
        st' = (st.purged env.monotonic).leased id (leaseFor env row native.1)) fun _ _ => False := by
    refine wp_nativeFileRequest h (fun hop => absurd hop (by decide)) (fun _ => ?_) (.inl rfl)
    simp only [prepare, fail, wp_do, wp_ite]
    refine ⟨fun hbusy => ?_, fun _ => ⟨trivial, rfl⟩⟩
    have hsize := hroom hbusy.1
    exact absurd hbusy.2 (Nat.not_le.mpr hsize)
  obtain ⟨reply, st', hrun, rfl, rfl⟩ := wp_total hwp
  exact hrun

variable (st) in
theorem commit_admitted (lease : Lease) (henv : env.Faultless)
    (h : Admitted setup env.now user st id chunks row put native)
    (hlease : st.nativeWrites.get? id = some lease) (htoken : lease.token ≠ "")
    (hdeadline : env.monotonic < lease.deadline) (hbinding : lease.binding = row.binding native.1) :
    ∃ n, nativeFileRequest user (nativeRequest setup "commit" id chunks lease.token) env st =
      (.ok (.received (row.binding native.1).indices),
        st.committed id (native.1.filter fun chunk => chunk.index ∈ native.2) n) := by
  have hdistinct : ((native.1.filter fun chunk => chunk.index ∈ native.2).map Descriptor.index).Nodup := by
    refine List.Nodup.sublist (List.filter_sublist.map _) ?_
    rw [h.tally.descriptors, List.map_map]
    exact h.tally.distinct
  have hnew : ∀ chunk ∈ native.1.filter fun chunk => chunk.index ∈ native.2,
      (st.chunks id).get? chunk.index = none := by
    intro chunk hmem
    have hindex := of_decide_eq_true (List.mem_filter.mp hmem).2
    rw [h.tally.new] at hindex
    obtain ⟨found, hfound, heq⟩ := List.mem_map.mp hindex
    rw [← heq]
    exact of_decide_eq_true (List.mem_filter.mp hfound).2
  obtain ⟨n, hinsert⟩ := insertChunks_faultless st id henv Descriptor.digest hdistinct hnew
  have hadmits : lease.admits ((nativeRequest setup "commit" id chunks lease.token).get "lease")
      env.monotonic (row.binding native.1) = true := by
    rw [get_lease htoken, Lease.admits, hbinding]
    simp [Json.text?, hdeadline]
  have hwp : wp (nativeFileRequest user (nativeRequest setup "commit" id chunks lease.token)) env st
      (fun reply st' => reply = .received (row.binding native.1).indices ∧
        st' = st.committed id (native.1.filter fun chunk => chunk.index ∈ native.2) (n + 1))
      fun _ _ => False := by
    refine wp_nativeFileRequest h (fun _ => ?_) (fun hop => absurd rfl hop) (.inr rfl)
    simp only [commit, wp_do, wp_require, wp_ensure]
    refine ⟨fun found hfound => ?_, fun hnone => ?_⟩
    · rw [hlease] at hfound
      cases hfound
      refine ⟨fun _ => wp_of_ok (transaction_ok henv hinsert) ⟨trivial, rfl⟩, fun hbad => absurd hadmits hbad⟩
    · rw [hlease] at hnone
      cases hnone
  obtain ⟨reply, st', hrun, rfl, rfl⟩ := wp_total hwp
  exact ⟨_, hrun⟩

section Plan

variable (h : Tally setup row stored chunks put native)

include h

theorem Tally.planned_eq : planned native.2 chunks = fresh stored chunks := by
  refine List.filter_congr fun chunk hmem => decide_eq_decide.mpr ?_
  rw [h.new]
  constructor
  · intro hindex
    obtain ⟨found, hfound, heq⟩ := List.mem_map.mp hindex
    rw [← heq]
    exact of_decide_eq_true (List.mem_filter.mp hfound).2
  · intro hnone
    exact List.mem_map_of_mem (List.mem_filter.mpr ⟨hmem, decide_eq_true hnone⟩)

theorem Tally.added_eq : (native.1.filter fun chunk => chunk.index ∈ native.2) =
    (fresh stored chunks).map (descriptor setup) := by
  rw [← h.planned_eq, h.descriptors, List.filter_map]
  rfl

theorem Tally.pieces_eq : put.2.pieces = (fresh stored chunks).map fun chunk => (slot chunk.1, chunk.2) := by
  rw [Writes.pieces, h.entries, List.map_map]
  rfl

theorem Tally.addTo_eq (chunks' : Dict Nat Digest) :
    addAll chunks' (native.1.filter fun chunk => chunk.index ∈ native.2) = put.2.addTo chunks' := by
  rw [h.added_eq, addAll, Writes.addTo, h.entries, List.foldl_map, List.foldl_map]
  rfl

theorem Tally.plan_nil : native.2 = [] ↔ put.2.entries = [] := by
  rw [h.new, h.entries, List.map_eq_nil_iff, List.map_eq_nil_iff]

end Plan

variable (st) in
theorem writePlan_admitted (henv : env.Faultless) (h : Tally setup row stored chunks put native)
    (hblob : Writable st id put.2) :
    ∃ n, writePlan id native.2 chunks env st = (.ok (), { st with
      blobs := update st.blobs id ((st.blobs id).map fun blob => blob.writeAll put.2.pieces)
      operations := n }) := by
  rw [writePlan]
  by_cases hplan : native.2 = []
  · refine ⟨st.operations, ?_⟩
    have hsame : ((st.blobs id).map fun blob => blob.writeAll put.2.pieces) = st.blobs id := by
      rw [Writes.pieces, h.plan_nil.mp hplan]
      cases st.blobs id <;> rfl
    rw [if_pos hplan, hsame, update_eq_self]
    rfl
  · obtain ⟨n, hwrite⟩ := writeSlots_faultless { st with operations := st.operations + 1 } id
      henv (fun chunk : Nat × Bytes => chunk.1) (fun chunk => chunk.2) (fresh stored chunks)
    rw [← h.pieces_eq] at hwrite
    have hsome : (st.blobs id).isSome = true := hblob fun hempty => hplan (h.plan_nil.mpr hempty)
    refine ⟨n + 1, ?_⟩
    rw [if_neg hplan, bind_ok (operate_faultless henv _), get_bind, ensure_bind hsome, h.planned_eq,
      bind_ok hwrite, operate_faultless henv]

theorem fileOperation_admitted (henv : env.Faultless) (hlater : later.Faultless)
    (h : Admitted setup env.now user st id chunks row put native) (hblob : Writable st id put.2)
    (hroom : Roomy env st id) (htoken : env.token.utf8ByteSize = 32)
    (hsoon : later.monotonic < env.monotonic + seconds 120) (hlive : row.lapsed later.now = false) :
    ∃ n, fileOperation setup later user id chunks env st =
      (.ok (.received ((chunks.map Prod.fst).insertionSort (· ≤ ·))),
        { st.withWrites id put.2 n with
          nativeWrites := (st.purged env.monotonic).nativeWrites.erase id }) := by
  have hnonempty : env.token ≠ "" := by
    intro hempty
    rw [hempty] at htoken
    exact absurd htoken (by decide)
  obtain ⟨n, hwrite⟩ := writePlan_admitted ((st.purged env.monotonic).leased id (leaseFor env row native.1))
    henv h.tally hblob
  obtain ⟨m, hcommit⟩ := commit_admitted { (st.purged env.monotonic).leased id (leaseFor env row native.1) with
      blobs := update st.blobs id ((st.blobs id).map fun blob => blob.writeAll put.2.pieces)
      operations := n } (leaseFor env row native.1) hlater
    ⟨h.pattern, ⟨h.uploads.stored, h.uploads.owner, h.uploads.state, hlive⟩, h.nonempty, h.checked,
      h.parsed, h.tally⟩
    (Dict.get?_set_self ..) hnonempty hsoon rfl
  have hindices : (row.binding native.1).indices = (chunks.map Prod.fst).insertionSort (· ≤ ·) := by
    rw [Binding.indices, FileRow.binding, h.tally.descriptors, List.map_map]
    rfl
  refine ⟨m, ?_⟩
  rw [fileOperation, ensure_bind h.pattern, bind_ok (prepare_admitted h hroom)]
  dsimp only
  rw [ensure_bind htoken, bind_ok hwrite]
  refine Eq.trans hcommit ?_
  rw [hindices, Store.committed, h.tally.addTo_eq]
  dsimp only [Store.withWrites, Store.leased, Store.purged]
  rw [Dict.erase_set]

theorem NativeOutcome.of_plan {data : Json} {write received : List Nat} {st₁ : Store}
    (h : NativeOutcome env user data st (some (.plan write received lease)) st₁) :
    lease = env.token ∧ ∃ id row chunks, Accepted env user data st "prepare" id row chunks write ∧
      st₁ = (st.purged env.monotonic).leased id (leaseFor env row chunks) := by
  generalize hreply : (some (.plan write received lease) : Option Reply) = reply at h
  cases h with
  | unchanged n hno => exact absurd hreply.symm (hno _ _ _)
  | purged => cases hreply
  | prepared haccepted =>
    cases hreply
    exact ⟨rfl, _, _, _, haccepted, rfl⟩
  | committed n _ _ _ => cases hreply

theorem admitted_of_plan (hdigest : setup.Hex)
    (hid : idPattern id = true) {write received : List Nat} {st₁ : Store}
    (h : NativeOutcome env user (nativeRequest setup "prepare" id chunks "") st
      (some (.plan write received lease)) st₁) :
    ∃ row put native, Admitted setup env.now user st id chunks row put (native, write) ∧
      st₁ = (st.purged env.monotonic).leased id (leaseFor env row native) := by
  obtain ⟨-, id', row, native, haccepted, rfl⟩ := h.of_plan
  have hnamed : id = id' := by
    have hnamed := haccepted.named
    rw [get_id, fileId?_str hid] at hnamed
    exact Option.some.inj hnamed
  subst hnamed
  obtain ⟨put, hput, hnonempty, htally⟩ := tally_of_parsed hdigest haccepted.parsed
  have hparsed := haccepted.parsed
  rw [get_chunks hnonempty] at hparsed
  exact ⟨row, put, native, ⟨hid, haccepted.uploads, hnonempty, hput, hparsed, htally⟩, rfl⟩

theorem admitted_of_fileOperation (hdigest : setup.Hex)
    {reply : Reply} {st' : Store}
    (h : fileOperation setup later user id chunks env st = (.ok reply, st')) :
    ∃ row put native, Admitted setup env.now user st id chunks row put native ∧ Writable st id put.2 := by
  have hwp : wp (fileOperation setup later user id chunks) env st
      (fun _ _ => ∃ row put native, Admitted setup env.now user st id chunks row put native ∧
        Writable st id put.2) fun _ _ => True := by
    simp only [fileOperation, wp_bind, wp_ensure]
    refine ⟨fun hid => ?_, fun _ => trivial⟩
    refine wp_mono comes_nativeFileRequest (fun reply st₁ hreply => ?_) fun _ _ _ => trivial
    split
    · obtain ⟨row, put, native, hadmitted, rfl⟩ := admitted_of_plan hdigest hid hreply
      simp only [writePlan, wp_do, wp_ensure, wp_ite]
      refine ⟨fun _ => ⟨fun hplan => ?_, fun _ => ?_⟩, fun _ => trivial⟩
      · have hempty := hadmitted.tally.plan_nil.mp hplan
        exact wp_of_forall fun _ _ => ⟨row, put, _, hadmitted, fun hsome => absurd hempty hsome⟩
      · refine wp_operate (fun n => ⟨fun hblob => ?_, fun _ => trivial⟩) fun _ => trivial
        refine wp_of_forall fun _ _ => wp_of_forall fun _ _ => wp_of_forall fun _ _ => ?_
        exact ⟨row, put, _, hadmitted, fun _ => hblob⟩
    · trivial
  exact wp_ok hwp h

end Taken

/-! ### Batches that fail -/

structure Spared (st st' : Store) : Prop where
  chunks : st'.chunks = st.chunks
  held : ∀ id index content, (st.chunks id).get? index ≠ none →
    content.length ≤ chunkSize + chunkOverhead → st.Holds id index content → st'.Holds id index content

section Failing

variable {setup : Setup} {env later : StoreEnv} {user : String} {st st₁ st₂ : Store} {id : FileId}
  {chunks : List (Nat × Bytes)}

theorem Spared.trans (h : Spared st st₁) (h' : Spared st₁ st₂) : Spared st st₂ := by
  refine ⟨h'.chunks.trans h.chunks, fun id index content hrow hsize hheld => ?_⟩
  have hkept := h.held id index content hrow hsize hheld
  rw [← h.chunks] at hrow
  exact h'.held id index content hrow hsize hkept

theorem spared_of_blobs_eq (hchunks : st₁.chunks = st.chunks) (hblobs : st₁.blobs = st.blobs) : Spared st st₁ :=
  ⟨hchunks, fun _ _ _ _ _ h => h.congr (congrFun hblobs _)⟩

theorem Rewritten.spared {touched : Nat → Prop} (h : Rewritten id touched st st₁)
    (hnew : ∀ index, touched index → (st.chunks id).get? index = none) : Spared st st₁ := by
  refine ⟨h.chunks, fun other index content hrow hsize hheld => h.holds (fun hid htouched => ?_) hsize hheld⟩
  rw [hid] at hrow
  exact hrow (hnew index htouched)

theorem putBatch_spares (hdigest : setup.Hex) :
    wp (putBatch setup user id (.binary chunks)) env st (fun _ _ => True) fun _ st' => Spared st st' := by
  have hsame : Spared st st := spared_of_blobs_eq rfl rfl
  simp only [putBatch, wp_bind]
  refine wp_row (fun row _ _ => ?_) fun _ => hsame
  simp only [fail, wp_ite, wp_do, wp_lift]
  refine ⟨fun _ => hsame, fun _ => ⟨fun _ => hsame, fun _ => ⟨fun _ => hsame, fun _ =>
    ⟨fun put hput => ?_, fun _ _ => hsame⟩⟩⟩⟩
  obtain ⟨native, -, -, htally⟩ := tally_of_checked hdigest hput
  exact wp_mono (wp_writeChunks_rewritten htally.sized) (fun _ _ _ => trivial)
    fun _ st' h => h.spared htally.fresh_keys

theorem NativeOutcome.spared {data : Json} {reply : Option Reply} (h : NativeOutcome env user data st reply st₁)
    (hno : ∀ indices, reply = some (.received indices) → (data.get "op").text? ≠ some "commit") :
    Spared st st₁ := by
  cases h with
  | unchanged n _ => exact spared_of_blobs_eq rfl rfl
  | purged => exact spared_of_blobs_eq rfl rfl
  | prepared _ => exact spared_of_blobs_eq rfl rfl
  | committed n haccepted _ _ => exact absurd haccepted.asked (hno _ rfl)

variable (env st) in
theorem writePlan_spares {row : FileRow} {put : List Nat × Writes} {native : List Descriptor × List Nat}
    (h : Tally setup row (st.chunks id) chunks put native) :
    wp (writePlan id native.2 chunks) env st (fun _ st' => Spared st st') fun _ st' => Spared st st' := by
  have hsame : ∀ n, Spared st { st with operations := n } := fun n => spared_of_blobs_eq rfl rfl
  have hnew : ∀ index ∈ (fresh (st.chunks id) chunks).map Prod.fst, (st.chunks id).get? index = none := by
    intro index hmem
    obtain ⟨chunk, hchunk, rfl⟩ := List.mem_map.mp hmem
    exact of_decide_eq_true (List.mem_filter.mp hchunk).2
  simp only [writePlan, wp_do, wp_ensure, wp_ite]
  refine ⟨fun _ => hsame _, fun _ => wp_operate (fun n => ⟨fun hsome => ?_, fun _ => hsame n⟩) hsame⟩
  rw [h.planned_eq]
  have hdistinct : ((fresh (st.chunks id) chunks).map Prod.fst).Nodup :=
    List.Nodup.sublist (List.filter_sublist.map _) h.distinct
  have hsize : ∀ chunk ∈ fresh (st.chunks id) chunks, chunk.2.length ≤ chunkSize + chunkOverhead :=
    fun chunk hchunk => (h.length chunk (List.mem_filter.mp hchunk).1).trans_le (chunkLength_le row _)
  have hslots := wp_writeSlots_rewritten env id { st with operations := n }
    Prod.fst Prod.snd hdistinct hsize hsome
  refine wp_mono hslots (fun _ st₁ hst₁ => ?_) fun _ st₁ hst₁ => (hsame n).trans (hst₁.spared hnew)
  have hwritten := (hsame n).trans (hst₁.1.spared hnew)
  exact wp_operate (fun k => hwritten.trans (spared_of_blobs_eq rfl rfl))
    fun k => hwritten.trans (spared_of_blobs_eq rfl rfl)

theorem fileOperation_spares (hdigest : setup.Hex) :
    wp (fileOperation setup later user id chunks) env st (fun _ _ => True)
      fun _ st' => Spared st st' := by
  have hprepare : ((nativeRequest setup "prepare" id chunks "").get "op").text? ≠ some "commit" := by
    rw [get_op]
    decide
  simp only [fileOperation, wp_bind, wp_ensure]
  refine ⟨fun hid => ?_, fun _ => spared_of_blobs_eq rfl rfl⟩
  refine wp_mono comes_nativeFileRequest (fun reply st₁ hreply => ?_)
    fun _ st₁ hreply => hreply.spared fun _ h => by cases h
  have hprepared := hreply.spared fun _ _ => hprepare
  split
  · obtain ⟨row, put, native, hadmitted, rfl⟩ := admitted_of_plan hdigest hid hreply
    simp only [wp_bind, wp_ensure]
    refine ⟨fun _ => ?_, fun _ => hprepared⟩
    have hwrite := writePlan_spares env ((st.purged env.monotonic).leased id (leaseFor env row native))
      hadmitted.tally
    refine wp_mono hwrite (fun _ st₂ hst₂ => ?_) fun _ st₂ hst₂ => hprepared.trans hst₂
    change wp (nativeFileRequest user _) later st₂ _ _
    refine wp_mono comes_nativeFileRequest (fun _ _ _ => trivial) fun _ st₃ hst₃ => ?_
    exact (hprepared.trans hst₂).trans (hst₃.spared fun _ h => by cases h)
  · exact hprepared

end Failing

/-! ### Batches that are repeated -/

section Repeating

variable {setup : Setup} {env later : StoreEnv} {user : String} {st st' : Store} {id : FileId}
  {chunks : List (Nat × Bytes)} {row : FileRow} {stored : Dict Nat Digest} {put : List Nat × Writes}
  {native : List Descriptor × List Nat} {now : Nanos}

theorem Tally.complete (hdigest : setup.Hex)
    (h : Tally setup row stored chunks put native) {rest : List (Nat × Bytes)}
    (hdistinct : ((chunks ++ rest).map Prod.fst).Nodup)
    (hlength : ∀ chunk ∈ rest, chunk.2.length = row.chunkLength chunk.1)
    (hrange : ∀ chunk ∈ rest, chunk.1 ≤ row.count - 1)
    (hagree : ∀ chunk ∈ rest, ∀ digest, stored.get? chunk.1 = some digest →
      digest = setup.sha256 chunk.2) :
    ∃ put', rest.foldlM (fun done chunk => addUploaded setup row stored done chunk.1 chunk.2) put =
      .ok put' := by
  induction rest generalizing chunks put native with
  | nil => exact ⟨put, rfl⟩
  | cons chunk rest ih =>
    have hnew : chunk.1 ∉ put.1 := by
      rw [List.map_append, List.map_cons, List.nodup_append] at hdistinct
      rw [h.seen]
      exact fun hmem => hdistinct.2.2 _ hmem _ (.head _) rfl
    have hcounted : ∃ put', addUploaded setup row stored put chunk.1 chunk.2 = .ok put' := by
      rw [addUploaded_eq h.get?_of_not_seen, if_neg (not_lt.mpr (hrange chunk (.head _))),
        if_neg (not_or.mpr ⟨hnew, not_not_intro (hlength chunk (.head _))⟩), fate]
      cases hstored : stored.get? chunk.1 with
      | none => exact ⟨_, rfl⟩
      | some existing =>
        dsimp only
        rw [if_pos (hagree chunk (.head _) existing hstored)]
        exact ⟨_, rfl⟩
    rcases h.step hdigest chunk with ⟨error, hput, -⟩ | ⟨put', native', hput, -, hnext⟩
    · obtain ⟨put', hok⟩ := hcounted
      rw [hput] at hok
      cases hok
    · rw [List.foldlM_cons, hput]
      refine ih hnext ?_ (fun other hmem => hlength other (.tail _ hmem))
        (fun other hmem => hrange other (.tail _ hmem))
        fun other hmem => hagree other (.tail _ hmem)
      rwa [List.append_assoc]

theorem Tally.get?_addTo (h : Tally setup row stored chunks put native) {chunk : Nat × Bytes}
    (hmem : chunk ∈ chunks) : (put.2.addTo stored).get? chunk.1 = some (setup.sha256 chunk.2) := by
  rw [Writes.get?_addTo]
  cases hstored : stored.get? chunk.1 with
  | none =>
    have hentry : entry setup chunk ∈ put.2.entries := by
      rw [h.entries]
      exact List.mem_map_of_mem (List.mem_filter.mpr ⟨hmem, decide_eq_true hstored⟩)
    rw [(put.2.mem_entries_iff _ _).mp hentry]
    rfl
  | some digest =>
    have hnone : put.2.get? chunk.1 = none := by
      by_contra hsome
      have hnew := h.fresh_keys chunk.1 ((put.2.mem_keys_iff _).mpr (Option.ne_none_iff_exists'.mp hsome))
      rw [hstored] at hnew
      cases hnew
    rw [hnone, h.agree chunk hmem digest hstored]
    rfl

theorem Writes.eq_empty {writes : Writes} (h : writes.entries = []) : writes = ∅ := by
  obtain ⟨entries, hnodup⟩ := writes
  subst h
  rfl

theorem Admitted.again (hdigest : setup.Hex)
    (h : Admitted setup now user st id chunks row put native) (hlive : row.lapsed env.now = false)
    (hfiles : st'.files = st.files) (hchunks : st'.chunks id = put.2.addTo (st.chunks id)) :
    ∃ put' native', Admitted setup env.now user st' id chunks row put' native' ∧ put'.2 = ∅ := by
  have hstored : ∀ chunk ∈ chunks, (st'.chunks id).get? chunk.1 = some (setup.sha256 chunk.2) := by
    intro chunk hmem
    rw [hchunks]
    exact h.tally.get?_addTo hmem
  have hsmall : ¬(chunks = [] ∨ batchChunks < chunks.length) := by
    intro hbad
    have hchecked := h.checked
    rw [checkUpload, if_pos hbad] at hchecked
    cases hchecked
  have hagree : ∀ chunk ∈ chunks, ∀ digest, (st'.chunks id).get? chunk.1 = some digest →
      digest = setup.sha256 chunk.2 := by
    intro chunk hmem digest hsome
    rw [hstored chunk hmem] at hsome
    exact (Option.some.inj hsome).symm
  obtain ⟨put', hput'⟩ := (tally_nil setup row (st'.chunks id)).complete hdigest
    h.tally.distinct h.tally.length h.tally.range hagree
  have hput : checkUpload setup row (st'.chunks id) (.binary chunks) = .ok put' := by
    rw [checkUpload, if_neg hsmall, hput']
  obtain ⟨native', hnative, hnonempty, htally⟩ := tally_of_checked hdigest hput
  refine ⟨put', native', ⟨h.pattern, ⟨?_, h.uploads.owner, h.uploads.state, hlive⟩, hnonempty, hput,
    hnative, htally⟩, ?_⟩
  · rw [hfiles]
    exact h.uploads.stored
  · have hnothing : put'.2.entries = [] := by
      rw [htally.entries, List.map_eq_nil_iff, fresh, List.filter_eq_nil_iff]
      intro chunk hmem hnone
      rw [hstored chunk hmem] at hnone
      cases of_decide_eq_true hnone
    exact Writes.eq_empty hnothing

end Repeating

/-- Nothing comes between the steps of an upload: no operation fails, the file does not expire, the
lease is still good, and there is room for it. -/
structure Unhindered (env later : StoreEnv) (st : Store) (id : FileId) : Prop where
  faultless : env.Faultless
  faultlessLater : later.Faultless
  token : env.token.utf8ByteSize = 32
  soon : later.monotonic < env.monotonic + seconds 120
  live : ∀ row, st.files.get? id = some row → row.lapsed env.now = false → row.lapsed later.now = false
  roomy : Roomy env st id

structure Store.Alike (st st' : Store) : Prop where
  files : st'.files = st.files
  chunks : st'.chunks = st.chunks
  blobs : st'.blobs = st.blobs

section Both

variable {setup : Setup} {env later : StoreEnv} {user : String} {st st' : Store} {id : FileId}
  {chunks : List (Nat × Bytes)}

/-- An upload by either side. -/
def Uploaded (setup : Setup) (env later : StoreEnv) (user : String) (id : FileId)
    (chunks : List (Nat × Bytes)) (st : Store) (reply : Reply) (st' : Store) : Prop :=
  putBatch setup user id (.binary chunks) env st = (.ok reply, st') ∨
    fileOperation setup later user id chunks env st = (.ok reply, st')

theorem Uploaded.admitted (hdigest : setup.Hex)
    (hfree : Unhindered env later st id) {reply : Reply}
    (h : Uploaded setup env later user id chunks st reply st') :
    ∃ row put native n, Admitted setup env.now user st id chunks row put native ∧ Writable st id put.2 ∧
      reply = .received ((chunks.map Prod.fst).insertionSort (· ≤ ·)) ∧
      (st.withWrites id put.2 n).Alike st' := by
  rcases h with h | h
  · obtain ⟨row, put, native, hadmitted, hblob⟩ := admitted_of_putBatch hdigest h
    obtain ⟨n, hrun⟩ := putBatch_admitted hfree.faultless hadmitted hblob
    rw [hrun] at h
    cases h
    exact ⟨row, put, native, n, hadmitted, hblob, rfl, rfl, rfl, rfl⟩
  · obtain ⟨row, put, native, hadmitted, hblob⟩ := admitted_of_fileOperation hdigest h
    obtain ⟨n, hrun⟩ := fileOperation_admitted hfree.faultless hfree.faultlessLater hadmitted hblob
      hfree.roomy hfree.token hfree.soon (hfree.live row hadmitted.uploads.stored hadmitted.uploads.live)
    rw [hrun] at h
    cases h
    exact ⟨row, put, native, n, hadmitted, hblob, rfl, rfl, rfl, rfl⟩

theorem Admitted.uploaded {row : FileRow} {put : List Nat × Writes} {native : List Descriptor × List Nat}
    (hfree : Unhindered env later st id) (h : Admitted setup env.now user st id chunks row put native)
    (hblob : Writable st id put.2) :
    ∃ n st₁ st₂, putBatch setup user id (.binary chunks) env st =
        (.ok (.received ((chunks.map Prod.fst).insertionSort (· ≤ ·))), st₁) ∧
      fileOperation setup later user id chunks env st =
        (.ok (.received ((chunks.map Prod.fst).insertionSort (· ≤ ·))), st₂) ∧
      (st.withWrites id put.2 n).Alike st₁ ∧ (st.withWrites id put.2 n).Alike st₂ := by
  obtain ⟨n, hput⟩ := putBatch_admitted hfree.faultless h hblob
  obtain ⟨m, hnative⟩ := fileOperation_admitted hfree.faultless hfree.faultlessLater h hblob
    hfree.roomy hfree.token hfree.soon (hfree.live row h.uploads.stored h.uploads.live)
  exact ⟨n, _, _, hput, hnative, ⟨rfl, rfl, rfl⟩, ⟨rfl, rfl, rfl⟩⟩

/-- The native transport implements `put_batch`. Both take the same batches, with the same reply, and
leave the same tables and blobs; a batch that fails, at whatever operation, leaves every row and every
chunk that has a row; and a batch that has been taken is taken again and changes nothing. -/
theorem native_upload_implements_put_batch
    (hdigest : ∀ data, digestPattern (setup.sha256 data) = true) (user : String) (st : Store) (id : FileId)
    (chunks : List (Nat × Bytes)) :
    (∀ env later, Unhindered env later st id →
      (∀ reply, (∃ st', putBatch setup user id (.binary chunks) env st = (.ok reply, st')) ↔
        ∃ st', fileOperation setup later user id chunks env st = (.ok reply, st')) ∧
      ∀ reply reply' st₁ st₂, putBatch setup user id (.binary chunks) env st = (.ok reply, st₁) →
        fileOperation setup later user id chunks env st = (.ok reply', st₂) → st₁.Alike st₂) ∧
    (∀ env error st', putBatch setup user id (.binary chunks) env st = (.error error, st') →
      Spared st st') ∧
    (∀ env later error st', fileOperation setup later user id chunks env st = (.error error, st') →
      Spared st st') ∧
    ∀ env later reply st', Unhindered env later st id →
      Uploaded setup env later user id chunks st reply st' →
      ∀ again after, Unhindered again after st' id →
        (∀ row, st.files.get? id = some row → row.lapsed env.now = false → row.lapsed again.now = false) →
        (∃ st₁, putBatch setup user id (.binary chunks) again st' = (.ok reply, st₁) ∧ st'.Alike st₁) ∧
        ∃ st₂, fileOperation setup after user id chunks again st' = (.ok reply, st₂) ∧ st'.Alike st₂ := by
  refine ⟨fun env later hfree => ⟨fun reply => ⟨?_, ?_⟩, ?_⟩, ?_, ?_, ?_⟩
  · rintro ⟨st', hput⟩
    obtain ⟨row, put, native, n, hadmitted, hblob, rfl, -⟩ :=
      Uploaded.admitted hdigest hfree (.inl hput)
    obtain ⟨_, _, st₂, -, hnative, -⟩ := hadmitted.uploaded hfree hblob
    exact ⟨st₂, hnative⟩
  · rintro ⟨st', hnative⟩
    obtain ⟨row, put, native, n, hadmitted, hblob, rfl, -⟩ := Uploaded.admitted hdigest hfree (.inr hnative)
    obtain ⟨_, st₁, _, hput, -⟩ := hadmitted.uploaded hfree hblob
    exact ⟨st₁, hput⟩
  · intro reply reply' st₁ st₂ hput hnative
    obtain ⟨row, put, native, n, hadmitted, hblob, -⟩ :=
      Uploaded.admitted hdigest hfree (.inl hput)
    obtain ⟨_, _, _, hput', hnative', hfirst, hsecond⟩ := hadmitted.uploaded hfree hblob
    rw [hput] at hput'
    cases hput'
    rw [hnative] at hnative'
    cases hnative'
    exact ⟨hsecond.files.trans hfirst.files.symm, hsecond.chunks.trans hfirst.chunks.symm,
      hsecond.blobs.trans hfirst.blobs.symm⟩
  · intro env error st' h
    have hspares : wp (putBatch setup user id (.binary chunks)) env st (fun _ _ => True)
        fun _ st' => Spared st st' := putBatch_spares hdigest
    have hspared := wp_error hspares h
    exact hspared
  · intro env later error st' h
    have hspares : wp (fileOperation setup later user id chunks) env st (fun _ _ => True)
        fun _ st' => Spared st st' := fileOperation_spares hdigest
    have hspared := wp_error hspares h
    exact hspared
  · intro env later reply st' hfree huploaded again after hagain hlive
    obtain ⟨row, put, native, n, hadmitted, hblob, rfl, halike⟩ := huploaded.admitted hdigest hfree
    have hchunks : st'.chunks id = put.2.addTo (st.chunks id) := by
      rw [halike.chunks]
      exact update_self ..
    obtain ⟨put', native', hadmitted', hnothing⟩ := hadmitted.again hdigest
      (hlive row hadmitted.uploads.stored hadmitted.uploads.live) halike.files hchunks
    have hblob' : Writable st' id put'.2 := by
      rw [hnothing]
      exact fun hsome => absurd rfl hsome
    obtain ⟨m, st₁, st₂, hput, hnative, hfirst, hsecond⟩ := hadmitted'.uploaded hagain hblob'
    rw [hnothing, withWrites_nothing] at hfirst hsecond
    exact ⟨⟨st₁, hput, hfirst.files, hfirst.chunks, hfirst.blobs⟩,
      ⟨st₂, hnative, hsecond.files, hsecond.chunks, hsecond.blobs⟩⟩

end Both

namespace Sample

/-- SHA-256 of the chunk of the upload, and of no bytes. -/
def uploadSetup : Setup where
  sha256 data :=
    if data = List.replicate 29 7 then "d1267d3b6f40c79e2c689be17c3f0f0081e3e87e8c3660641d5138d87b75d5b4"
    else "e3b0c44298fc1c149afbf4c8996fb92427ae41e4649b934ca495991b7852b855"

theorem uploadSetup_digest (data : Bytes) : digestPattern (uploadSetup.sha256 data) = true := by
  dsimp only [uploadSetup]
  split_ifs
  · decide +kernel
  · decide +kernel

def uploadId : FileId := "00112233445566778899aabbccddeeff"

def uploadable : Store where
  files := (∅ : FileTable).set uploadId ⟨"alice", 1, 100, 0, .uploading, "", ""⟩
  blobs := update (fun _ => none) uploadId (some {})

def uploadEnv : StoreEnv := ⟨seconds 1, 0, "0123456789abcdef0123456789abcdef", fun _ => true, fun _ => 0⟩

end Sample

open Sample in
theorem native_upload_implements_put_batch_byte :
    Unhindered uploadEnv uploadEnv uploadable uploadId ∧
      ∃ st', fileOperation uploadSetup uploadEnv "alice" uploadId [(0, List.replicate 29 7)] uploadEnv uploadable =
        (.ok (.received [0]), st') := by
  have hfree : Unhindered uploadEnv uploadEnv uploadable uploadId :=
    ⟨fun _ => rfl, fun _ => rfl, by decide +kernel, by decide +kernel, fun _ _ h => h, fun _ => by decide +kernel⟩
  obtain ⟨hsame, -⟩ := native_upload_implements_put_batch uploadSetup_digest "alice" uploadable uploadId
    [(0, List.replicate 29 7)]
  exact ⟨hfree, ((hsame _ _ hfree).1 _).mp ⟨_, by rfl⟩⟩

end CallBackend.Files
