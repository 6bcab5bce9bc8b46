import CallBackend.Files.Types

/-!
# The file store

The functions of `FileStore` and `native_file_request`, each as the code computes it while it holds
its locks. `transaction` is `with self.db`: what it raises takes the tables back to where they were,
but neither the blobs nor the leases.

`request` serves a message of an application; in production its bulk operations come as binary
batches or, for a native upload, as `native_file_request`. Concurrent `put` requests for one file are
collected and flushed as a batch. `cleanup` lists what has expired, and then goes through the list one
file at a time, first removing the blob, then the rows.
-/

namespace CallBackend.Files

open Exec Function

/-! ### Disk and database operations -/

/-- One operation on the disk or the database. -/
def operate (error : StoreExn) : StoreM Unit := do
  let st ← get
  modify fun st => { st with operations := st.operations + 1 }
  ensure ((← ask).succeeds st.operations) error

/-- The tables as they were. -/
def Store.rolledBack (st before : Store) : Store :=
  { st with files := before.files, chunks := before.chunks }

/-- `with self.db`. -/
def transaction {α : Type} (m : StoreM α) : StoreM α := do
  let before ← get
  rescue (do
    let result ← m
    operate .databaseError
    return result) fun error => do
      modify (·.rolledBack before)
      raise error

def setRow (id : FileId) (row : FileRow) : StoreM Unit := do
  operate .databaseError
  modify fun st => { st with files := st.files.set id row }

def deleteRow (id : FileId) : StoreM Unit := do
  operate .databaseError
  modify fun st => { st with files := st.files.erase id }

def deleteChunks (id : FileId) : StoreM Unit := do
  operate .databaseError
  modify fun st => { st with chunks := update st.chunks id ∅ }

/-- `INSERT INTO chunks`; the key must be new. -/
def insertChunk (id : FileId) (index : Nat) (digest : Digest) : StoreM Unit := do
  operate .databaseError
  ensure (((← get).chunks id).get? index = none) .databaseError
  modify fun st => { st with chunks := update st.chunks id ((st.chunks id).set index digest) }

/-- `native_writes.pop(file_id, None)`. -/
def dropLease (id : FileId) : StoreM Unit :=
  modify fun st => { st with nativeWrites := st.nativeWrites.erase id }

/-- `unlink(missing_ok=True)`. -/
def unlink (id : FileId) : StoreM Unit := do
  operate .osError
  modify fun st => { st with blobs := update st.blobs id none }

/-- What the n-th operation makes of a blob if it is a write. -/
def StoreEnv.written (env : StoreEnv) (n index : Nat) (chunk : Bytes) (blob : Blob) : Blob :=
  if env.succeeds n then blob.write (slot index) chunk
  else if chunk.take (env.torn n) = [] then blob
  else blob.write (slot index) (chunk.take (env.torn n))

/-- Writes a chunk to a blob that is open. -/
def writeSlot (id : FileId) (index : Nat) (chunk : Bytes) : StoreM Unit := do
  let env ← ask
  modify fun st => { st with
    blobs := update st.blobs id ((st.blobs id).map (env.written st.operations index chunk)) }
  operate .osError

/-! ### Checks -/

def fail {α : Type} (error : FileError) : StoreM α := raise (.file error)

/-- `integer`; a boolean is not an integer. -/
def integer (value : Json) (low high : Nat) : Except StoreExn Nat :=
  match value with
  | .int n => if (low : Int) ≤ n ∧ n ≤ high then .ok n.toNat else .error (.file .invalidRequest)
  | _ => .error (.file .invalidRequest)

/-- `encoded`: the bytes of a base64 text in the strict mode as it is documented. CPython also takes
superfluous `=` after a full group. -/
def encoded (value : Json) (maximum : Nat) : Except StoreExn Bytes :=
  match value with
  | .str text =>
    if maximum * 2 < text.toList.length then .error (.file .invalidRequest)
    else match Base64.decodeExact text with
      | some raw =>
        if raw = [] ∨ maximum < raw.length then .error (.file .invalidRequest) else .ok raw
      | none => .error (.file .invalidRequest)
  | _ => .error (.file .invalidRequest)

/-- A file id, if the value is one. -/
def fileId? (value : Json) : Option FileId :=
  match value with
  | .str text => if idPattern text then some text else none
  | _ => none

def row (id : FileId) : StoreM FileRow := do
  ensure (idPattern id) (.file .notAvailable)
  match (← get).files.get? id with
  | some row => if row.state = .deleted then fail .notAvailable else return row
  | none => fail .notAvailable

/-! ### Writing chunks -/

/-- The chunks a batch is to write, by index. -/
abbrev Writes : Type := Dict Nat (Bytes × Digest)

def writeChunks (id : FileId) (writes : Writes) : StoreM Unit := do
  if writes.entries = [] then return
  operate .osError
  ensure (((← get).blobs id).isSome) .osError
  forEach (fun entry => writeSlot id entry.1 entry.2.1)
    (writes.entries.insertionSort fun a b => a.1 ≤ b.1)
  operate .osError
  transaction (forEach (fun entry => insertChunk id entry.1 entry.2.2) writes.entries)

/-- Adds a chunk to a batch. A chunk that is there already must be the same. -/
def addChunk (stored : Dict Nat Digest) (writes : Writes) (index : Nat) (chunk : Bytes)
    (digest : Digest) : Except StoreExn Writes :=
  match ((writes.get? index).map Prod.snd).or (stored.get? index) with
  | none => .ok (writes.set index (chunk, digest))
  | some previous => if previous = digest then .ok writes else .error (.file .chunkConflict)

/-- A `put` that waits for its batch, with the time it is looked at. -/
structure PendingPut where
  user : String
  data : Json
  now : Nanos

/-- What `flush_batch` checks of one request before it looks the chunk up. -/
def PendingPut.fields (row : FileRow) (put : PendingPut) : Except StoreExn (Nat × Bytes) := do
  if row.owner ≠ put.user then throw (.file .accessDenied)
  if row.lapsed put.now then throw (.file .expired)
  if row.state ≠ .uploading then throw (.file .uploadClosed)
  let index ← integer (put.data.get "index") 0 (row.count - 1)
  let chunk ← encoded (put.data.get "chunk") (chunkSize + chunkOverhead)
  if chunk.length ≠ row.chunkLength index then throw (.file .invalidChunk)
  return (index, chunk)

def PendingPut.check (setup : Setup) (row : FileRow) (stored : Dict Nat Digest) (writes : Writes)
    (put : PendingPut) : Except StoreExn Writes := do
  let found ← put.fields row
  addChunk stored writes found.1 found.2 (setup.sha256 found.2)

/-- The loop of `flush_batch`: what is to be written, and the verdict on each request. -/
def checkBatch (setup : Setup) (row : FileRow) (stored : Dict Nat Digest) :
    Writes → List PendingPut → Writes × List (Except StoreExn Unit)
  | writes, [] => (writes, [])
  | writes, put :: rest =>
    match put.check setup row stored writes with
    | .ok writes' =>
      let result := checkBatch setup row stored writes' rest
      (result.1, .ok () :: result.2)
    | .error error =>
      let result := checkBatch setup row stored writes rest
      (result.1, .error error :: result.2)

def settle (error : StoreExn) (verdict : Except StoreExn Unit) : Except StoreExn Unit :=
  match verdict with
  | .ok () => .error error
  | .error own => .error own

/-- The leader's part of `put`, with `flush_batch`: the outcome of each request of the batch. -/
def flushBatch (setup : Setup) (id : FileId) (batch : List PendingPut) :
    StoreM (List (Except StoreExn Unit)) :=
  rescue (do
    let row ← Files.row id
    let result := checkBatch setup row ((← get).chunks id) ∅ batch
    rescue (do
      writeChunks id result.1
      return result.2) fun error => return result.2.map (settle error))
    fun error => return batch.map fun _ => .error error

/-- What `put_batch` is given: the value of a JSON request, or the chunks of a binary one. -/
inductive Upload where
  | json (value : Json)
  | binary (chunks : List (Nat × Bytes))

/-- `index, chunk = item`, for the index; a JSON value is never `bytes`. -/
def unpack (item : Json) : Except StoreExn Json :=
  match item with
  | .arr [index, _] => .ok index
  | .str text => if text.toList.length = 2 then .ok (.str (text.take 1).toString) else .error .malformed
  | .obj [(name, _), _] => .ok (.str name)
  | _ => .error .malformed

/-- One round of the loop in `put_batch`. -/
def addUploaded (setup : Setup) (row : FileRow) (stored : Dict Nat Digest)
    (done : List Nat × Writes) (index : Nat) (chunk : Bytes) : Except StoreExn (List Nat × Writes) := do
  let index ← integer (.int index) 0 (row.count - 1)
  if index ∈ done.1 ∨ chunk.length ≠ row.chunkLength index then throw (.file .invalidChunk)
  return (done.1 ++ [index], ← addChunk stored done.2 index chunk (setup.sha256 chunk))

/-- The loop of `put_batch`. The first item of a JSON list ends it. -/
def checkUpload (setup : Setup) (row : FileRow) (stored : Dict Nat Digest) :
    Upload → Except StoreExn (List Nat × Writes)
  | .json (.arr items) =>
    if items = [] ∨ batchChunks < items.length then .error (.file .invalidRequest)
    else match items with
      | item :: _ => do
        let _ ← integer (← unpack item) 0 (row.count - 1)
        throw (.file .invalidChunk)
      | [] => .error (.file .invalidRequest)
  | .json _ => .error (.file .invalidRequest)
  | .binary chunks =>
    if chunks = [] ∨ batchChunks < chunks.length then .error (.file .invalidRequest)
    else chunks.foldlM (fun done entry => addUploaded setup row stored done entry.1 entry.2) ([], ∅)

def putBatch (setup : Setup) (user : String) (id : FileId) (upload : Upload) : StoreM Reply := do
  let row ← Files.row id
  if row.owner ≠ user then fail .accessDenied
  if seconds row.expires ≤ (← ask).now then fail .expired
  if row.state ≠ .uploading then fail .uploadClosed
  let result ← lift (checkUpload setup row ((← get).chunks id) upload)
  writeChunks id result.2
  return .received (result.1.insertionSort (· ≤ ·))

/-! ### Requests of applications -/

def total (files : FileTable) (counts : FileRow → Bool) : Nat :=
  ((files.values.filter counts).map FileRow.size).sum

def number (files : FileTable) (counts : FileRow → Bool) : Nat := (files.values.filter counts).length

/-- The row of a file that does not exist yet. -/
structure NewFile where
  id : FileId
  size : Nat
  ttl : Nat
  envelope : String
  manifest : String

def NewFile.parse (data : Json) : Except StoreExn NewFile :=
  match fileId? (data.get "id") with
  | none => .error (.file .invalidRequest)
  | some id => do
    let size ← integer (data.get "size") 0 maxFileSize
    let ttl ← integer (data.get "ttl") 60 maxExpiry
    if (data.find? "access").isSome then throw (.file .fileAccessModelChanged)
    let _ ← encoded (data.get "envelope") 4096
    let _ ← encoded (data.get "manifest") 2048
    return ⟨id, size, ttl, ((data.get "envelope").text?).getD "", ((data.get "manifest").text?).getD ""⟩

def checkQuotas (user : String) (size : Nat) : StoreM Unit := do
  let files := (← get).files
  let now := (← ask).clock
  if maxActiveFilesPerOwner ≤
      number files fun row => row.owner = user && row.active && now < row.expires then
    fail .activeFileLimit
  if maxFiles ≤ number files FileRow.active ∨
      maxFilesPerOwner ≤ number files (fun row => row.owner = user && row.state ≠ .deleted) ∨
      globalQuota < total files FileRow.active + size ∨
      ownerQuota < total files (fun row => row.owner = user && row.active) + size then
    fail .storageFull

/-- `open('xb')` and the `fsync` of the directory. -/
def createBlob (id : FileId) : StoreM Unit := do
  operate .osError
  ensure ((← get).blobs id = none) .osError
  modify fun st => { st with blobs := update st.blobs id (some {}) }
  operate .osError

def create (user : String) (data : Json) : StoreM Reply := do
  let file ← lift (NewFile.parse data)
  transaction (do
    if ((← get).files.get? file.id).isSome then do
      let row ← Files.row file.id
      if row.owner ≠ user ∨ row.envelope ≠ file.envelope then fail .uploadConflict
      return .described file.id row true
    checkQuotas user file.size
    dropLease file.id
    createBlob file.id
    let now := (← ask).clock
    setRow file.id ⟨user, file.size, now + file.ttl, now, .uploading, file.envelope, file.manifest⟩
    return .described file.id (← Files.row file.id) true)

/-- The rows of a user, the newest first. -/
def listFiles (user : String) (data : Json) : StoreM Reply := do
  let offset ← lift (integer ((data.find? "offset").getD (.int 0)) 0 1000)
  let expired ← match (data.find? "expired").getD (.bool false) with
    | .bool expired => pure expired
    | _ => fail .invalidRequest
  let now := (← ask).clock
  let rows := (← get).files.entries.filter fun entry =>
    entry.2.owner = user && entry.2.state ≠ .deleted &&
      if expired then decide (entry.2.expires ≤ now) else decide (now < entry.2.expires)
  let sorted := rows.insertionSort fun a b =>
    b.2.created < a.2.created ∨ (a.2.created = b.2.created ∧ a.1 ≤ b.1)
  return .listing ((sorted.drop offset).take 5)

def deleteFile (id : FileId) (row : FileRow) : StoreM Reply := do
  dropLease id
  setRow id { row with state := .deleted }
  unlink id
  deleteChunks id
  return .done

/-- The indices of the chunks that are there, a page at a time. -/
def statusPage (indices : List Nat) : Reply :=
  .status (indices.take 4096) (if 4096 < indices.length then (indices[4095]?).map (· + 1) else none)

def status (id : FileId) (row : FileRow) (data : Json) : StoreM Reply := do
  let start ← lift (integer ((data.find? "start").getD (.int 0)) 0 row.count)
  let indices := ((← get).chunks id).keys.filter fun index => decide (start ≤ index)
  return statusPage ((indices.insertionSort (· ≤ ·)).take 4097)

def finish (id : FileId) (row : FileRow) : StoreM Reply := do
  if ((← get).chunks id).size ≠ row.count then fail .uploadIncomplete
  setRow id { row with state := .ready }
  return .done

inductive Step where
  | reply (reply : Reply)
  | read (index length : Nat)

/-- The transaction of `_request`. -/
def operation (id : FileId) (op : Option String) (data : Json) : StoreM Step := do
  let row ← Files.row id
  if op = some "delete" then return .reply (← deleteFile id row)
  if row.lapsed (← ask).now then fail .expired
  if op = some "status" then return .reply (← status id row data)
  if op = some "finish" then return .reply (← finish id row)
  if op = some "info" then
    if row.state ≠ .ready then fail .uploadIncomplete
    return .reply (.described id row false)
  let index ← lift (integer (data.get "index") 0 (row.count - 1))
  if op = some "get" then
    if row.state ≠ .ready then fail .uploadIncomplete
    return .read index (row.chunkLength index)
  fail .invalidRequest

/-- `_request` for a file that exists. -/
def fileRequest (user : String) (id : FileId) (data : Json) : StoreM Reply := do
  let op := (data.get "op").text?
  let initial ← Files.row id
  if op ≠ some "info" ∧ op ≠ some "get" ∧ initial.owner ≠ user then fail .accessDenied
  if op = some "access" then fail .fileAccessModelChanged
  match ← transaction (operation id op data) with
  | .reply reply => return reply
  | .read index length => do
    operate .osError
    match (← get).blobs id with
    | none => raise .osError
    | some blob =>
      let chunk := blob.read (slot index) length
      if chunk.length ≠ length then fail .fileDamaged
      return .chunk chunk

inductive Route where
  | capabilities
  | list
  | put (id : FileId)
  | putBatch (id : FileId)
  | create
  | file (id : FileId)
  deriving DecidableEq

def route (data : Json) : Except StoreExn Route :=
  let op := (data.get "op").text?
  if op = some "capabilities" then .ok .capabilities
  else if op = some "list" then .ok .list
  else match fileId? (data.get "id") with
    | none => .error (.file (if op = some "create" then .invalidRequest else .notAvailable))
    | some id =>
      if op = some "put" then .ok (.put id)
      else if op = some "put_batch" then .ok (.putBatch id)
      else if op = some "create" then .ok .create
      else .ok (.file id)

/-- `request`. A `put` that is alone is a batch of one. -/
def request (setup : Setup) (user : String) (data : Json) : StoreM Reply := do
  match ← lift (route data) with
  | .capabilities => return .capabilities
  | .list => listFiles user data
  | .put id => do
    let outcomes ← flushBatch setup id [⟨user, data, (← ask).now⟩]
    forEach lift outcomes
    return .done
  | .putBatch id => putBatch setup user id (.json (data.get "chunks"))
  | .create => create user data
  | .file id => fileRequest user id data

/-! ### Native uploads -/

/-- `chunk.get('length') != length`, as Python compares numbers. -/
def isNumber (value : Json) (n : Nat) : Bool :=
  match value with
  | .int m => m = n
  | .float q => q = n
  | .bool b => b.toNat = n
  | _ => false

/-- One round of the loop in `native_file_request`. -/
def addDescriptor (row : FileRow) (stored : Dict Nat Digest) (done : List Descriptor × List Nat)
    (chunk : Json) : Except StoreExn (List Descriptor × List Nat) := do
  let .obj _ := chunk | throw .malformed
  let index ← integer (chunk.get "index") 0 (row.count - 1)
  let length := row.chunkLength index
  match chunk.get "digest" with
  | .str digest =>
    if index ∈ done.1.map Descriptor.index ∨ !isNumber (chunk.get "length") length ∨
        !digestPattern digest then
      throw (.file .invalidChunk)
    match stored.get? index with
    | some existing =>
      if existing ≠ digest then throw (.file .chunkConflict)
      return (done.1 ++ [⟨index, length, digest⟩], done.2)
    | none => return (done.1 ++ [⟨index, length, digest⟩], done.2 ++ [index])
  | _ => throw (.file .invalidChunk)

/-- The chunks of a request, and the indices of those that are new. -/
def parseDescriptors (row : FileRow) (stored : Dict Nat Digest) (value : Json) :
    Except StoreExn (List Descriptor × List Nat) :=
  match value with
  | .arr items =>
    if items = [] ∨ batchChunks < items.length then .error (.file .invalidRequest)
    else items.foldlM (addDescriptor row stored) ([], [])
  | _ => .error (.file .invalidRequest)

def FileRow.binding (row : FileRow) (chunks : List Descriptor) : Binding :=
  ⟨row.owner, row.created, row.envelope, row.size, chunks⟩

def Binding.indices (binding : Binding) : List Nat :=
  (binding.chunks.map Descriptor.index).insertionSort (· ≤ ·)

/-- The lease still admits a commit. -/
def Lease.admits (lease : Lease) (token : Json) (now : Nanos) (binding : Binding) : Bool :=
  token.text? = some lease.token && decide (now < lease.deadline) && lease.binding = binding

def commit (id : FileId) (binding : Binding) (new : List Nat) (token : Json) : StoreM Reply := do
  let now := (← ask).monotonic
  let lease ← require ((← get).nativeWrites.get? id) (.file .busy)
  ensure (lease.admits token now binding) (.file .busy)
  transaction (forEach (fun chunk => insertChunk id chunk.index chunk.digest)
    (binding.chunks.filter fun chunk => chunk.index ∈ new))
  dropLease id
  return .received binding.indices

def prepare (id : FileId) (binding : Binding) (new : List Nat) : StoreM Reply := do
  let env ← ask
  modify fun st => { st with
    nativeWrites := st.nativeWrites.filter fun _ lease => decide (env.monotonic < lease.deadline) }
  let st ← get
  if st.nativeWrites.get? id = none ∧ maxLeases ≤ st.nativeWrites.size then fail .busy
  modify fun st => { st with
    nativeWrites := st.nativeWrites.set id ⟨env.token, env.monotonic + seconds 120, binding⟩ }
  return .plan new binding.indices env.token

def readIndices (op : Option String) (data : Json) : Json :=
  if op = some "read" then .arr [data.get "index"] else data.get "indices"

def read (row : FileRow) (op : Option String) (data : Json) : StoreM Reply := do
  if row.state ≠ .ready then fail .uploadIncomplete
  match readIndices op data with
  | .arr items => do
    if items = [] ∨ batchChunks < items.length then fail .invalidRequest
    let indices ← lift (items.mapM fun index => integer index 0 (row.count - 1))
    if ¬indices.Nodup then fail .invalidRequest
    let lengths := indices.map row.chunkLength
    if op = some "read" then return .length (lengths.headD 0) else return .lengths indices lengths
  | _ => fail .invalidRequest

def nativeFileRequest (user : String) (data : Json) : StoreM Reply := do
  let op := (data.get "op").text?
  let id ← require (fileId? (data.get "id")) (.file .notAvailable)
  let row ← Files.row id
  if row.lapsed (← ask).now then fail .expired
  if op = some "read" ∨ op = some "read_batch" then read row op data
  else if op ≠ some "prepare" ∧ op ≠ some "commit" then fail .invalidRequest
  else do
    if row.owner ≠ user then fail .accessDenied
    if row.state ≠ .uploading then fail .uploadClosed
    let chunks ← lift (parseDescriptors row ((← get).chunks id) (data.get "chunks"))
    if op = some "commit" then commit id (row.binding chunks.1) chunks.2 (data.get "lease")
    else prepare id (row.binding chunks.1) chunks.2

/-! ### Cleaning up -/

/-- The rows `cleanup` goes through, with the time it has read. -/
def Store.stale (st : Store) (now : Nat) : List FileId :=
  (st.files.entries.filter fun entry =>
    decide (entry.2.expires ≤ now) || entry.2.state = .expired || entry.2.state = .deleted).map Prod.fst

/-- The row is old enough to be forgotten. -/
def FileRow.forgotten (row : FileRow) (now : Nat) : Bool :=
  row.state = .deleted || decide (row.expires + 7 * 86400 < now)

/-- `UPDATE files SET state='expired'`, unless the file is deleted. -/
def expireRow (id : FileId) : StoreM Unit := do
  match (← get).files.get? id with
  | some row => if row.state ≠ .deleted then setRow id { row with state := .expired }
  | none => pure ()

/-- `DELETE FROM files`, if the row is old enough. -/
def forgetRow (id : FileId) (now : Nat) : StoreM Unit := do
  match (← get).files.get? id with
  | some row => if row.forgotten now then deleteRow id
  | none => pure ()

/-- The transaction of `cleanup` for one file. -/
def sweepRows (id : FileId) (now : Nat) : StoreM Unit :=
  transaction (do
    dropLease id
    expireRow id
    deleteChunks id
    forgetRow id now)

def sweep (id : FileId) (now : Nat) : StoreM Unit := do
  unlink id
  sweepRows id now

/-- The removal of a blob without a row. -/
def removeOrphan (id : FileId) : StoreM Unit := do
  if (← get).files.get? id = none then unlink id

end CallBackend.Files
