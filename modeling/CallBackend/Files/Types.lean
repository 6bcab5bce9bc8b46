import CallBackend.Basic
import CallBackend.Lib.Blob
import Mathlib.Data.List.Sort

/-!
# The file store: its tables, blobs and leases

`FileStore` keeps two tables in SQLite, one blob for each file, and in memory the leases of native
uploads. A row of `files` is keyed by the file id; a row of `chunks` by the file id and the index.
Sizes, indices and times in the tables are not negative.

Every disk or database operation that changes something can fail by itself, and a write that fails
may leave a part behind. Reads do not fail.
-/

namespace CallBackend.Files

abbrev FileId : Type := String

/-- A SHA-256 in lower-case hexadecimal. -/
abbrev Digest : Type := String

def chunkSize : Nat := 32768

/-- The nonce and tag that come with every encrypted chunk. -/
def chunkOverhead : Nat := 28

def maxFileSize : Nat := 3 * 1024 * 1024 * 1024

def maxExpiry : Nat := 86400

def maxActiveFilesPerOwner : Nat := 2

def ownerQuota : Nat := maxFileSize

def globalQuota : Nat := 10 * 1024 * 1024 * 1024

def maxFiles : Nat := 1000

def maxFilesPerOwner : Nat := 100

def batchChunks : Nat := 16

def maxLeases : Nat := 2048

def idPattern : String → Bool := fullmatch isLowerHex 32 32

def digestPattern : String → Bool := fullmatch isLowerHex 64 64

inductive FileState where
  | uploading
  | ready
  | expired
  | deleted
  deriving DecidableEq

/-- A row of `files`, without its id. Times are in seconds. -/
structure FileRow where
  owner : String
  size : Nat
  expires : Nat
  created : Nat
  state : FileState
  envelope : String
  manifest : String
  deriving DecidableEq

/-- The row counts against the quotas of bytes. -/
def FileRow.active (row : FileRow) : Bool := row.state = .uploading || row.state = .ready

def FileRow.lapsed (row : FileRow) (now : Nanos) : Bool :=
  decide (seconds row.expires ≤ now) || row.state = .expired

/-- `max(1, ceil(size / CHUNK_SIZE))`. -/
def FileRow.count (row : FileRow) : Nat := max 1 ((row.size + (chunkSize - 1)) / chunkSize)

/-- The length of an encrypted chunk. -/
def FileRow.chunkLength (row : FileRow) (index : Nat) : Nat :=
  min chunkSize (row.size - index * chunkSize) + chunkOverhead

/-- Where a chunk stands in the blob. -/
def slot (index : Nat) : Nat := index * (chunkSize + chunkOverhead)

/-- What a chunk of a native upload is announced with. -/
structure Descriptor where
  index : Nat
  length : Nat
  digest : Digest
  deriving DecidableEq

/-- What a lease was given for. -/
structure Binding where
  owner : String
  created : Nat
  envelope : String
  size : Nat
  chunks : List Descriptor
  deriving DecidableEq

structure Lease where
  token : String
  deadline : Nanos
  binding : Binding
  deriving DecidableEq

abbrev FileTable : Type := Dict FileId FileRow

structure Store where
  files : FileTable := ∅
  chunks : FileId → Dict Nat Digest := fun _ => ∅
  blobs : FileId → Option Blob := fun _ => none
  nativeWrites : Dict FileId Lease := ∅
  /-- Number of disk and database operations so far. -/
  operations : Nat := 0

structure StoreEnv where
  /-- `time.time()`. -/
  now : Nanos
  /-- `time.monotonic()`. -/
  monotonic : Nanos
  /-- `secrets.token_hex(16)`. -/
  token : String
  /-- Whether the n-th disk or database operation succeeds. -/
  succeeds : Nat → Bool
  /-- How many bytes the n-th operation leaves behind if it is a write and fails. -/
  torn : Nat → Nat := fun _ => 0

/-- `int(time.time())`. -/
def StoreEnv.clock (env : StoreEnv) : Nat := env.now / 1000000000

inductive FileError where
  | invalidRequest
  | notAvailable
  | busy
  | accessDenied
  | expired
  | uploadClosed
  | invalidChunk
  | chunkConflict
  | activeFileLimit
  | storageFull
  | uploadConflict
  | fileAccessModelChanged
  | uploadIncomplete
  | fileDamaged
  deriving DecidableEq

def FileError.code : FileError → String
  | .invalidRequest => "INVALID_REQUEST"
  | .notAvailable => "NOT_AVAILABLE"
  | .busy => "BUSY"
  | .accessDenied => "ACCESS_DENIED"
  | .expired => "EXPIRED"
  | .uploadClosed => "UPLOAD_CLOSED"
  | .invalidChunk => "INVALID_CHUNK"
  | .chunkConflict => "CHUNK_CONFLICT"
  | .activeFileLimit => "ACTIVE_FILE_LIMIT"
  | .storageFull => "STORAGE_FULL"
  | .uploadConflict => "UPLOAD_CONFLICT"
  | .fileAccessModelChanged => "FILE_ACCESS_MODEL_CHANGED"
  | .uploadIncomplete => "UPLOAD_INCOMPLETE"
  | .fileDamaged => "FILE_DAMAGED"

/-- What an operation of the store raises. -/
inductive StoreExn where
  | file (error : FileError)
  | osError
  | databaseError
  /-- A value that cannot be taken apart, or has no such attribute. -/
  | malformed
  deriving DecidableEq

inductive Reply where
  | capabilities
  | listing (files : List (FileId × FileRow))
  /-- `describe`, with the envelope for the owner. -/
  | described (id : FileId) (row : FileRow) (owner : Bool)
  | done
  | status (received : List Nat) (nextIndex : Option Nat)
  | received (indices : List Nat)
  | chunk (content : Bytes)
  | length (n : Nat)
  | lengths (indices lengths : List Nat)
  | plan (write received : List Nat) (lease : String)

structure Setup where
  /-- `hashlib.sha256(data).hexdigest()`. -/
  sha256 : Bytes → Digest

abbrev StoreM : Type → Type := Exec StoreEnv Store StoreExn

end CallBackend.Files
