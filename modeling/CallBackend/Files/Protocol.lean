import CallBackend.Files.NativeUpload
import CallBackend.Files.Soundness
import CallBackend.Lib.System

/-!
# Native uploads among other things

The Go process uploads a batch under the lock of the file: it asks for a plan, writes, syncs and asks
for the commit. It can give up at any moment and lets go of the lock then, but what it has sent is
still under way, and the backend executes it when it gets to it, without the lock. `Net` is the store
with the transfers of the Go process, the messages under way, and the `put` operations of the backend
between their check and their insert. Whoever holds a lock is in one of these lists; everything else
that takes the lock of a file happens in one step.

Cleaning up a file is one step too, but messages may be executed between the removal of the blob and
that of the rows.
-/

namespace CallBackend.Files

open Exec

/-! ### States -/

/-- How far a transfer has come. -/
inductive Phase where
  | preparing
  /-- The lease, and the chunks that are still to be written. -/
  | writing (lease : String) (rest : List (Nat × Bytes))
  | committing (lease : String)
  /-- It has an answer, or it has given up. -/
  | ended
  deriving DecidableEq

/-- An upload by `fileOperation`. -/
structure Transfer where
  user : String
  id : FileId
  chunks : List (Nat × Bytes)
  phase : Phase
  deriving DecidableEq

def Transfer.live (transfer : Transfer) : Bool := transfer.phase ≠ .ended

def Transfer.stopped (transfer : Transfer) : Transfer := { transfer with phase := .ended }

/-- What the Go process has sent for a transfer, named by its number. -/
inductive Message where
  | prepare (n : Nat)
  | commit (n : Nat) (lease : String)
  deriving DecidableEq

def Message.number : Message → Nat
  | .prepare n => n
  | .commit n _ => n

def Message.request (setup : Setup) (transfer : Transfer) : Message → Json
  | .prepare _ => nativeRequest setup "prepare" transfer.id transfer.chunks ""
  | .commit _ lease => nativeRequest setup "commit" transfer.id transfer.chunks lease

structure Put where
  id : FileId
  row : FileRow
  writes : Writes
  /-- What is still to be written. -/
  rest : List (Nat × Bytes × Digest)
  live : Bool

structure Net where
  store : Store := {}
  transfers : List Transfer := []
  messages : List Message := []
  puts : List Put := []
  /-- The tokens that have been drawn. -/
  issued : List String := []

/-- The lock of a file, which it shares with others. -/
def stripe (id : FileId) : List Char := id.toList.take 2

structure Net.Unlocked (net : Net) (id : FileId) : Prop where
  transfers : ∀ transfer ∈ net.transfers, transfer.live = true → stripe transfer.id ≠ stripe id
  puts : ∀ put ∈ net.puts, put.live = true → stripe put.id ≠ stripe id

/-! ### Steps of the Go process -/

def Net.start (net : Net) (user : String) (id : FileId) (chunks : List (Nat × Bytes)) : Net :=
  { net with
    transfers := net.transfers ++ [⟨user, id, chunks, .preparing⟩]
    messages := net.messages ++ [.prepare net.transfers.length] }

/-- What a transfer makes of an answer. It takes the last one for that to its commit. -/
def Transfer.answered (transfer : Transfer) (reply : Except StoreExn Reply) : Transfer :=
  match transfer.phase with
  | .preparing =>
    match reply with
    | .ok (.plan write _ lease) =>
      if lease.utf8ByteSize = 32 then
        { transfer with phase := .writing lease (planned write transfer.chunks) }
      else transfer.stopped
    | _ => transfer.stopped
  | .committing _ => transfer.stopped
  | _ => transfer

def Net.write (net : Net) (n : Nat) (env : StoreEnv) : Net :=
  match net.transfers[n]? with
  | some transfer =>
    match transfer.phase with
    | .writing lease (chunk :: rest) =>
      if (net.store.blobs transfer.id).isSome then
        match writeSlot transfer.id chunk.1 chunk.2 env net.store with
        | (.ok _, st) => { net with
            store := st
            transfers := net.transfers.set n { transfer with phase := .writing lease rest } }
        | (.error _, st) => { net with
            store := st
            transfers := net.transfers.set n transfer.stopped }
      else { net with transfers := net.transfers.set n transfer.stopped }
    | _ => net
  | none => net

/-- Syncs, once everything is written, and asks for the commit. -/
def Net.sync (net : Net) (n : Nat) (env : StoreEnv) : Net :=
  match net.transfers[n]? with
  | some transfer =>
    match transfer.phase with
    | .writing lease [] =>
      match operate .osError env net.store with
      | (.ok _, st) => { net with
          store := st
          transfers := net.transfers.set n { transfer with phase := .committing lease }
          messages := net.messages ++ [.commit n lease] }
      | (.error _, st) => { net with
          store := st
          transfers := net.transfers.set n transfer.stopped }
    | _ => net
  | none => net

def Net.giveUp (net : Net) (n : Nat) : Net :=
  match net.transfers[n]? with
  | some transfer => { net with transfers := net.transfers.set n transfer.stopped }
  | none => net

/-! ### Steps of the backend -/

/-- Executes a message that is under way. -/
def Net.execute (setup : Setup) (net : Net) (k : Nat) (env : StoreEnv) : Net :=
  match net.messages[k]? with
  | some message =>
    match net.transfers[message.number]? with
    | some transfer =>
      { net with
        store := (nativeFileRequest transfer.user (message.request setup transfer) env net.store).2
        transfers := net.transfers.set message.number
          (transfer.answered (nativeFileRequest transfer.user (message.request setup transfer) env net.store).1)
        messages := net.messages.eraseIdx k
        issued := env.token :: net.issued }
    | none => net
  | none => net

/-- Cleans up a file, with the messages that are executed in the meantime. -/
def Net.sweep (setup : Setup) (net : Net) (id : FileId) (now : Nat) (env : StoreEnv)
    (meantime : List (Nat × StoreEnv)) (env' : StoreEnv) : Net :=
  match unlink id env net.store with
  | (.ok _, st) =>
    let between := meantime.foldl (fun net entry => net.execute setup entry.1 entry.2) { net with store := st }
    { between with store := (sweepRows id now env' between.store).2 }
  | (.error _, st) => { net with store := st }

/-- The writes that a `put` or `put_batch` comes to. -/
inductive Checked (setup : Setup) (env : StoreEnv) (st : Store) (id : FileId) (row : FileRow) : Writes → Prop
  | put (batch : List PendingPut) : st.files.get? id = some row → row.state ≠ .deleted →
      Checked setup env st id row (checkBatch setup row (st.chunks id) ∅ batch).1
  | putBatch (user : String) (upload : Upload) (result : List Nat × Writes) :
      st.files.get? id = some row → row.state = .uploading → row.owner = user →
      env.now < seconds row.expires → checkUpload setup row (st.chunks id) upload = .ok result →
      Checked setup env st id row result.2

def Net.beginPut (net : Net) (id : FileId) (row : FileRow) (writes : Writes) : Net :=
  { net with
    puts := net.puts ++ [⟨id, row, writes, writes.entries.insertionSort fun a b => a.1 ≤ b.1, true⟩] }

def Put.stopped (put : Put) : Put := { put with live := false }

def Net.writePut (net : Net) (p : Nat) (env : StoreEnv) : Net :=
  match net.puts[p]? with
  | some put =>
    match put.live, put.rest with
    | true, entry :: rest =>
      if (net.store.blobs put.id).isSome then
        match writeSlot put.id entry.1 entry.2.1 env net.store with
        | (.ok _, st) => { net with store := st, puts := net.puts.set p { put with rest } }
        | (.error _, st) => { net with store := st, puts := net.puts.set p put.stopped }
      else { net with puts := net.puts.set p put.stopped }
    | _, _ => net
  | none => net

/-- The end of `write_chunks`. -/
def indexChunks (id : FileId) (writes : Writes) : StoreM Unit := do
  operate .osError
  transaction (forEach (fun entry => insertChunk id entry.1 entry.2.2) writes.entries)

def Net.insertPut (net : Net) (p : Nat) (env : StoreEnv) : Net :=
  match net.puts[p]? with
  | some put =>
    match put.live, put.rest with
    | true, [] => { net with
        store := (indexChunks put.id put.writes env net.store).2
        puts := net.puts.set p put.stopped }
    | _, _ => net
  | none => net

/-! ### The system -/

inductive Action where
  | start (user : String) (id : FileId) (chunks : List (Nat × Bytes))
  | execute (k : Nat) (env : StoreEnv)
  | write (n : Nat) (env : StoreEnv)
  | sync (n : Nat) (env : StoreEnv)
  | giveUp (n : Nat)
  | create (user : String) (data : Json) (env : StoreEnv)
  /-- `finish`, `delete` and the requests that change nothing. -/
  | request (user : String) (id : FileId) (data : Json) (env : StoreEnv)
  | sweep (id : FileId) (now : Nat) (env : StoreEnv) (meantime : List (Nat × StoreEnv)) (env' : StoreEnv)
  | removeOrphan (id : FileId) (env : StoreEnv)
  | beginPut (id : FileId) (row : FileRow) (writes : Writes) (env : StoreEnv)
  | writePut (p : Nat) (env : StoreEnv)
  | insertPut (p : Nat) (env : StoreEnv)

def Net.next (setup : Setup) (net : Net) : Action → Net
  | .start user id chunks => net.start user id chunks
  | .execute k env => net.execute setup k env
  | .write n env => net.write n env
  | .sync n env => net.sync n env
  | .giveUp n => net.giveUp n
  | .create user data env => { net with store := (Files.create user data env net.store).2 }
  | .request user id data env => { net with store := (fileRequest user id data env net.store).2 }
  | .sweep id now env meantime env' => net.sweep setup id now env meantime env'
  | .removeOrphan id env => { net with store := (Files.removeOrphan id env net.store).2 }
  | .beginPut id row writes _ => net.beginPut id row writes
  | .writePut p env => net.writePut p env
  | .insertPut p env => net.insertPut p env

/-- What the locks and the generator of tokens allow. -/
def Net.Enabled (setup : Setup) (net : Net) : Action → Prop
  | .start _ id _ => net.Unlocked id
  | .execute _ env => env.token ∉ net.issued
  | .create _ data _ => ∀ file, NewFile.parse data = .ok file → net.Unlocked file.id
  | .request _ id _ _ => net.Unlocked id
  | .sweep id _ _ meantime _ => net.Unlocked id ∧
      (meantime.map fun entry => entry.2.token).Nodup ∧ ∀ entry ∈ meantime, entry.2.token ∉ net.issued
  | .removeOrphan id _ => net.Unlocked id
  | .beginPut id row writes env => net.Unlocked id ∧ Checked setup env net.store id row writes
  | _ => True

def fileNet (setup : Setup) : System Net Action where
  init net := net = {}
  step net action net' := net.Enabled setup action ∧ net' = net.next setup action

end CallBackend.Files
