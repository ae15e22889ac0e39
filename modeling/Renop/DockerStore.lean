import Renop.DockerPaths
import Renop.FileSystem
import Renop.RelyGuarantee

/-!
# The files of the uploads

The calls of `docker_store.go` that stage, hash and move a file, and the handlers that make them (`handler.go`). Every call of
the operating system is a step of its own, and a file that is open is still written when its name stands for another one. What
a handler asks elsewhere (rights, locks, the tables) only refuses here, by its verdict.

`hashed`, `stored` and `sessions` are read by no handler: they keep what was hashed and moved and which uploads have begun and
not ended, for what is proved about it.
-/

namespace Renop.DockerStore

open FileSystem Interleave Sql
open Renop.Docker

structure Store where
  fs : FS String UInt8
  /-- The directories that there are. -/
  dirs : List String
  /-- The files that `CommitBlob` found to have their digest. -/
  hashed : List (Nat × String)
  /-- The contents that it moved, with their new paths. -/
  stored : List (String × List UInt8)
  /-- The uploads, by repository, that a `POST` has begun, and that were neither committed nor discarded since. -/
  sessions : List (String × String)

def Store.empty : Store := ⟨⟨fun _ => none, fun _ => [], fun _ => "", 0⟩, [], [], [], []⟩

/-- A file can be opened or created under this path. -/
def Store.opens (s : Store) (path : String) : Bool := parentDir path ∈ s.dirs && path ∉ s.dirs

/-- `os.MkdirAll` -/
def Store.mkdirAll (s : Store) (dir : String) : Store :=
  { s with dirs := (dir.toList.inits.filter fun q => q = dir.toList || (dir.toList.drop q.length).head? =
    some '/').map String.ofList ++ s.dirs }

@[simp] theorem Store.fs_mkdirAll (s : Store) (dir : String) : (s.mkdirAll dir).fs = s.fs := rfl

@[simp] theorem Store.hashed_mkdirAll (s : Store) (dir : String) : (s.mkdirAll dir).hashed = s.hashed := rfl

@[simp] theorem Store.stored_mkdirAll (s : Store) (dir : String) : (s.mkdirAll dir).stored = s.stored := rfl

@[simp] theorem Store.sessions_mkdirAll (s : Store) (dir : String) : (s.mkdirAll dir).sessions = s.sessions := rfl

def Store.endSession (s : Store) (repository uploadUUID : String) : Store :=
  { s with sessions := s.sessions.filter fun u => u ≠ (repository, uploadUUID) }

inductive FileCall
  | other
  | writeAt (file off : Nat)
  /-- The name of a staged file, and the file that was hashed. -/
  | rename (path : String) (file : Nat)
deriving DecidableEq, Repr

abbrev StoreProc (α : Type) : Type := Proc Store FileCall DockerError α

/-- What a request sends; of a write that fails the first `torn` bytes arrive. -/
structure Body where
  bytes : List UInt8
  torn : Nat
deriving DecidableEq, Repr

/-! ### Calls -/

section Calls
variable (env : Env) (calculateDigest : List UInt8 → String)

/-- Refused, or not, for a reason elsewhere. -/
def checked (e : DockerError) : StoreProc Unit := Proc.ask .other e fun _ => .ok ()

/-- `os.OpenFile` with `O_CREATE` -/
def openFile (path : String) (e : DockerError) : StoreProc Nat :=
  Proc.call .other e fun s =>
    if s.opens path then .ok ((s.fs.openCreate path).1, { s with fs := (s.fs.openCreate path).2 }) else .error e

def makeDir (path : String) : StoreProc Unit := Proc.tell .other .uploadInvalid fun s => .ok (s.mkdirAll (parentDir path))

def stageBlob (repository uploadUUID : String) : StoreProc Nat := do
  makeDir (stagingPath env repository uploadUUID)
  openFile (stagingPath env repository uploadUUID) .uploadInvalid

def getStagedBlob (repository uploadUUID : String) :
    StoreProc Nat := openFile (stagingPath env repository uploadUUID) .uploadUnknown

/-- `Size`, as its callers take it: 0 if it fails. -/
def stagedSize (file : Nat) : StoreProc Nat := Proc.atomic .other fun fail s =>
    (if fail then 0 else (s.fs.content file).length, s)

/-- `WriteAt`, or `Write` at the offset that it has reached. -/
def writeStaged (file off : Nat) (body : Body) : StoreProc Unit :=
  Proc.step (.writeAt file off)
    (fun fail s => { s with fs := s.fs.writeAt 0 file off (if fail then body.bytes.take body.torn else body.bytes) })
    fun fail _ => .done (if fail then .error .uploadInvalid else .ok ())

/-- `Close`; no one looks at its error. -/
def closeStaged : StoreProc Unit := Proc.atomic .other fun _ s => ((), s)

/-- `Discard`: the name is taken away, whatever it stands for. -/
def discard (repository uploadUUID : String) : StoreProc Unit := do
  closeStaged
  Proc.atomic .other fun fail s =>
    ((), (if fail then s else { s with fs := s.fs.remove (stagingPath env repository uploadUUID) }).endSession repository
      uploadUUID)

def orDiscard {α : Type} (repository uploadUUID : String) (p : StoreProc α) : StoreProc α := do
  match ← p.attempt with
  | .ok a => pure a
  | .error e =>
    discard env repository uploadUUID
    Proc.throw e

/-- `os.Open` -/
def openStaged (path : String) : StoreProc Nat := Proc.ask .other .uploadInvalid fun s =>
    orError (s.fs.names path) .uploadInvalid

/-- `Digest`: the file that has the name now. -/
def stagedDigest (path : String) : StoreProc String := do
  let file ← openStaged path
  Proc.ask .other .uploadInvalid fun s => .ok (calculateDigest (s.fs.content file))

/-- `CommitBlob` hashes the file once more, and moves what has the name then. -/
def commitBlob (repository uploadUUID digest : String) : StoreProc Nat := do
  checked .resourceLocked
  let tempPath := stagingPath env repository uploadUUID
  let targetPath := blobPath env repository digest
  let size ← Proc.ask .other .uploadInvalid fun s => (orError (s.fs.names tempPath) .uploadInvalid).map fun file =>
    (s.fs.content file).length
  let file ← openStaged tempPath
  let actualDigest ← Proc.call .other .uploadInvalid fun s =>
    let actualDigest := calculateDigest (s.fs.content file)
    .ok (actualDigest, if actualDigest = digest then { s with hashed := (file, digest) :: s.hashed } else s)
  Proc.ofExcept (require (actualDigest = digest) .uploadInvalid)
  makeDir targetPath
  Proc.tell (.rename tempPath file) .uploadInvalid fun s =>
    (orError (s.fs.names tempPath) .uploadInvalid).map fun moved =>
      { s.endSession repository uploadUUID with
        fs := s.fs.rename tempPath targetPath, stored := (targetPath, s.fs.content moved) :: s.stored }
  pure size

end Calls

/-! ### Handlers -/

section Handlers
variable (env : Env) (calculateDigest : List UInt8 → String)

/-- The repository of a name, and the right to write there or to read. -/
def authorized (name : String) : StoreProc String := do
  let repo ← Proc.ofExcept (orError (env.getRepo (parseRepositoryAndImage name).1) .nameUnknown)
  checked .denied
  pure repo.name

/-- `HandlePostUpload` without a mount: an upload at once, or a new session. -/
def handlePostUpload (name uploadUUID singleDigest : String) (body : Body) : StoreProc Unit := do
  let repository ← authorized env name
  let file ← stageBlob env repository uploadUUID
  if singleDigest ≠ "" ∧ body.bytes ≠ [] then
    let result ← Proc.attempt do
      Proc.ofExcept (require (calculateDigest body.bytes = singleDigest) .digestInvalid)
      writeStaged file 0 body
      closeStaged
      checked .resourceLocked
      let _ ← commitBlob env calculateDigest repository uploadUUID singleDigest
      checked .unavailable
    -- the deferred `Discard`, also of a file that was moved
    discard env repository uploadUUID
    Proc.ofExcept result
  else
    closeStaged
    Proc.modify .other fun s => { s with sessions := (repository, uploadUUID) :: s.sessions }

def handlePatchUpload (name uploadUUID : String) (body : Body) : StoreProc Unit := do
  let repository ← authorized env name
  let file ← getStagedBlob env repository uploadUUID
  let currentSize ← stagedSize file
  let result ← Proc.attempt (if body.bytes ≠ [] then writeStaged file currentSize body else pure ())
  closeStaged
  Proc.ofExcept result

/-- The last piece of an upload, if there is one. -/
def writeFinalChunk (repository uploadUUID : String) (file : Nat) (body : Body) : StoreProc Unit :=
  if body.bytes ≠ [] then do
    let currentSize ← stagedSize file
    orDiscard env repository uploadUUID (writeStaged file currentSize body)
  else pure ()

def handlePutUpload (name uploadUUID digest : String) (body : Body) : StoreProc Unit := do
  Proc.ofExcept (require (digest ≠ "") .digestInvalid)
  let repository ← authorized env name
  let file ← getStagedBlob env repository uploadUUID
  writeFinalChunk env repository uploadUUID file body
  closeStaged
  let calculated ← orDiscard env repository uploadUUID
    (stagedDigest calculateDigest (stagingPath env repository uploadUUID))
  if calculated ≠ digest then
    discard env repository uploadUUID
    Proc.throw .digestInvalid
  else
    checked .resourceLocked
    let _ ← commitBlob env calculateDigest repository uploadUUID digest
    checked .unavailable

def handleGetUploadStatus (name uploadUUID : String) : StoreProc Unit := do
  let repository ← authorized env name
  let file ← getStagedBlob env repository uploadUUID
  let _ ← stagedSize file
  closeStaged

def handleDeleteUpload (name uploadUUID : String) : StoreProc Unit := do
  let repository ← authorized env name
  match ← (getStagedBlob env repository uploadUUID).attempt with
  | .ok _ => discard env repository uploadUUID
  | .error _ => pure ()

/-- The copies that the stream of a mirror made before it ended, without an error if it is `complete`. -/
def copyChunks (file : Nat) (complete : Bool) : Nat → List Body → StoreProc Unit
  | _, [] => if complete then pure () else Proc.throw .uploadInvalid
  | off, chunk :: chunks => do
    writeStaged file off chunk
    copyChunks file complete (off + chunk.bytes.length) chunks

/-- `HandleGetBlob`, where the blob comes from a mirror and is kept. -/
def handleGetBlob (name digest uploadUUID : String) (chunks : List Body) (complete : Bool) : StoreProc Unit := do
  let repository ← authorized env name
  checked .blobUnknown
  match ← (stageBlob env repository uploadUUID).attempt with
  | .error _ => pure ()
  | .ok file =>
    let result ← (copyChunks file complete 0 chunks).attempt
    closeStaged
    match result with
    | .ok _ =>
      let _ ← (commitBlob env calculateDigest repository uploadUUID digest).attempt
      pure ()
    | .error e =>
      discard env repository uploadUUID
      Proc.throw e

def handleDeleteBlob (name digest : String) : StoreProc Unit := do
  let repository ← authorized env name
  checked .resourceLocked
  Proc.tell .other .unavailable fun s => .ok { s with fs := s.fs.remove (blobPath env repository digest) }

def patches (name uploadUUID : String) : List Body → StoreProc Unit
  | [] => pure ()
  | body :: bodies => do
    handlePatchUpload env name uploadUUID body
    patches name uploadUUID bodies

/-- A client that sends its upload piece by piece, each when the one before is answered. -/
def upload (name uploadUUID digest : String) (bodies : List Body) (last : Body) : StoreProc Unit := do
  handlePostUpload env calculateDigest name uploadUUID "" ⟨[], 0⟩
  patches env name uploadUUID bodies
  handlePutUpload env calculateDigest name uploadUUID digest last

end Handlers

/-! ### Requests -/

inductive Request
  | post (name uploadUUID singleDigest : String) (body : Body)
  | patch (name uploadUUID : String) (body : Body)
  | put (name uploadUUID digest : String) (body : Body)
  | status (name uploadUUID : String)
  | cancel (name uploadUUID : String)
  | getBlob (name digest uploadUUID : String) (chunks : List Body) (complete : Bool)
  | deleteBlob (name digest : String)
  /-- All requests of a client for one upload. -/
  | upload (name uploadUUID digest : String) (bodies : List Body) (last : Body)
deriving DecidableEq, Repr

def handle (env : Env) (calculateDigest : List UInt8 → String) : Request → StoreProc Unit
  | .post name uploadUUID singleDigest body => handlePostUpload env calculateDigest name uploadUUID singleDigest body
  | .patch name uploadUUID body => handlePatchUpload env name uploadUUID body
  | .put name uploadUUID digest body => handlePutUpload env calculateDigest name uploadUUID digest body
  | .status name uploadUUID => handleGetUploadStatus env name uploadUUID
  | .cancel name uploadUUID => handleDeleteUpload env name uploadUUID
  | .getBlob name digest uploadUUID chunks complete => handleGetBlob env calculateDigest name digest uploadUUID chunks
      complete
  | .deleteBlob name digest => handleDeleteBlob env name digest
  | .upload name uploadUUID digest bodies last => upload env calculateDigest name uploadUUID digest bodies last

end Renop.DockerStore
