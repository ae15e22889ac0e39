import Renop.CrashProg
import Renop.StoragePaths

/-!
# The Maven store

The state that uploads, the GPG publisher and review decisions share: the stored files (a disk or a bucket), the file
index, the quarantine, and the tables of releases, signatures, reviews and catalog versions. Every file operation and
every database call is one step of `Crash.Prog`; an error names the step it comes from. Identifiers that the source
takes from `uuid.NewString` are drawn from a counter. `InvalidateFileCache`, the Javadoc extraction and the time
stamps that nothing here reads are left out.
-/

namespace Renop.Storage
open Crash Renop.Index

abbrev Bytes : Type := String

structure ContentDigests where
  md5 : String
  sha1 : String
  sha256 : String
  sha512 : String
deriving DecidableEq, Repr

def ContentDigests.get (d : ContentDigests) : Digest → String
  | .md5 => d.md5
  | .sha1 => d.sha1
  | .sha256 => d.sha256
  | .sha512 => d.sha512

def ContentDigests.empty : ContentDigests := ⟨"", "", "", ""⟩

/-! ### Configuration -/

inductive RepositoryFormat
  | maven
  | files
  | npm
  | cargo
  | docker
deriving DecidableEq, Repr

inductive PublicationReviewPolicy
  | off
  | newPackages
  | everyVersion
deriving DecidableEq, Repr

structure Repository where
  name : String
  format : RepositoryFormat
  s3 : Bool
  requireGPGSignature : Bool
  allowRedeployment : Bool
  publicationReview : PublicationReviewPolicy
deriving DecidableEq, Repr

/-- What other parts of the program decide: the configuration, the locks, the domains and the accounts. -/
structure Settings where
  repositories : String → Option Repository
  /-- `EnsurePathMutable` refuses the path of the repository. -/
  pathLocked : String → String → Bool
  /-- `EnsurePackageMutable` refuses the package of the repository. -/
  packageLocked : String → String → Bool
  /-- `ListMavenDomains` has a verified domain of the user (`""`: of anyone) for the group. -/
  domainVerified : String → String → Bool
  userExists : String → Bool

/-! ### Releases -/

inductive GPGReleaseStatus
  | queued
  | validating
  | failed
  | success
deriving DecidableEq, Repr

/-- The base name of a quarantined file: `part.uuid`, or `part` with the suffix of a checksum companion. -/
inductive StagingName
  | upload (part : Part) (uuid : Nat)
  | companion (part : Part) (digest : Digest)
deriving DecidableEq, Repr

/-- A file under the quarantine directory of a release. -/
structure StagingPath where
  release : Nat
  name : StagingName
deriving DecidableEq, Repr

/-- What a release knows of its artifact, and of its signature. -/
structure Staged where
  stagingPath : Option StagingPath
  size : Int
  modTime : Int
  existed : Bool
  generateChecksums : Bool
  digests : ContentDigests
deriving DecidableEq, Repr

def Staged.none : Staged := ⟨.none, 0, 0, false, false, .empty⟩

structure GPGRelease where
  id : Nat
  activeKey : Option String
  repository : String
  artifactPath : String
  uploader : String
  status : GPGReleaseStatus
  failureReason : String
  requireSignature : Bool
  artifact : Staged
  signature : Staged
  publishStarted : Bool
  cleanupPending : Bool
  createdAt : Int
deriving DecidableEq, Repr

def GPGRelease.part (r : GPGRelease) : Part → Staged
  | .artifact => r.artifact
  | .signature => r.signature

/-- `releaseLocalArtifactPath`; release paths come from accepted uploads, which `SanitizePath` leaves as they are. -/
def GPGRelease.localArtifactPath (r : GPGRelease) : String := r.repository ++ "/" ++ r.artifactPath

def releaseBlockedPaths (r : GPGRelease) : List String := withCompanions r.localArtifactPath

structure GPGSignature where
  artifactKey : String
  fingerprint : String
  username : String
deriving DecidableEq, Repr

/-! ### Reviews and the catalog -/

inductive ReviewResourceType
  | mavenArtifact
  | npmPackage
  | cargoPackage
  | dockerImage
deriving DecidableEq, Repr

inductive ReviewStatus
  | pending
  | approved
  | rejected
deriving DecidableEq, Repr

structure ReviewFile where
  path : String
  size : Int
  critical : Bool
  addedAt : Int
deriving DecidableEq, Repr

/-- A publication review with its files. -/
structure ReviewTask where
  id : Nat
  resourceType : ReviewResourceType
  repository : String
  resourceKey : String
  version : String
  requestedBy : String
  status : ReviewStatus
  createdAt : Int
  files : List ReviewFile
deriving DecidableEq, Repr

structure MavenVersion where
  repository : String
  coordinate : MavenCoordinate
deriving DecidableEq, Repr

/-! ### The state -/

structure StoredFile where
  bytes : Bytes
  modTime : Int
deriving DecidableEq, Repr

structure Store where
  settings : Settings
  files : PathMap StoredFile
  index : FileIndex
  quarantine : StagingPath → Option Bytes
  releases : List GPGRelease
  signatures : String → Option GPGSignature
  reviews : List ReviewTask
  versions : List MavenVersion
  uuids : Nat

/-- The steps that can fail, each with what it is about. -/
inductive Site
  | context
  | locks (path : String)
  | quotaReserve
  | quotaCommit
  | activeRelease
  | countReleases
  | claimRelease
  | saveRelease (status : GPGReleaseStatus)
  | quarantineDir
  | quarantine (name : StagingName)
  | restoreTemp
  | removeStaged
  | removeQuarantine
  | readStaged (path : StagingPath)
  | statStaged (name : StagingName)
  | openStored (path : String)
  | write (path : String)
  | checksum (path : String)
  | delete (path : String)
  | deleteSignature (key : String)
  | saveSignature
  | stat (path : String)
  | reviewFiles
  | listReviews
  | createReview
  | decideReview
  | packageExists
  | recordPublication
  | rollbackPublication
deriving DecidableEq, Repr

inductive StorageError
  | step (site : Site)
  | invalidUpload
  | gpgPendingConflict
  | gpgPendingLimit
  | gpgSignatureLarge
  | gpgSignatureSuffix
  | gpgUploaderRequired
  | gpgRepositoryMissing
  | gpgReleaseInactive
  | gpgStagingPath
  | gpgSignatureInvalid
  | repositoryFormatChanged
  | redeploymentDenied
  | storagePathChanged
  | missingDigests
  | notExist
  | resourceLocked
  | domainUnverified
  | reviewInvalidRequest
  | reviewPublicationSealed
  | reviewFileLimit
  | reviewPermissionDenied
  | reviewFileNotFound
  | reviewTaskNotFound
  | reviewTaskConflict
  | reviewPublicationActive
  | reviewResourceConflict
  /-- `failed to invalidate prior GPG signature` -/
  | invalidateSignature (cause : StorageError)
  | join (first second : StorageError)
deriving DecidableEq, Repr

abbrev StoreM (α : Type) : Type := Prog Store StorageError α

/-- A step that changes the store. -/
def act (site : Site) (f : Store → Store) : StoreM Unit := Prog.step (.step site) fun s => .ok ((), f s)

/-- A step that reads the store. -/
def query {α : Type} (site : Site) (f : Store → α) : StoreM α := Prog.step (.step site) fun s => .ok (f s, s)

/-- A step whose failure the code ignores. -/
def ignore (m : StoreM Unit) : StoreM Unit := do
  let _ ← m.attempt
  pure ()

/-- Run everything, going on after an error; `keep` says what becomes of a further one. -/
def tryAll (keep : StorageError → StorageError → StorageError) :
    List (StoreM Unit) → Option StorageError → StoreM Unit
  | [], none => pure ()
  | [], some e => Prog.throw e
  | m :: ms, acc => do
    match ← m.attempt with
    | .ok () => tryAll keep ms acc
    | .error e => tryAll keep ms (some (match acc with | none => e | some a => keep a e))

/-- The loop `result = errors.Join(result, f(x))`. -/
def joinErrors : List (StoreM Unit) → Option StorageError → StoreM Unit := tryAll .join

def updateIndex (f : FileIndex → FileIndex) : StoreM Unit := Prog.modify fun s => { s with index := f s.index }

def newUUID : StoreM Nat := do
  let uuid ← Prog.read Store.uuids
  Prog.modify fun s => { s with uuids := s.uuids + 1 }
  pure uuid

namespace Store

def bytesAt (s : Store) (path : String) : Option Bytes := (s.files.lookup path).map StoredFile.bytes

def write (s : Store) (path : String) (bytes : Bytes) (modTime : Int) : Store :=
  { s with files := s.files.insert path ⟨bytes, modTime⟩ }

def remove (s : Store) (path : String) : Store := { s with files := s.files.erase path }

/-- `cfg.Maven.Repositories[name]` -/
def repository? (s : Store) (name : String) : Option Repository := s.settings.repositories name

/-- `IsS3Enabled` -/
def isS3Enabled (s : Store) (path : String) : Bool :=
  match repositoryArtifactPath path with
  | none => false
  | some (name, _) => ((s.repository? name).map Repository.s3).getD false

/-- `PathExistsForUpload`; artifact paths are no directories on disk. -/
def pathExistsForUpload (s : Store) (path : String) : Bool :=
  if s.isS3Enabled path then s.index.hasFile path || s.index.hasDir path else path ∈ s.files

end Store

/-! ### Files -/

def deleteGPGSignature (key : String) : StoreM Unit :=
  act (.deleteSignature key) fun s => { s with signatures := fun k => if k = key then none else s.signatures k }

def deleteGPGRecordForLocalPath (localPath : String) : StoreM Unit :=
  match gpgIdentityForLocalPath localPath with
  | none => pure ()
  | some (repository, artifactPath) => deleteGPGSignature (artifactKey repository artifactPath)

def deleteIndexedFile (path : String) : StoreM Unit := do
  act (.delete path) fun s => s.remove path
  updateIndex fun idx => idx.removeFile path
  deleteGPGRecordForLocalPath path

def removeArtifactCompanions (artifactPath : String) : StoreM Unit :=
  Prog.forEach artifactCompanionExts fun ext => deleteIndexedFile (artifactPath ++ ext)

/-- The names in the directory of a path: the index's, then those on disk that it does not list. -/
def siblings (s : Store) (localFilePath : String) : List String :=
  let dir := (splitPathParentBase localFilePath).1
  let listed := s.index.children dir
  if s.isS3Enabled localFilePath then listed
  else listed ++ (s.files.keys.filterMap fun k =>
    let (parent, base) := splitPathParentBase k
    if parent = dir ∧ base ∉ listed then some base else none)

def cleanupSupersededUniqueSnapshots (localFilePath : String) : StoreM Unit := do
  let children ← Prog.read fun s => siblings s localFilePath
  Prog.forEach (supersededBuilds localFilePath children) fun child =>
    deleteIndexedFile ((splitPathParentBase localFilePath).1 ++ "/" ++ child)

def saveAndUploadChecksum (basePath : String) (d : Digest) (hash : String) (now : Int) : StoreM Unit := do
  act (.checksum (basePath ++ d.ext)) fun s => s.write (basePath ++ d.ext) hash now
  updateIndex fun idx => idx.insertFile (basePath ++ d.ext) ⟨hash.toList.length, now⟩

/-- The checksum part of `CommitUploadedFile`: all four are tried, and a failure takes everything back. -/
def generateChecksums (localFilePath : String) (digests : ContentDigests) (now : Int) : StoreM Unit := do
  match ← (tryAll (fun first _ => first) (Digest.all.map fun d =>
      saveAndUploadChecksum localFilePath d (digests.get d) now) none).attempt with
  | .ok () => pure ()
  | .error firstErr =>
    joinErrors (deleteIndexedFile localFilePath ::
      Digest.all.map fun d => deleteIndexedFile (localFilePath ++ d.ext)) (some firstErr)

/-- The snapshot part of `CommitUploadedFile`. -/
def supersedeSnapshot (localFilePath : String) (existed : Bool) : StoreM Unit :=
  if isSnapshotArtifactPath localFilePath && !isArtifactCompanionPath localFilePath then do
    Prog.when existed (removeArtifactCompanions localFilePath)
    cleanupSupersededUniqueSnapshots localFilePath
  else pure ()

/-- `CommitUploadedFile` of a temp file with these bytes. -/
def commitUploadedFile (localFilePath : String) (bytes : Bytes) (fileSize modTime : Int) (existed wantChecksums : Bool)
    (digests : Option ContentDigests) : StoreM Unit := do
  match repositoryArtifactPath localFilePath with
  | none => Prog.throw .invalidUpload
  | some (name, _) =>
    match ← Prog.read fun s => s.repository? name with
    | none => Prog.throw .gpgRepositoryMissing
    | some repo =>
      let isMaven := decide (repo.format = .maven)
      let generate := wantChecksums && isMaven
      if generate && digests.isNone then
        Prog.throw .missingDigests
      else do
        act (.write localFilePath) fun s => s.write localFilePath bytes modTime
        updateIndex fun idx => (idx.ensureParentDirs localFilePath).insertFile localFilePath ⟨fileSize, modTime⟩
        Prog.when isMaven (supersedeSnapshot localFilePath existed)
        match digests with
        | some digests => Prog.when generate (generateChecksums localFilePath digests modTime)
        | none => pure ()

def removeArtifactSignature (repository artifactPath localArtifactPath : String) : StoreM Unit :=
  joinErrors (([".asc", ".asc.md5", ".asc.sha1", ".asc.sha256", ".asc.sha512"].map fun suffix =>
    deleteIndexedFile (localArtifactPath ++ suffix)) ++ [deleteGPGSignature (artifactKey repository artifactPath)]) none

def removeArtifactGPGSignature (localArtifactPath : String) : StoreM Unit :=
  if isProtectedArtifact localArtifactPath then
    match repositoryArtifactPath localArtifactPath with
    | none => Prog.throw .invalidUpload
    | some (repository, artifactPath) => removeArtifactSignature repository artifactPath localArtifactPath
  else pure ()

def removeArtifactChecksums (localArtifactPath : String) : StoreM Unit :=
  joinErrors (Digest.all.map fun d => deleteIndexedFile (localArtifactPath ++ d.ext)) none

/-- `reindexPathIfPresent`; a failed `Stat` leaves the path out. -/
def reindexPathIfPresent (path : String) : StoreM Unit := do
  if ← Prog.read fun s => s.index.isBlocked path then
    pure ()
  else
    match ← (query (.stat path) fun s => s.files.lookup path).attempt with
    | .ok (some file) =>
      updateIndex fun idx => (idx.ensureParentDirs path).insertFile path ⟨file.bytes.toList.length, file.modTime⟩
    | _ => pure ()

end Renop.Storage
