import Renop.StorageReview

/-!
# Uploads

`processUploadedFileWithReviewLocked`: an upload of a Maven repository is committed at once, or quarantined as a part of
a GPG release (`enqueueGPGRelease`, `enqueueGPGCompanion`), and ends in the review hook. The quota refuses at the two
steps of its reservation. The temp file is its bytes; `none` is an empty `TempPath`.
-/

namespace Renop.Storage
open Crash Renop.Index

def maxGPGPendingReleases : Nat := 256

def maxGPGPendingPerUser : Nat := 16

def maxDetachedSignatureSize : Int := 1024 * 1024

structure PreparedUpload where
  localFilePath : String
  temp : Option Bytes
  username : String
  fileSize : Int
  modTime : Int
  existed : Bool
  generateChecksums : Bool
  signatureExpected : Bool
  digests : Option ContentDigests
deriving DecidableEq, Repr

/-- `GPGUploadResult`: published at once, pending as a release, or pending as a review. -/
inductive GPGUploadResult
  | published
  | releasePending (releaseID : Nat)
  | reviewPending (reviewID : Nat)
deriving DecidableEq, Repr

/-! ### The releases table -/

namespace Store

/-- `GetActiveGPGRelease` -/
def activeRelease? (s : Store) (key : String) : Option GPGRelease := s.releases.find? fun r => r.activeKey = some key

/-- `SaveGPGRelease`: an update by id that keeps the uploader, or an insert. -/
def saveRelease (s : Store) (r : GPGRelease) : Store :=
  { s with releases :=
      if s.releases.any fun q => q.id = r.id then
        s.releases.map fun q => if q.id = r.id then { r with uploader := q.uploader } else q
      else s.releases ++ [r] }

/-- `ListPendingGPGReleases` -/
def pendingReleases (s : Store) : List GPGRelease :=
  (s.releases.filter fun r => r.activeKey.isSome || r.cleanupPending).mergeSort fun a b =>
    a.createdAt < b.createdAt || (a.createdAt = b.createdAt && a.id ≤ b.id)

end Store

def saveGPGRelease (r : GPGRelease) : StoreM Unit := act (.saveRelease r.status) fun s => s.saveRelease r

/-- The empty key has no release. -/
def getActiveGPGRelease (key : Option String) : StoreM (Option GPGRelease) :=
  match key with
  | none => pure none
  | some key => query .activeRelease fun s => s.activeRelease? key

def blockReleasePaths (r : GPGRelease) : StoreM Unit :=
  Prog.forEach (releaseBlockedPaths r) fun path => updateIndex fun idx => idx.blockFile path

/-! ### The quarantine -/

namespace Store

def stage (s : Store) (path : StagingPath) (bytes : Bytes) : Store :=
  { s with quarantine := Function.update s.quarantine path (some bytes) }

def unstage (s : Store) (path : StagingPath) : Store :=
  { s with quarantine := Function.update s.quarantine path none }

/-- `RemoveAll` of the directory of a release. -/
def clearQuarantine (s : Store) (release : Nat) : Store :=
  { s with quarantine := fun path => if path.release = release then none else s.quarantine path }

end Store

def moveUploadToQuarantine (releaseID : Nat) (part : Part) (bytes : Bytes) : StoreM StagingPath := do
  act .quarantineDir id
  let uuid ← newUUID
  let target : StagingPath := ⟨releaseID, .upload part uuid⟩
  act (.quarantine target.name) fun s => s.stage target bytes
  pure target

def newGPGRelease (repository artifactPath username : String) (now : Int) : StoreM GPGRelease := do
  let (total, perUser) ← query .countReleases fun s =>
    let active := s.releases.filter fun r => r.activeKey.isSome
    (active.length, active.countP fun r => r.uploader = username.toLower)
  if maxGPGPendingReleases ≤ total ∨ maxGPGPendingPerUser ≤ perUser then
    Prog.throw .gpgPendingLimit
  else do
    let id ← newUUID
    pure ⟨id, some (artifactKey repository artifactPath), repository, artifactPath, username.toLower, .queued, "", false,
      .none, .none, false, false, now⟩

/-- The part that an upload puts into a release. -/
def stagedUpload (upload : PreparedUpload) (stagingPath : StagingPath) : Staged :=
  ⟨some stagingPath, upload.fileSize, upload.modTime, upload.existed, upload.generateChecksums,
    upload.digests.getD .empty⟩

/-- The release after the upload of one of its parts; `artifactExists` is `PathExistsForUpload` of the artifact. -/
def GPGRelease.withUpload (r : GPGRelease) (repo : Repository) (upload : PreparedUpload) (part : Part)
    (stagingPath : StagingPath) (artifactExists : Bool) : GPGRelease :=
  match part with
  | .signature =>
    { r with
      failureReason := "", requireSignature := true, signature := stagedUpload upload stagingPath
      artifact := if r.artifact.stagingPath = none then { r.artifact with existed := artifactExists } else r.artifact }
  | .artifact =>
    { r with
      failureReason := "", artifact := stagedUpload upload stagingPath
      requireSignature := r.requireSignature || repo.requireGPGSignature || upload.signatureExpected }

/-- The queued release of the artifact, by the same uploader, or a new one. -/
def joinGPGRelease (upload : PreparedUpload) (repository artifactPath : String) (now : Int) : StoreM GPGRelease := do
  match ← getActiveGPGRelease (some (artifactKey repository artifactPath)) with
  | some release =>
    if release.status ≠ .queued ∨ release.uploader.toLower ≠ upload.username.toLower then
      Prog.throw .gpgPendingConflict
    else pure release
  | none => newGPGRelease repository artifactPath upload.username now

/-- The staged file that an upload replaces. -/
def removeReplaced (old : Option StagingPath) (stagingPath : StagingPath) : StoreM Unit :=
  match old with
  | some path => if path ≠ stagingPath then ignore (act .removeStaged fun s => s.unstage path) else pure ()
  | none => pure ()

def enqueueGPGRelease (repo : Repository) (upload : PreparedUpload) (bytes : Bytes) (repository artifactPath : String)
    (part : Part) (now : Int) : StoreM GPGRelease := do
  let release ← joinGPGRelease upload repository artifactPath now
  let stagingPath ← moveUploadToQuarantine release.id part bytes
  let artifactExists ← Prog.read fun s => s.pathExistsForUpload release.localArtifactPath
  let saved := release.withUpload repo upload part stagingPath artifactExists
  match ← (saveGPGRelease saved).attempt with
  | .error e =>
    ignore (act .restoreTemp fun s => s.unstage stagingPath)
    Prog.throw e
  | .ok () =>
    removeReplaced (release.part part).stagingPath stagingPath
    blockReleasePaths saved
    pure saved

/-- The release a companion belongs to and whether it is new; `none` sends the companion on as an ordinary file. -/
def companionRelease (repo : Repository) (upload : PreparedUpload) (repository artifactPath : String) (now : Int) :
    StoreM (Option (GPGRelease × Bool)) := do
  match ← getActiveGPGRelease (some (artifactKey repository artifactPath)) with
  | some release =>
    if (release.status ≠ .queued ∧ release.status ≠ .validating) ∨
        release.uploader.toLower ≠ upload.username.toLower then
      Prog.throw .gpgPendingConflict
    else pure (some (release, false))
  | none =>
    if !repo.requireGPGSignature then pure none
    else if ← Prog.read fun s => s.pathExistsForUpload (repository ++ "/" ++ artifactPath) then pure none
    else do
      let release ← newGPGRelease repository artifactPath upload.username now
      pure (some ({ release with requireSignature := true }, true))

def enqueueGPGCompanion (repo : Repository) (upload : PreparedUpload) (bytes : Bytes) (repository artifactPath : String)
    (part : Part) (digest : Digest) (now : Int) : StoreM (Option GPGRelease) := do
  match ← companionRelease repo upload repository artifactPath now with
  | none => pure none
  | some (release, isNew) => do
    act .quarantineDir id
    let target : StagingPath := ⟨release.id, .companion part digest⟩
    act (.quarantine target.name) fun s => s.stage target bytes
    let saved ← (if isNew then saveGPGRelease release else pure ()).attempt
    match saved with
    | .error e =>
      ignore (act .restoreTemp fun s => s.unstage target)
      Prog.throw e
    | .ok () =>
      blockReleasePaths release
      pure (some release)

/-! ### The upload -/

structure MavenPublicationPreparation where
  relative : String
  candidate : Bool
  strict : Bool
  blocked : Bool
deriving DecidableEq, Repr

def prepareMavenPublication (repo : Repository) (localFilePath : String) : StoreM MavenPublicationPreparation :=
  if repo.format ≠ .maven then pure ⟨"", false, false, false⟩
  else
    match relativeTo repo.name localFilePath with
    | none => Prog.throw .reviewInvalidRequest
    | some relative => do
      let candidate := isPublicationReviewCandidate relative
      let strict := decide (repo.publicationReview ≠ .off)
      Prog.when (candidate && strict) (updateIndex fun idx => idx.blockFile localFilePath)
      pure ⟨relative, candidate, strict, candidate && strict⟩

def abortMavenPublication (localFilePath : String) (preparation : MavenPublicationPreparation) : StoreM Unit :=
  if preparation.blocked then do
    updateIndex fun idx => idx.unblockFile localFilePath
    reindexPathIfPresent localFilePath
  else pure ()

def finishMavenPublication (repo : Repository) (upload : PreparedUpload) (preparation : MavenPublicationPreparation)
    (now : Int) : StoreM PublicationReviewResult :=
  if !preparation.candidate then do
    abortMavenPublication upload.localFilePath preparation
    pure none
  else do
    match ← (processPublishedFiles repo upload.username [⟨preparation.relative, upload.fileSize, false, now⟩]
        now).attempt with
    | .error e =>
      if !preparation.strict then do
        abortMavenPublication upload.localFilePath preparation
        pure none
      else
        let cleanup ← (deleteIndexedFile upload.localFilePath).attempt
        updateIndex fun idx => idx.unblockFile upload.localFilePath
        match cleanup with
        | .ok () => Prog.throw e
        | .error e' => Prog.throw (.join e e')
    | .ok (some id) => do
      Prog.when (!preparation.blocked) (updateIndex fun idx => idx.blockFile upload.localFilePath)
      pure (some id)
    | .ok none => do
      abortMavenPublication upload.localFilePath preparation
      pure none

/-- The direct commit of an upload. -/
def commitUpload (upload : PreparedUpload) (bytes : Bytes) : StoreM Unit :=
  commitUploadedFile upload.localFilePath bytes upload.fileSize upload.modTime upload.existed upload.generateChecksums
    upload.digests

/-- The part of `processUploadedFileLocked` under `gpgReleaseStorageMutation`. -/
def processProtectedFile (repo : Repository) (upload : PreparedUpload) (bytes : Bytes) (repository relPath : String)
    (now : Int) : StoreM GPGUploadResult :=
  match gpgCompanionForPath relPath with
  | some (artifactPath, part, digest) =>
    if blank upload.username then Prog.throw .gpgUploaderRequired
    else do
      match ← enqueueGPGCompanion repo upload bytes repository artifactPath part digest now with
      | none =>
        commitUpload upload bytes
        pure .published
      | some release => pure (.releasePending release.id)
  | none =>
    let (mapped, isSignature) := artifactForDetachedSignature relPath
    let artifactPath := if isSignature then mapped else relPath
    if !isSignature && !repo.requireGPGSignature && !upload.signatureExpected then do
      match ← getActiveGPGRelease (some (artifactKey repository artifactPath)) with
      | some _ => Prog.throw .gpgPendingConflict
      | none =>
        (removeArtifactGPGSignature upload.localFilePath).mapError .invalidateSignature
        commitUpload upload bytes
        pure .published
    else if blank upload.username then Prog.throw .gpgUploaderRequired
    else if isSignature && maxDetachedSignatureSize < upload.fileSize then Prog.throw .gpgSignatureLarge
    else do
      let release ← enqueueGPGRelease repo upload bytes repository artifactPath
        (if isSignature then .signature else .artifact) now
      pure (.releasePending release.id)

def processUploadedFileLocked (repo : Repository) (upload : PreparedUpload) (now : Int) : StoreM GPGUploadResult := do
  match upload.temp with
  | none => Prog.throw .invalidUpload
  | some bytes => do
    act .context id
    match ← Prog.read fun s => s.repository? repo.name with
    | none => Prog.throw .gpgRepositoryMissing
    | some current =>
      if current.format ≠ repo.format then Prog.throw .repositoryFormatChanged
      else if current.format = .files then do
        commitUploadedFile upload.localFilePath bytes upload.fileSize upload.modTime upload.existed false none
        pure .published
      else
        let localIsSignature := (artifactForDetachedSignature upload.localFilePath).2
        let localIsCompanion := (gpgCompanionForPath upload.localFilePath).isSome
        if localIsSignature && !hasSuffix upload.localFilePath ".asc" then Prog.throw .gpgSignatureSuffix
        else if !localIsSignature && !localIsCompanion && !isProtectedArtifact upload.localFilePath then do
          commitUpload upload bytes
          pure .published
        else
          match repositoryArtifactPath upload.localFilePath with
          | none => Prog.throw .invalidUpload
          | some (repository, relPath) =>
            match ← Prog.read fun s => s.repository? repository with
            | none => Prog.throw .gpgRepositoryMissing
            | some repo => processProtectedFile repo upload bytes repository relPath now

/-- `MavenMutationGuard` of an upload. -/
def guardUpload (repo : Repository) (localFilePath : String) : StoreM Unit :=
  if repo.format ≠ .maven then pure ()
  else
    match relativeTo repo.name localFilePath with
    | none => Prog.throw .reviewInvalidRequest
    | some relative => ensurePathMutable repo relative

/-- An error after the publication was prepared: abort and return it. -/
def orAbort {α : Type} (localFilePath : String) (preparation : MavenPublicationPreparation) (m : StoreM α) : StoreM α := do
  match ← m.attempt with
  | .ok a => pure a
  | .error e =>
    abortMavenPublication localFilePath preparation
    Prog.throw e

def reserveUploadedFileQuota (upload : PreparedUpload) : StoreM Unit :=
  if upload.fileSize < 0 then Prog.throw .invalidUpload else act .quotaReserve id

/-- The steps whose error aborts the prepared publication. -/
def storeUpload (repo : Repository) (upload : PreparedUpload) (now : Int) : StoreM GPGUploadResult := do
  reserveUploadedFileQuota upload
  act .quotaCommit id
  processUploadedFileLocked repo upload now

def processUploadedFileWithReviewLocked (repo : Repository) (upload : PreparedUpload) (now : Int) :
    StoreM GPGUploadResult := do
  guardUpload repo upload.localFilePath
  let preparation ← prepareMavenPublication repo upload.localFilePath
  match ← orAbort upload.localFilePath preparation (storeUpload repo upload now) with
  | .published =>
    match ← finishMavenPublication repo upload preparation now with
    | some id => pure (.reviewPending id)
    | none => pure .published
  | pending => pure pending

end Renop.Storage
