import Renop.StorageUpload

/-!
# The GPG publisher

`gpg_worker.go`: a release is claimed, verified outside of `gpgReleaseStorageMutation`, and published or failed under
it. `validateClaim`, `verifyClaim` and `ensureReleaseDigests` are the unlocked part of `publishGPGRelease`, split where
it reads a file, and `publishClaimed` is the locked part. A terminal release is cleaned up at once or, when that fails,
when the queue is next inspected.
-/

namespace Renop.Storage
open Crash Renop.Index

/-- The OpenPGP check and the hash functions. -/
structure Crypto where
  /-- The check of `gpg.VerifyDetached` for an uploader, on the bytes of the artifact and of the signature: the
  fingerprint of the key that signed. -/
  verifyDetached : String → Bytes → Bytes → Option String
  /-- `HashFile` -/
  hashFile : Bytes → ContentDigests

def gpgPendingTTL : Int := 15 * 60 * 1000

def gpgOptionalSignatureGrace : Int := 5 * 1000

/-! ### The queue -/

namespace GPGRelease

def hasArtifact (r : GPGRelease) : Bool := r.artifact.stagingPath.isSome

def hasSignature (r : GPGRelease) : Bool := r.signature.stagingPath.isSome

/-- `gpgReleaseReadyForValidation` -/
def readyForValidation (r : GPGRelease) : Bool :=
  (r.hasArtifact && r.hasSignature) || (r.hasSignature && !r.hasArtifact && r.artifact.existed) ||
    (r.hasArtifact && !r.hasSignature && !r.requireSignature)

/-- The `WHERE` of `ClaimNextGPGRelease`. -/
def claimable (r : GPGRelease) (optionalReadyBefore : Int) : Bool :=
  r.status = .queued && ((r.hasSignature && r.hasArtifact) ||
    (r.hasSignature && !r.hasArtifact && r.artifact.existed && r.createdAt ≤ optionalReadyBefore) ||
    (r.hasArtifact && !r.hasSignature && !r.requireSignature && r.createdAt ≤ optionalReadyBefore))

/-- `validateReleaseStagingPaths`: the staged files lie in the directory of the release. -/
def stagingPathsValid (r : GPGRelease) : Bool :=
  [r.artifact.stagingPath, r.signature.stagingPath].all fun path => path.all fun path => path.release = r.id

end GPGRelease

def claimNextGPGRelease (now : Int) : StoreM (Option GPGRelease) :=
  Prog.step (.step .claimRelease) fun s =>
    let claimable := s.releases.filter fun r => r.claimable (now - gpgOptionalSignatureGrace)
    match claimable.mergeSort fun a b => a.createdAt < b.createdAt || (a.createdAt = b.createdAt && a.id ≤ b.id) with
    | [] => .ok (none, s)
    | r :: _ =>
      .ok (some { r with status := .validating }, { s with releases := s.releases.map fun q =>
        if q.id = r.id ∧ q.status = .queued then { q with status := .validating } else q })

def validateReleaseStagingPaths (r : GPGRelease) : StoreM Unit :=
  if r.stagingPathsValid then pure () else Prog.throw .gpgStagingPath

/-- Read a quarantined file. -/
def readStaged (path : StagingPath) : StoreM Bytes :=
  Prog.step (.step (.readStaged path)) fun s =>
    match s.quarantine path with
    | none => .error .notExist
    | some bytes => .ok (bytes, s)

/-- `openStoredArtifact` -/
def readStored (path : String) : StoreM Bytes :=
  Prog.step (.step (.openStored path)) fun s =>
    match s.bytesAt path with
    | none => .error .notExist
    | some bytes => .ok (bytes, s)

/-! ### Validation, outside of the lock -/

/-- The checks before `verifyGPGRelease` and its read of the signature. -/
def validateClaim (r : GPGRelease) : StoreM (Repository × Option Bytes) := do
  validateReleaseStagingPaths r
  match ← Prog.read fun s => s.repository? r.repository with
  | none => Prog.throw .gpgRepositoryMissing
  | some repo =>
    Prog.when (repo.format = .maven) (ensurePathMutable repo r.artifactPath)
    match r.signature.stagingPath with
    | none => if r.requireSignature then Prog.throw .gpgSignatureInvalid else pure (repo, none)
    | some path =>
      if r.signature.size < 0 ∨ maxDetachedSignatureSize < r.signature.size then Prog.throw .gpgSignatureLarge
      else do
        let bytes ← readStaged path
        if maxDetachedSignatureSize < bytes.toList.length then Prog.throw .gpgSignatureLarge else pure (repo, some bytes)

/-- What `verifyGPGRelease` found: the record, and the bytes it was found on. -/
structure Verification where
  record : GPGSignature
  artifact : Bytes
  signature : Bytes
deriving DecidableEq, Repr

/-- The artifact that is verified: the staged one, or the stored one. -/
def readArtifact (r : GPGRelease) : StoreM Bytes :=
  match r.artifact.stagingPath with
  | some path => readStaged path
  | none => readStored r.localArtifactPath

/-- `verifyGPGRelease` once it has read the signature. -/
def verifyGPGRelease (crypto : Crypto) (r : GPGRelease) (signature : Option Bytes) : StoreM (Option Verification) :=
  match signature with
  | none => pure none
  | some signature => do
    let artifact ← readArtifact r
    match crypto.verifyDetached r.uploader artifact signature with
    | none => Prog.throw .gpgSignatureInvalid
    | some fingerprint =>
      pure (some ⟨⟨artifactKey r.repository r.artifactPath, fingerprint, r.uploader.toLower⟩, artifact, signature⟩)

/-- The verification and the check after it. -/
def verifyClaim (crypto : Crypto) (repo : Repository) (r : GPGRelease) (signature : Option Bytes) :
    StoreM (Option Verification) := do
  let verification ← verifyGPGRelease crypto r signature
  if r.hasArtifact && r.artifact.existed && !repo.allowRedeployment then Prog.throw .redeploymentDenied
  else pure verification

/-- The digests of a staged file, hashed when the upload brought none. -/
def ensureDigests (crypto : Crypto) (staged : Staged) : StoreM Staged :=
  match staged.stagingPath with
  | none => pure staged
  | some path =>
    if staged.generateChecksums && staged.digests.sha512 = "" then do
      let bytes ← readStaged path
      pure { staged with digests := crypto.hashFile bytes }
    else pure staged

def ensureReleaseDigests (crypto : Crypto) (r : GPGRelease) : StoreM GPGRelease := do
  let artifact ← ensureDigests crypto r.artifact
  let signature ← ensureDigests crypto r.signature
  pure { r with artifact := artifact, signature := signature }

/-! ### Publication, under the lock -/

/-- `publishPreparedReleaseFile`: a copy of the quarantined file is committed. -/
def publishPreparedReleaseFile (localPath : String) (stagingPath : StagingPath) (size modTime : Int)
    (existed wantChecksums : Bool) (digests : Option ContentDigests) : StoreM Unit := do
  let bytes ← readStaged stagingPath
  commitUploadedFile localPath bytes size modTime existed wantChecksums digests

/-- A staged part of the release; its digests count only with `generateChecksums`. -/
def publishStaged (localPath : String) (staged : Staged) : StoreM Unit :=
  match staged.stagingPath with
  | none => pure ()
  | some path =>
    publishPreparedReleaseFile localPath path staged.size staged.modTime staged.existed staged.generateChecksums
      (if staged.generateChecksums then some staged.digests else none)

/-- The targets of the checksum companions, in the order of `stagedGPGCompanions`. -/
def companionTargets (localArtifactPath : String) : List (StagingName × String) :=
  Digest.all.flatMap fun d =>
    [(.companion .artifact d, localArtifactPath ++ d.ext), (.companion .signature d, localArtifactPath ++ ".asc" ++ d.ext)]

/-- `stagedGPGCompanions`: the companions that are in the quarantine. -/
def stagedGPGCompanions (release : Nat) : List (StagingName × String) → StoreM (List (StagingName × String))
  | [] => pure []
  | target :: rest => do
    let staged ← query (.statStaged target.1) fun s => (s.quarantine ⟨release, target.1⟩).isSome
    let companions ← stagedGPGCompanions release rest
    pure (if staged then target :: companions else companions)

def publishStagedGPGCompanions (release : Nat) (localArtifactPath : String) : StoreM Unit := do
  let companions ← stagedGPGCompanions release (companionTargets localArtifactPath)
  Prog.forEach companions fun (name, target) => do
    let existed ← Prog.read fun s => s.pathExistsForUpload target
    let size ← query (.statStaged name) fun s => ((s.quarantine ⟨release, name⟩).map fun b => b.toList.length).getD 0
    publishPreparedReleaseFile target ⟨release, name⟩ size 0 existed false none

/-- `publicationReviewFilesForRelease`: the published files of the release. -/
def publicationReviewFilesForRelease (r : GPGRelease) (now : Int) : StoreM (List ReviewFile) := do
  let stored ← query .reviewFiles fun s => (releaseBlockedPaths r).filterMap fun path =>
    (s.bytesAt path).map fun bytes => (path, bytes)
  let files := stored.filterMap fun (path, bytes) => (relativeTo r.repository path).map fun relative =>
    (⟨relative, bytes.toList.length, false, now⟩ : ReviewFile)
  if files = [] then Prog.throw .reviewFileNotFound else pure files

def saveGPGSignature (record : GPGSignature) : StoreM Unit :=
  act .saveSignature fun s => { s with signatures := fun k => if k = record.artifactKey then some record else s.signatures k }

def saveVerification : Option GPGSignature → StoreM Unit
  | none => pure ()
  | some record => saveGPGSignature record

/-- `preservePublicationReviewBlock` keeps the block when the query fails. -/
def unblockReleasePaths (r : GPGRelease) : StoreM Unit :=
  Prog.forEach (releaseBlockedPaths r) fun path =>
    match repositoryArtifactPath path with
    | none => pure ()
    | some (repository, relative) => do
      match ← (query .reviewFiles fun s => s.reviewPathPending repository relative).attempt with
      | .ok false => updateIndex fun idx => idx.unblockFile path
      | _ => pure ()

def reindexReleasePaths (r : GPGRelease) : StoreM Unit := Prog.forEach (releaseBlockedPaths r) reindexPathIfPresent

def cleanupPublishedReleaseFiles (r : GPGRelease) : StoreM Unit :=
  let path := r.localArtifactPath
  if r.hasArtifact then
    joinErrors [deleteIndexedFile path, removeArtifactChecksums path,
      removeArtifactSignature r.repository r.artifactPath path] none
  else if r.hasSignature then removeArtifactSignature r.repository r.artifactPath path
  else pure ()

def removeReleaseStagingFiles (r : GPGRelease) : StoreM Unit := do
  validateReleaseStagingPaths r
  act .removeQuarantine fun s => s.clearQuarantine r.id

/-- `cleanupTerminalGPGRelease` up to the last save of the row. -/
def endGPGRelease (r : GPGRelease) : StoreM Unit := do
  Prog.when (r.status = .failed ∧ r.publishStarted) (cleanupPublishedReleaseFiles r)
  removeReleaseStagingFiles r
  saveGPGRelease { r with activeKey := none, cleanupPending := false }

def cleanupTerminalGPGRelease (r : GPGRelease) : StoreM Unit :=
  if !r.cleanupPending then pure ()
  else do
    endGPGRelease r
    unblockReleasePaths r
    Prog.when (r.status = .failed ∧ !r.publishStarted) (reindexReleasePaths r)

/-- The files of the release, the signature record and the review hook. -/
def publishReleaseFiles (repo : Repository) (r : GPGRelease) (record : Option GPGSignature) (now : Int) : StoreM Unit := do
  let path := r.localArtifactPath
  Prog.when r.hasArtifact do
    removeArtifactChecksums path
    removeArtifactSignature r.repository r.artifactPath path
  publishStaged path r.artifact
  Prog.when (r.hasSignature ∧ !r.hasArtifact) (removeArtifactSignature r.repository r.artifactPath path)
  publishStaged (path ++ ".asc") r.signature
  publishStagedGPGCompanions r.id path
  saveVerification record
  Prog.when (repo.format = .maven) do
    let files ← publicationReviewFilesForRelease r now
    let _ ← processPublishedFiles repo r.uploader files now

/-- The row that is published: the current one, with the digests of the validated copy. -/
def GPGRelease.started (current r : GPGRelease) : GPGRelease :=
  { current with
    artifact := { current.artifact with digests := r.artifact.digests }
    signature := { current.signature with digests := r.signature.digests }
    publishStarted := true }

/-- The row of a publication that is over. -/
def GPGRelease.published (r : GPGRelease) : GPGRelease :=
  { r with status := .success, activeKey := none, failureReason := "", cleanupPending := true }

/-- `publishGPGRelease` from the lock on, for the claimed and validated release `r`. -/
def publishClaimed (r : GPGRelease) (record : Option GPGSignature) (now : Int) : StoreM Unit := do
  match ← getActiveGPGRelease r.activeKey with
  | none => Prog.throw .gpgReleaseInactive
  | some current =>
    if current.id ≠ r.id ∨ current.status ≠ .validating then
      if current.id = r.id ∧ current.cleanupPending then
        match ← (cleanupTerminalGPGRelease current).attempt with
        | .ok () => Prog.throw .gpgReleaseInactive
        | .error e => Prog.throw (.join .gpgReleaseInactive e)
      else Prog.throw .gpgReleaseInactive
    else
      match ← Prog.read fun s => s.repository? current.repository with
      | none => Prog.throw .gpgRepositoryMissing
      | some repo =>
        if current.hasArtifact && current.artifact.existed && !repo.allowRedeployment then
          Prog.throw .redeploymentDenied
        else if current.localArtifactPath ≠ r.localArtifactPath then Prog.throw .storagePathChanged
        else do
          let release := current.started r
          saveGPGRelease release
          publishReleaseFiles repo release record now
          saveGPGRelease release.published
          unblockReleasePaths release.published
          reindexReleasePaths release.published
          cleanupTerminalGPGRelease release.published

/-! ### Failure and expiry -/

def GPGRelease.asFailed (r : GPGRelease) (reason : String) : GPGRelease :=
  { r with status := .failed, failureReason := reason, cleanupPending := true }

def failGPGRelease (r : GPGRelease) (reason : String) : StoreM Unit := do
  saveGPGRelease (r.asFailed reason)
  cleanupTerminalGPGRelease (r.asFailed reason)

def failClaimedGPGRelease (claimed : GPGRelease) (reason : String) : StoreM Unit := do
  match ← getActiveGPGRelease claimed.activeKey with
  | none => pure ()
  | some current =>
    if current.id ≠ claimed.id then pure ()
    else if current.status ≠ .validating then
      if current.cleanupPending then cleanupTerminalGPGRelease current else pure ()
    else failGPGRelease current reason

def expireGPGReleaseIfIncomplete (observed : GPGRelease) (now : Int) : StoreM Unit := do
  match ← getActiveGPGRelease observed.activeKey with
  | none => pure ()
  | some current =>
    if current.id ≠ observed.id ∨ current.status ≠ .queued ∨ now - current.createdAt < gpgPendingTTL ∨
        current.readyForValidation then pure ()
    else failGPGRelease current (if current.hasArtifact then
      "Detached GPG signature was not uploaded before the publication deadline"
      else "Maven artifact was not uploaded before the publication deadline")

/-- `discardPendingGPGUploads` of a file or a directory that is deleted. -/
def discardPendingGPGUploads (localPrefix reason : String) : StoreM Unit := do
  let releases ← query .activeRelease Store.pendingReleases
  Prog.forEach releases fun r =>
    if r.activeKey = none ∨ (r.localArtifactPath ≠ localPrefix ∧ !hasPrefix r.localArtifactPath (localPrefix ++ "/"))
      then
      pure ()
    else saveGPGRelease (r.asFailed reason)

/-! ### Restart -/

/-- `ResetValidatingGPGReleases` -/
def resetValidatingGPGReleases : StoreM Unit :=
  act (.saveRelease .queued) fun s => { s with releases := s.releases.map fun r =>
    if r.status = .validating ∧ r.activeKey.isSome then { r with status := .queued } else r }

/-- `cleanupOrphanGPGQuarantine`: only the directories of pending releases stay. -/
def cleanupOrphanGPGQuarantine (releases : List GPGRelease) : StoreM Unit :=
  act .removeQuarantine fun s => { s with quarantine := fun path =>
    if (releases.any fun r => r.id = path.release) then s.quarantine path else none }

def restoreGPGReleaseState : StoreM Unit := do
  resetValidatingGPGReleases
  let releases ← query .activeRelease Store.pendingReleases
  Prog.forEach releases fun r => do
    validateReleaseStagingPaths r
    Prog.when (r.status ≠ .success) (blockReleasePaths r)
  cleanupOrphanGPGQuarantine releases

end Renop.Storage
