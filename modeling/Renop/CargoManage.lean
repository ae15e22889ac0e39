import Renop.CargoService

/-!
# Archiving, deleting and approving

The other requests that rewrite an index file, `setPackageArchived` and `deleteVersion`, and the decision
on a publication review of a crate. All of them read the whole file, write it again and change the catalog in a
separate step.
-/

namespace Renop.Cargo

open Sql Interleave

def cargoPermissionVersion : Int := 2

section Manage
variable (env : Env) (repo : Repo) (user : User) (crateName : String)

/-! ### Archiving -/

/-- The map that a loop over the versions builds. -/
def flagMap (versions : List CargoVersion) (f : CargoVersion → Bool) : String → Option Bool :=
  fun version => (versions.find? fun v => v.version = version).map f

/-- The flag that a version will have. -/
def desiredYanked (archived : Bool) (v : CargoVersion) : Bool :=
  if archived then true else if v.archiveYanked && !v.adminYanked then false else v.yanked

def rewritePackageIndex (undo : Bool) (path : String) (desired : String → Option Bool) (count : Nat) : Request Unit := do
  let lines ← openIndex undo path
  let lines ← Proc.ofExcept (orError lines (.cargo .packageNotFound))
  stageIndex undo
  let (out, updated) ← Proc.ofExcept ((rewritePackageYanked env.text env.lib lines desired).mapError .index)
  Proc.ofExcept (require (updated = count) (.status 500 "cargo index version count does not match package metadata"))
  commitIndex undo path out

def setCargoPackageArchivedStep (p : CargoPackage) (archived : Bool) : Request Unit :=
  .tell ⟨.setArchived, false⟩ (.cargo .database) fun w =>
    ((setCargoPackageArchived env.text w.db repo.name p.normalizedName archived user.isManager).map fun db =>
      { w with db }).mapError .cargo

def setPackageArchived (archived : Bool) : Request Unit := do
  Proc.ofExcept (require (validateCrateName env.text crateName = true) (.status 400 "invalid Cargo crate name"))
  let details ← .ask ⟨.readDetails, false⟩ (.cargo .database) fun w =>
    authorizePackageMutation env w user repo.name crateName cargoPermissionOwner
  Proc.ofExcept (require (archived = true ∨ details.package.adminArchived = false ∨ user.isManager = true)
    (.cargo .adminArchived))
  if details.package.archived = archived ∧
      ¬ (archived = true ∧ user.isManager = true ∧ details.package.adminArchived = false) then pure ()
  else do
    let path := cargoIndexPath repo details.package.name
    (if details.versions = [] then pure ()
      else rewritePackageIndex env false path (flagMap details.versions (desiredYanked archived)) details.versions.length)
    match ← (setCargoPackageArchivedStep env repo user details.package archived).attempt with
    | .ok () => pure ()
    | .error e => do
      (if details.versions = [] then pure ()
        else cleanUp (rewritePackageIndex env true path (flagMap details.versions (·.yanked)) details.versions.length))
      .throw e

/-! ### Deleting -/

/-- The number of lines that are left; the last one is not removed here. -/
def removeVersionFromIndex (path version : String) : Request Nat := do
  let lines ← openIndex false path
  let lines ← Proc.ofExcept (orError lines (.cargo .versionNotFound))
  stageIndex false
  let (out, removed) ← Proc.ofExcept ((rewriteRemoveVersion env.text env.lib lines version).mapError .index)
  Proc.ofExcept (require (removed = true) (.cargo .versionNotFound))
  (if out = [] then pure () else commitIndex false path out)
  pure out.length

def deleteVersion (version : String) : Request Unit := do
  Proc.ofExcept (require (validatePackage env.text env.lib crateName version = true) (.status 400 "invalid Cargo crate"))
  let details ← .ask ⟨.readDetails, false⟩ (.cargo .database) fun w =>
    authorizePackageMutation env w user repo.name crateName cargoPermissionVersion
  Proc.ofExcept (require (∃ v ∈ details.versions, v.version = version) (.cargo .versionNotFound))
  let path := cargoIndexPath repo details.package.name
  let remaining ← removeVersionFromIndex env path version
  (if remaining = 0 then deleteIndex false path else pure ())
  deleteCrate false (cratePath repo details.package.name version)
  .tell ⟨.deleteVersion, false⟩ (.cargo .database) fun w =>
    ((deleteCargoVersion env.text w.db repo.name details.package.normalizedName version).map fun db =>
      { w with db }).mapError .cargo

end Manage

/-! ### Decisions -/

/-- What the rollback of an approval has to know. -/
structure Approved where
  publication : Publication
  previous : Option CargoPackage
  indexExisted : Bool

/-- A decision on a review, by a moderator of the repository. -/
structure Decision where
  id : String
  actor : String
  moderates : Bool
  approve : Bool
  reason : String
  now : Int
  /-- A new id for a profile. -/
  userID : String

section Decisions
variable (env : Env) (repo : Repo)

def approvePublicationReview (task : Review.ReviewTask) (userID : String) : Request Approved := do
  let p ← .ask ⟨.readPayload, false⟩ (.review .database) fun w => cargoReviewPayload env w.reviews task
  Proc.ofExcept (require (task.repository = repo.name) (.review .resourceConflict))
  let previous ← .ask ⟨.readPackage, false⟩ (.cargo .database) fun w =>
    .ok (w.package? env task.repository task.resourceKey)
  .ask ⟨.ensureMutable, false⟩ (.cargo .database) fun w =>
    (ensureResourceMutable w.db (sanitizeCargoKey env.text task.repository task.resourceKey) task.resourceVersion).mapError
      .cargo
  let path := cargoIndexPath repo p.package.name
  let lines ← openIndex false path
  stageIndex false
  let out ← Proc.ofExcept ((rewriteIndex env.text env.lib (lines.getD []) p.entry).mapError .index)
  commitIndex false path out
  match ← (recordPublication env p userID).attempt with
  | .error e => do
    let _ ← (rollbackCargoIndexVersion env path task.resourceVersion lines.isSome).attempt
    .throw e
  | .ok () => pure ⟨p, previous, lines.isSome⟩

/-- The rollback that `ApprovePublicationReview` returns; both parts are tried. -/
def rollbackApproval (task : Review.ReviewTask) (a : Approved) : Request Unit := do
  let metadata ← Proc.attempt (.tell ⟨.rollbackReview, true⟩ (.cargo .database) fun w =>
    ((rollbackCargoPublicationReview env.text w.db task.repository task.resourceKey task.resourceVersion a.previous).map
      fun db => { w with db }).mapError .cargo)
  rollbackCargoIndexVersion env (cargoIndexPath repo a.publication.package.name) task.resourceVersion a.indexExisted
  Proc.ofExcept metadata

def decideReview (task : Review.ReviewTask) (d : Decision) (decision : Review.ReviewStatus) (reason : String) :
    Request Unit :=
  .tell ⟨.decide, false⟩ (.review .database) fun w =>
    -- an approval that is turned into a cancellation is one of another kind of task
    ((Review.decideReviewTask env.text env.snapshots env.access w.reviews task.id d.actor decision reason d.now).map
      fun (reviews, _, _) => { w with reviews }).mapError .review

/-- The pending task, and the files of it. -/
def readPendingTask (reviews : Review.ReviewDB) (d : Decision) :
    Except ServiceError (Review.ReviewTask × List Review.ReviewFile) := do
  require (d.moderates = true) (.review .permissionDenied)
  let task ← orError (reviews.tasks.find? (sanitized env.text d.id 64)) (.review .taskNotFound)
  require (task.kind = .publication ∧ task.resourceType = .cargoPackage ∧ task.reviewTeamPrefix = "")
    (.review .invalidRequest)
  require (task.status = .pending) (.review .taskConflict)
  require (Review.publicationReviewSettleMillis ≤ d.now - Review.updatedAt reviews task) (.review .publicationActive)
  pure (task, reviews.files.rows.filter fun f => f.taskID = task.id)

/-- `IsPublicationReviewPathPending` -/
def reviewPathPending (reviews : Review.ReviewDB) (repository path : String) : Bool :=
  reviews.files.rows.any fun f => f.path = path && reviews.tasks.rows.any fun t =>
    t.id = f.taskID && t.kind = .publication && t.status = .pending && t.repository = repository

/-- `UnblockPublicationReviewFiles` -/
def unblockReviewFiles (repository : String) : List Review.ReviewFile → Request Unit
  | [] => pure ()
  | f :: fs => do
    let pending ← .ask ⟨.readReviews, false⟩ (.review .database) fun w =>
      .ok (reviewPathPending w.reviews repository f.path)
    (if pending then pure () else unblockFile (repository ++ "/" ++ f.path))
    unblockReviewFiles repository fs

/-- `DeletePublicationReviewFiles`: the first error is returned in the end. -/
def deleteReviewFiles (repository : String) : List Review.ReviewFile → Request Unit
  | [] => pure ()
  | f :: fs => do
    let deleted ← Proc.attempt (deleteCrate false (repository ++ "/" ++ f.path))
    (match deleted with
      | .ok () => unblockFile (repository ++ "/" ++ f.path)
      | .error _ => pure ())
    deleteReviewFiles repository fs
    Proc.ofExcept deleted

/-- `decidePublicationTask` of a Cargo task. -/
def decidePublicationTask (d : Decision) : Request Unit := do
  let (task, files) ← .ask ⟨.readTask, false⟩ (.review .database) fun w => readPendingTask env w.reviews d
  if d.approve then
    let approved ← approvePublicationReview env repo task d.userID
    match ← (decideReview env task d .approved "").attempt with
    | .error e => do
      let _ ← (rollbackApproval env repo task approved).attempt
      .throw e
    | .ok () => unblockReviewFiles task.repository files
  else do
    deleteReviewFiles task.repository files
    decideReview env task d .rejected d.reason

end Decisions

end Renop.Cargo
