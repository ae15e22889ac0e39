import Mathlib.Data.List.Sort
import Renop.CargoIndex
import Renop.Interleave
import Renop.Quota
import Renop.Review

/-!
# The Cargo registry service

The requests of `publish.go`, `yank.go` and `manage.go` and the decision on a Cargo publication review, as programs over
the catalog, the review tables, the quota ledger, the stored files and the set of blocked paths. A step of a program
is one call of the store or of the database, which takes effect as a whole or fails.

The requests hold the lock of their crate from the first step here on. What they check before they take it only
refuses requests, and they check it again afterwards. A decision takes no such lock.
-/

namespace Renop.Cargo

open Sql Interleave

/-! ### The state -/

/-- What a Cargo review keeps for its approval: `cargoPublicationReviewPayload`. -/
structure Publication where
  package : CargoPackage
  version : CargoVersion
  entry : IndexEntry
deriving DecidableEq, Repr

structure World where
  db : DB
  reviews : Review.ReviewDB
  quota : Quota.QuotaDB
  /-- The index files, by path. -/
  index : String → Option (List String)
  /-- The crate archives, by path. -/
  crates : String → Option String
  blocked : String → Bool
  /-- The rows of `package_deprecations`. -/
  deprecated : Key → Bool
  /-- Clean-ups of files that failed: they are counted or logged. -/
  failures : Nat

structure Repo where
  name : String
  policy : Review.Policy
  /-- There are upstream mirrors. -/
  mirrors : Bool

/-- The libraries, the configuration and what the tables of accounts and teams say. -/
structure Env where
  text : Text
  lib : IndexLib
  /-- `json.Marshal` and `json.Unmarshal` of a review payload. -/
  marshal : Publication → String
  unmarshal : String → Option Publication
  snapshots : Review.SnapshotJSON
  quotaText : Quota.Text
  /-- The default limits, if the quota is enabled. -/
  quotaDefaults : Option Quota.Limits
  access : Review.Access

inductive ServiceError
  | cargo (e : CargoError)
  | review (e : Review.ReviewError)
  | quota (e : Quota.QuotaError)
  | index (e : IndexError)
  | packageDeprecated
  | captcha
  /-- `errorResponse` -/
  | status (code : Nat) (detail : String)
  /-- A call of the store failed. -/
  | storage
deriving DecidableEq, Repr

/-- The calls that a request makes. -/
inductive StoreCall
  | ensureMutable
  | readPackage
  | readDetails
  | readReviews
  | readVersions
  | existsIndex
  | existsCrate
  | stageCrate
  | openIndex
  | stageIndex
  | reserveQuota
  | commitQuota
  | releaseQuota
  | commitCrate
  | deleteCrate
  | queueReview
  | commitIndex
  | deleteIndex
  | record
  | setArchived
  | deleteVersion
  | readTask
  | readPayload
  | decide
  | rollbackReview
  | block
  | unblock
  | logFailure
deriving DecidableEq, Repr

/-- A call, and whether it undoes an earlier one. -/
structure Step where
  call : StoreCall
  undo : Bool
deriving DecidableEq, Repr

abbrev Request (α : Type) := Proc World Step ServiceError α

/-! ### Paths -/

def cargoIndexPath (repo : Repo) (crateName : String) : String := repo.name ++ "/" ++ indexPath crateName

/-- Relative to the repository, as a review names it. -/
def crateRelativePath (packageName version : String) :
    String := "api/v1/crates/" ++ packageName ++ "/" ++ version ++ "/download"

def cratePath (repo : Repo) (packageName version : String) :
    String := repo.name ++ "/" ++ crateRelativePath packageName version

/-! ### Reads -/

section Reads
variable (env : Env)

def World.package? (w : World) (repository normalizedName : String) : Option CargoPackage :=
  w.db.packages.find? (sanitizeCargoKey env.text repository normalizedName)

/-- The rows of a package in `cargo_versions`. -/
def DB.versionsOf (db : DB) (key : Key) : List CargoVersion := db.versions.rows.filter fun v => v.key = key

/-- `GetUserProfile` -/
def World.userID (w : World) (username : String) : Option String :=
  let username := sanitizeCargoUsername env.text username
  if username = "" then none else (w.db.profileByName username).map (·.userID)

/-- `core.CargoPackageDetails` -/
structure Details where
  package : CargoPackage
  permissionLevel : Int
  versions : List CargoVersion

/-- `GetCargoPackageDetails` -/
def getCargoPackageDetails (w : World) (repository normalizedName username : String) : Except CargoError (Option Details) :=
  match w.package? env repository normalizedName with
  | none => pure none
  | some p => do
    let username := sanitizeCargoUsername env.text username
    let level ← match userIDForUsername env.text w.db username with
      | .error _ => pure 0
      | .ok userID => (cargoEffectivePermission w.db p.key userID).map (·.1)
    pure (some ⟨p, level, w.db.versionsOf p.key⟩)

/-- An account that asks for something. -/
structure User where
  username : String
  isManager : Bool

/-- `authorizePackageMutation` -/
def authorizePackageMutation (w : World) (user : User) (repository crateName : String) (level : Int) :
    Except ServiceError Details := do
  require (validateCrateName env.text crateName = true) (.status 400 "invalid Cargo crate name")
  let details ← (getCargoPackageDetails env w repository (normalizeCrateName env.text crateName) user.username).mapError
    .cargo
  let details ← orError details (.cargo .packageNotFound)
  require (user.isManager = true ∨ level ≤ details.permissionLevel) (.cargo .permissionDenied)
  pure details

/-- `ORDER BY created_at DESC, id DESC` -/
def laterFirst (t u : Review.ReviewTask) : Prop := u.createdAt < t.createdAt ∨ (u.createdAt = t.createdAt ∧ u.id ≤ t.id)

instance (t u : Review.ReviewTask) : Decidable (laterFirst t u) := inferInstanceAs (Decidable (_ ∨ _))

/-- Only the first task of each version. -/
def latestVersions (seen : List String) : List Review.ReviewTask → List Review.ReviewTask
  | [] => []
  | t :: ts =>
    if t.resourceVersion ∈ seen then latestVersions seen ts
    else t :: latestVersions (t.resourceVersion :: seen) ts

def listPublicationReviews (reviews : Review.ReviewDB) (repository : String) (type : Review.ResourceType)
    (resourceName : String) : Except ServiceError (List Review.ReviewTask) := do
  let repository := Review.sanitizeMavenRepository env.text repository
  let resourceName := sanitized env.text resourceName 512
  require (repository ≠ "" ∧ resourceName ≠ "") (.review .invalidRequest)
  let rows := reviews.tasks.rows.filter fun t =>
    t.kind = .publication ∧ t.repository = repository ∧ t.resourceType = type ∧ t.resourceName = resourceName
  pure (latestVersions [] ((rows.insertionSort laterFirst).take Review.maxPublicationReviewFiles))

def getReviewTaskPayload (reviews : Review.ReviewDB) (id : String) : Except ServiceError String := do
  let id := sanitized env.text id 64
  require (id ≠ "") (.review .taskNotFound)
  let row ← orError (reviews.payloads.find? id) (.review .taskNotFound)
  require (row.json ≠ "" ∧ row.json.utf8ByteSize ≤ Review.maxPublicationReviewPayload) (.review .invalidRequest)
  pure row.json

/-- The payload has to be of the task. -/
def cargoReviewPayload (reviews : Review.ReviewDB) (task : Review.ReviewTask) : Except ServiceError Publication := do
  require (task.resourceType = .cargoPackage) (.review .invalidRequest)
  let raw ← getReviewTaskPayload env reviews task.id
  let p ← orError (env.unmarshal raw) (.review .invalidRequest)
  require (validateCrateName env.text p.package.name = true) (.review .invalidRequest)
  let normalizedName := normalizeCrateName env.text p.package.name
  require (normalizedName = task.resourceKey ∧ p.package.repository = task.repository ∧
    p.version.version = task.resourceVersion ∧ p.entry.version = task.resourceVersion ∧
    env.lib.equalFold p.entry.name p.package.name = true ∧ env.lib.equalFold p.version.publisher task.requestedBy = true ∧
    p.entry.checksum ≠ "" ∧ p.entry.checksum = p.version.checksum ∧ 0 ≤ p.version.size ∧ 0 < p.version.createdAt)
    (.review .invalidRequest)
  pure { p with package := { p.package with normalizedName }
                version := { p.version with repository := task.repository, package := normalizedName } }

/-- The loop of `pendingPublicationReservation` over the tasks, with the name so far. -/
def reservedName? (reviews : Review.ReviewDB) (userID : String) :
    String → List Review.ReviewTask → Except ServiceError String
  | packageName, [] => pure packageName
  | packageName, task :: tasks =>
    if task.status ≠ .pending then reservedName? reviews userID packageName tasks
    else do
      require (task.requestedByID = userID) (.cargo .permissionDenied)
      let payload ← cargoReviewPayload env reviews task
      require (packageName = "" ∨ packageName = payload.package.name) (.review .resourceConflict)
      reservedName? reviews userID payload.package.name tasks

/-- The name that the user's own pending reviews reserve, if there are any. -/
def pendingPublicationReservation (w : World) (repository normalizedName username : String) :
    Except ServiceError (Option String) := do
  let tasks ← listPublicationReviews env w.reviews repository .cargoPackage normalizedName
  if tasks.all fun t => t.status ≠ .pending then pure none
  else do
    let userID ← orError (w.userID env username) (.cargo .permissionDenied)
    require (userID ≠ "") (.cargo .permissionDenied)
    let name ← reservedName? env w.reviews userID "" tasks
    pure (if name = "" then none else some name)

end Reads

/-! ### Index files -/

section IndexFiles
variable (env : Env)

/-- `stage.Commit` of an index file. -/
def commitIndex (undo : Bool) (path : String) (lines : List String) : Request Unit :=
  .tell ⟨.commitIndex, undo⟩ .storage fun w => .ok { w with index := Function.update w.index path (some lines) }

def deleteIndex (undo : Bool) (path : String) : Request Unit :=
  .tell ⟨.deleteIndex, undo⟩ .storage fun w => .ok { w with index := Function.update w.index path none }

/-- `Store.Open` -/
def openIndex (undo : Bool) (path : String) : Request (Option (List String)) :=
  .ask ⟨.openIndex, undo⟩ .storage fun w => .ok (w.index path)

/-- `Store.Stage` -/
def stageIndex (undo : Bool) : Request Unit := .ask ⟨.stageIndex, undo⟩ .storage fun _ => .ok ()

def rollbackCargoIndexVersion (path version : String) (indexExisted : Bool) : Request Unit :=
  if !indexExisted then deleteIndex true path
  else do
    let lines ← openIndex true path
    let lines ← Proc.ofExcept (orError lines (.status 500 "cargo index is missing during publication rollback"))
    stageIndex true
    let (out, removed) ← Proc.ofExcept ((rewriteRemoveVersion env.text env.lib lines version).mapError .index)
    Proc.ofExcept (require (removed = true) (.status 500 "cargo version is missing during publication rollback"))
    commitIndex true path out

def deleteCrate (undo : Bool) (path : String) : Request Unit :=
  .tell ⟨.deleteCrate, undo⟩ .storage fun w => .ok { w with crates := Function.update w.crates path none }

/-- A clean-up whose error is only counted or logged. -/
def cleanUp (p : Request Unit) : Request Unit := do
  match ← p.attempt with
  | .ok () => pure ()
  | .error _ => .modify ⟨.logFailure, false⟩ fun w => { w with failures := w.failures + 1 }

def rollbackPublication (indexPath cratePath version : String) (indexExisted : Bool) : Request Unit := do
  let deleted ← (deleteCrate true cratePath).attempt
  rollbackCargoIndexVersion env indexPath version indexExisted
  Proc.ofExcept deleted

end IndexFiles

/-! ### Publishing -/

/-- What the crate's manifest and the request say together. -/
structure Manifest where
  readme : String
  license : String
  repositoryURL : String
  homepage : String
  documentation : String
  rustVersion : String

structure PublishRequest where
  user : User
  name : String
  version : String
  description : String
  /-- `validatePublishMetadata` and `indexDependencies` accept the metadata. -/
  metadataValid : Bool
  /-- Dependencies, features and links of the index line. -/
  details : String
  crate : String
  /-- `crateLength` and the SHA-256 of the crate. -/
  crateLength : Int
  checksum : String
  /-- The crate as `validateArchive` reads it, if it accepts it. -/
  manifest : Option Manifest
  /-- `CanAllocateDiskSpace` -/
  diskSpace : Bool
  /-- The credential may create packages. -/
  mayCreate : Bool
  /-- `CheckUpdatePermission` -/
  mayUpdate : Bool
  captcha : Bool
  /-- What the mirrors say about the name, if they answer. -/
  upstream : Option Bool
  now : Int
  /-- When the quota reservation expires. -/
  expiresAt : Int
  /-- New ids for a review, a quota reservation and a profile. -/
  reviewID : String
  quotaID : String
  userID : String

/-- What `publish` has when it starts to write. -/
structure Prepared where
  packageExists : Bool
  /-- `quotaTeamPrefix` -/
  teamPrefix : String
  indexExisted : Bool
  /-- The staged index. -/
  lines : List String
  publication : Publication
  publishedVersions : Bool
  reviewRequired : Bool

section Publish
variable (env : Env) (repo : Repo) (req : PublishRequest)

def PublishRequest.entry : IndexEntry :=
  { name := req.name, version := req.version, checksum := req.checksum, yanked := false, details := req.details }

def PublishRequest.publication (manifest : Manifest) : Publication where
  package := {
    repository := repo.name, normalizedName := normalizeCrateName env.text req.name, name := req.name
    description := req.description, readme := manifest.readme, repositoryURL := manifest.repositoryURL
    homepage := manifest.homepage, documentation := manifest.documentation, superTeamPrefix := "", archived := false
    adminArchived := false, mirrored := false, createdAt := req.now, updatedAt := req.now }
  version := {
    repository := repo.name, package := normalizeCrateName env.text req.name, version := req.version
    description := req.description, publisher := req.user.username, size := req.crateLength, checksum := req.checksum
    rustVersion := manifest.rustVersion, license := manifest.license, repositoryURL := manifest.repositoryURL
    homepage := manifest.homepage, documentation := manifest.documentation, yanked := false, adminYanked := false
    archiveYanked := false, mirrored := false, createdAt := req.now }
  entry := req.entry

/-- The checks that read the request only. -/
def checkPublishRequest : Except ServiceError Unit := do
  require (req.user.isManager = false) (.cargo .permissionDenied)
  require (validatePackage env.text env.lib req.name req.version = true) (.status 400 "invalid Cargo crate")
  require (req.metadataValid = true) (.status 400 "invalid Cargo metadata")
  require (req.diskSpace = true) (.status 507 "Insufficient disk space to publish crate")

/-- A new package: its name must be free or the user's own. -/
def checkNewPackage (w : World) : Except ServiceError Unit := do
  let reserved ← pendingPublicationReservation env w repo.name (normalizeCrateName env.text req.name) req.user.username
  require (∀ name ∈ reserved, name = req.name) (.status 409 "Cargo crate name collides with a pending package")
  require (req.mayCreate = true) (.cargo .permissionDenied)
  require (req.mayUpdate = true) (.cargo .permissionDenied)
  require (reserved = none → req.captcha = true) .captcha

/-- A package that exists: the user may publish to it, and it has the name of the request. -/
def checkExistingPackage (w : World) : Except ServiceError Unit := do
  let details ← (getCargoPackageDetails env w repo.name (normalizeCrateName env.text req.name) req.user.username).mapError
    .cargo
  let details ← orError details (.cargo .permissionDenied)
  require (cargoPermissionPublish ≤ details.permissionLevel) (.cargo .permissionDenied)
  require (w.deprecated details.package.key = false) .packageDeprecated
  (ensureResourceMutable w.db details.package.key "").mapError .cargo
  require (details.package.archived = false) (.cargo .packageArchived)
  require (details.package.name = req.name) (.status 409 "Cargo crate name collides with an existing package")

def checkUpstream : Except ServiceError Unit :=
  if repo.mirrors then do
    let upstreamExists ← orError req.upstream (.status 503 "Failed to verify the Cargo crate name against upstream mirrors")
    require (upstreamExists = false) (.status 409 "An upstream crate already uses this name")
  else pure ()

/-- `reviewRequired`, when the package has published versions or not. -/
def reviewRequired (policy : Review.Policy) (publishedVersions : Bool) : Bool :=
  match policy with
  | .off => false
  | .everyVersion => true
  | .newPackages => !publishedVersions

/-- `CargoHasPublishedVersions`, which only one policy asks. -/
def readPublishedVersions (normalizedName : String) : Request Bool :=
  match repo.policy with
  | .newPackages => .ask ⟨.readVersions, false⟩ (.cargo .database) fun w =>
    .ok (w.db.versionsOf (sanitizeCargoKey env.text repo.name normalizedName) ≠ [])
  | _ => pure false

/-- The name of the request is free, or the package is open to the user. -/
def admitName (packageRecord : Option CargoPackage) : Request Unit :=
  match packageRecord with
  | none => do
    .ask ⟨.readReviews, false⟩ (.cargo .database) (checkNewPackage env repo req)
    .ask ⟨.existsIndex, false⟩ (.status 500 "Failed to inspect Cargo index") fun w =>
      require (w.index (cargoIndexPath repo req.name) = none)
        (.status 409 "A mirrored or unmanaged crate already uses this name")
    Proc.ofExcept (checkUpstream repo req)
  | some _ => .ask ⟨.readDetails, false⟩ (.cargo .database) (checkExistingPackage env repo req)

/-- The crate and the index are staged. -/
def stagePublication (packageRecord : Option CargoPackage) : Request Prepared := do
  .ask ⟨.existsCrate, false⟩ (.status 500 "Failed to inspect Cargo storage") fun w =>
    require (w.crates (cratePath repo req.name req.version) = none) (.cargo .versionExists)
  .ask ⟨.stageCrate, false⟩ (.status 500 "Failed to prepare Cargo storage") fun _ => .ok ()
  let manifest ← Proc.ofExcept (orError req.manifest (.status 400 "invalid Cargo crate archive"))
  let lines ← openIndex false (cargoIndexPath repo req.name)
  Proc.ofExcept (require (packageRecord = none → lines = none)
    (.status 409 "A mirrored or unmanaged crate already uses this name"))
  stageIndex false
  let out ← Proc.ofExcept ((rewriteIndex env.text env.lib (lines.getD []) req.entry).mapError .index)
  let publishedVersions ← readPublishedVersions env repo (normalizeCrateName env.text req.name)
  pure {
    packageExists := packageRecord.isSome
    teamPrefix := (packageRecord.map (·.superTeamPrefix)).getD ""
    indexExisted := lines.isSome, lines := out, publication := req.publication env repo manifest, publishedVersions
    reviewRequired := reviewRequired repo.policy publishedVersions }

/-- Everything up to the first write. -/
def preparePublication : Request Prepared := do
  Proc.ofExcept (checkPublishRequest env req)
  let normalizedName := normalizeCrateName env.text req.name
  .ask ⟨.ensureMutable, false⟩ (.cargo .database) fun w =>
    (ensureResourceMutable w.db (sanitizeCargoKey env.text repo.name normalizedName) req.version).mapError .cargo
  let packageRecord ← .ask ⟨.readPackage, false⟩ (.cargo .database) fun w =>
    .ok (w.package? env repo.name normalizedName)
  admitName env repo req packageRecord
  stagePublication env repo req packageRecord

def blockFile (path : String) : Request Unit := .modify ⟨.block, false⟩ fun w =>
    { w with blocked := Function.update w.blocked path true }

def unblockFile (path : String) : Request Unit := .modify ⟨.unblock, false⟩ fun w =>
    { w with blocked := Function.update w.blocked path false }

/-- Only a crate that needs a review is hidden. -/
def hide (reviewRequired : Bool) (path : String) : Request Unit := if reviewRequired then blockFile path else pure ()

def unhide (reviewRequired : Bool) (path : String) : Request Unit := if reviewRequired then unblockFile path else pure ()

/-- `publicationquota.Subject` -/
def quotaSubject (username teamPrefix : String) : Quota.Subject :=
  match Review.normalizeSuperTeamPrefix env.text teamPrefix with
  | some p => ⟨"super_team", p⟩
  | none => ⟨"user", env.text.toLower (env.text.trimSpace username)⟩

/-- `publicationquota.Reserve`: the id of the reservation; a publication that is free of charge has none. -/
def reserve (teamPrefix : String) (quota : Quota.QuotaDB) : Except ServiceError (Option String × Quota.QuotaDB) :=
  match env.quotaDefaults with
  | none => .ok (none, quota)
  | some defaults => do
    let delta : Quota.Amounts := ⟨1, Int64.ofInt req.crateLength, 1⟩
    let (claim, quota) ← (Quota.reservePublicationQuota env.quotaText quota (quotaSubject env req.user.username teamPrefix)
      defaults delta req.now req.expiresAt req.userID req.quotaID).mapError .quota
    .ok (if claim.unlimited then none else some claim.id, quota)

def reserveQuota (teamPrefix : String) : Request (Option String) :=
  .call ⟨.reserveQuota, false⟩ (.quota .database) fun w =>
    (reserve env req teamPrefix w.quota).map fun (id, quota) => (id, { w with quota })

/-- `Reservation.Commit` -/
def commitReservation (id : String) (quota : Quota.QuotaDB) : Except ServiceError Quota.QuotaDB :=
  (Quota.commitPublicationQuotaReservation env.quotaText quota id req.now).mapError .quota

def commitQuota (reservation : Option String) : Request Unit :=
  match reservation with
  | none => pure ()
  | some id => .tell ⟨.commitQuota, false⟩ (.quota .database) fun w =>
    (commitReservation env req id w.quota).map fun quota => { w with quota }

/-- The deferred release of a reservation that was not committed; its error is logged only. -/
def releaseQuota (reservation : Option String) : Request Unit :=
  match reservation with
  | none => pure ()
  | some id => do
    let _ ← Proc.attempt (.tell ⟨.releaseQuota, true⟩ (.quota .database) fun w =>
      .ok { w with quota := Quota.releasePublicationQuotaReservation env.quotaText w.quota id })
    pure ()

def commitCrate (path : String) : Request Unit :=
  .tell ⟨.commitCrate, false⟩ .storage fun w => .ok { w with crates := Function.update w.crates path (some req.crate) }

def publicationRequest (p : Publication) (publishedVersions : Bool) : Review.PublicationRequest where
  resourceType := some .cargoPackage
  repository := repo.name
  resourceKey := p.package.normalizedName
  resourceName := p.package.name
  version := p.version.version
  requestedBy := p.version.publisher
  policy := some repo.policy
  packageExists := publishedVersions
  reviewTeamPrefix := ""
  targetTeamPrefix := ""
  files := [⟨"", crateRelativePath p.package.name p.version.version, p.version.size, true, 0⟩]
  payload := env.marshal p
  createdAt := p.version.createdAt

/-- What the review tables ask about accounts is answered by the catalog's. -/
def World.access (w : World) : Review.Access :=
  { env.access with userID := fun name => (userIDForUsernameTx env.text w.db name).toOption }

/-- The transaction of `QueuePublicationReview`. -/
def createReview (p : Publication) (publishedVersions : Bool) (w : World) :
    Except Review.ReviewError (Review.ReviewDB × Review.PublicationResult) :=
  Review.createOrUpdatePublicationReview env.text (w.access env) w.reviews req.reviewID
    (publicationRequest env repo p publishedVersions)

def queuePublicationReview (p : Publication) (publishedVersions : Bool) : Request Review.PublicationResult :=
  .call ⟨.queueReview, false⟩ (.review .database) fun w =>
    ((createReview env repo req p publishedVersions w).map fun (reviews, result) =>
      (result, { w with reviews })).mapError .review

def recordPublication (p : Publication) (userID : String) : Request Unit :=
  .tell ⟨.record, false⟩ (.cargo .database) fun w =>
    ((recordCargoPublication env.text w.db p.package p.version p.version.publisher userID).map fun db =>
      { w with db }).mapError .cargo

/-- `quota.Reserve` and `quota.Commit`; a reservation that is not committed is released in the end. -/
def takeQuota (p : Prepared) (path : String) : Request Unit := do
  match ← (reserveQuota env req p.teamPrefix).attempt with
  | .error _ => do
    unhide p.reviewRequired path
    .throw (.status 429 "Cargo publication quota exceeded")
  | .ok reservation =>
    match ← (commitQuota env req reservation).attempt with
    | .error _ => do
      unhide p.reviewRequired path
      releaseQuota env reservation
      .throw (.status 503 "Cargo publication quota is unavailable")
    | .ok () => pure ()

/-- There is no review for the crate, so it cannot stay. -/
def abandonReview (path : String) : Request Unit := do
  cleanUp (deleteCrate true path)
  unblockFile path
  .throw (.status 500 "Failed to create Cargo publication review")

/-- The crate waits for a review. -/
def queueCrate (p : Prepared) (path : String) : Request Unit := do
  match ← (queuePublicationReview env repo req p.publication p.publishedVersions).attempt with
  | .ok ⟨true, _⟩ => pure ()
  | _ => abandonReview path

/-- The crate is published at once. -/
def exposeCrate (p : Prepared) (path : String) : Request Unit := do
  let indexFilePath := cargoIndexPath repo req.name
  match ← (commitIndex false indexFilePath p.lines).attempt with
  | .error _ => do
    cleanUp (deleteCrate true path)
    .throw (.status 500 "Failed to store Cargo index")
  | .ok () =>
    match ← (recordPublication env p.publication req.userID).attempt with
    | .error e => do
      cleanUp (rollbackPublication env indexFilePath path req.version p.indexExisted)
      .throw e
    | .ok () => pure ()

def storeCrate (p : Prepared) (path : String) : Request Unit := do
  match ← (commitCrate req path).attempt with
  | .error _ => do
    unhide p.reviewRequired path
    .throw (.status 500 "Failed to store crate")
  | .ok () => if p.reviewRequired then queueCrate env repo req p path else exposeCrate env repo req p path

def storePublication (p : Prepared) : Request Unit := do
  let path := cratePath repo req.name req.version
  hide p.reviewRequired path
  takeQuota env req p path
  storeCrate env repo req p path

def publish : Request Unit := do
  let p ← preparePublication env repo req
  storePublication env repo req p

end Publish

end Renop.Cargo
