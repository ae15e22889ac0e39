import Renop.Index
import Renop.Npm
import Renop.PublicationQuota

/-!
# Publishing to npm

The publish request of `publish.go`, as a program over the catalog, the review tables, the quota ledger, the stored
tarballs and the set of blocked paths. A step of the program is one call of the store or of the database, which takes effect
as a whole or fails. The requests for one package hold its lock when they write, so a request runs alone here.

A failed request takes back what it has stored, but not the quota (`publish_taken_back`).
-/

namespace Renop.NpmService

open Sql Cargo Interleave Npm

/-! ### Names -/

section Names
variable (text : Text) (semver : Semver)

def nameChar (c : Char) : Bool := c.isLower || c.isDigit || c ∈ ['-', '_', '.', '~']

def validNPMSegment : List Char → Bool
  | [] => false
  | c :: cs => (c.isLower || c.isDigit) && cs.all nameChar

def normalizePackageName (value : String) : Option String :=
  let value := text.toLower (text.trimSpace value)
  if value = "" ∨ 214 < value.utf8ByteSize ∨ value = "node_modules" ∨ value = "favicon.ico" then none
  else if value.toList.head? = some '@' then
    match value.toList.splitOn '/' with
    | [scope, name] => if 2 ≤ scope.length && validNPMSegment scope.tail && validNPMSegment name then some value else none
    | _ => none
  else if '/' ∈ value.toList || !validNPMSegment value.toList then none
  else some value

def validNPMVersion (value : String) : Bool :=
  let value := text.trimSpace value
  value ≠ "" && value.utf8ByteSize ≤ 128 && semver.isValid ("v" ++ value)

def npmTagConflictsWithVersionRange (value : String) : Bool :=
  let lower := (text.toLower value).toList
  if value = "" then false
  else if semver.isValid ("v" ++ value) then true
  else if lower = ['*'] || (lower.head? = some 'v' && lower.tail.head?.any (·.isDigit)) then true
  else if lower.head?.any (· ∈ ['<', '>', '=', '~', '^']) then true
  else lower.all (fun c => c.isDigit || c ∈ ['.', 'x', '*', '-', '|', ' ']) && lower.any (·.isDigit)

def validNPMTag (value : String) : Bool :=
  let value := text.toLower (text.trimSpace value)
  value ≠ "" && value.utf8ByteSize ≤ 128 && !npmTagConflictsWithVersionRange text semver value && value.toList.all
    nameChar

/-- What follows the last slash. -/
def baseName (packageName : String) : String :=
  String.ofList ((packageName.toList.splitOn '/').getLast?.getD [])

def canonicalTarballPath (packageName version : String) : String :=
  Index.pathClean (packageName ++ "/-/" ++ baseName packageName ++ "-" ++ version ++ ".tgz")

example : canonicalTarballPath "@acme/cli" "1.0.0" = "@acme/cli/-/cli-1.0.0.tgz" := by decide

/-- `ParseInt` of what stands before the first dash; a text that is no number counts as zero. -/
def parseRevision (value : String) : Int :=
  let digits := (text.trimSpace value).toList.takeWhile (· ≠ '-')
  let digits := if digits.head? = some '+' then digits.tail else digits
  if digits ≠ [] ∧ digits.all (·.isDigit) = true then
    min (digits.foldl (fun n c => 10 * n + (c.toNat - 48 : Nat)) 0 : Nat) (2 ^ 63 - 1)
  else 0

end Names

/-! ### Requests -/

/-- The fields of a version's manifest that are read here. -/
structure Manifest where
  name : String
  version : String
  description : Option String
  deprecated : String

structure Attachment where
  name : String
  data : String
  length : Int
deriving DecidableEq, Repr

structure PublishDocument where
  id : String
  revision : String
  name : String
  description : String
  distTags : StringMap
  /-- The versions with their manifests, as they were sent. -/
  versions : StringMap
  attachments : Table Attachment.name

/-- A tarball after `stageAttachment`. -/
structure Tarball where
  content : String
  size : Int
  shasum : String
  integrity : String

/-- JSON, Base64 and hashes, tar archives and paths. -/
structure Lib where
  equalFold : String → String → Bool
  /-- `json.Unmarshal` -/
  manifest : String → Option Manifest
  /-- `json.Marshal` after `setCanonicalDist`; the text is that of the manifest that was sent. -/
  canonical : (raw tarballPath publisher : String) → Tarball → Option String
  /-- The attachment decoded and hashed. -/
  decode : String → Option Tarball
  /-- `validateTarball` of a content for a package and a version. -/
  validateTarball : String → String → String → Except String Unit
  /-- `IsSubPath` of the storage path. -/
  isSubPath : String → Bool

structure Repo where
  name : String
  policy : Review.Policy

structure PublishRequest where
  username : String
  /-- `canWriteRepository` -/
  canWrite : Bool
  /-- `IsManager` or `CheckUpdatePermission` -/
  mayUpdate : Bool
  publishScope : Bool
  lifecycleScope : Bool
  /-- One of the publish slots is free. -/
  slotFree : Bool
  freeDiskSpace : Int
  /-- `decodePublishDocument`; without a reason the body was too large. -/
  document : Except (Option String) PublishDocument
  now : Int
  /-- When the quota reservation expires. -/
  expiresAt : Int
  /-- New ids for a review, a quota reservation and a profile. -/
  reviewID : String
  quotaID : String
  userID : String

/-! ### The state -/

structure World where
  catalog : Catalog
  /-- `super_team_prefix` of the package. -/
  superTeamPrefix : String
  reviews : Review.ReviewDB
  quota : Quota.QuotaDB
  /-- The stored tarballs, by path. -/
  tarballs : String → Option String
  blocked : String → Bool
  /-- `FailuresCount` -/
  failures : Nat

/-- The libraries, the configuration and what the tables of accounts and teams say. -/
structure Env where
  text : Text
  semver : Semver
  lib : Lib
  storagePath : String
  /-- `json.Marshal` of a review payload. -/
  marshal : (repository packageName : String) → Npm.Publication → NPMVersion → StringMap → String
  quotaText : Quota.Text
  /-- The default limits, if the quota is enabled. -/
  quotaDefaults : Option Quota.Limits
  access : Review.Access
  outside : Outside

inductive Failure
  /-- `npmError` -/
  | response (status : Nat) (code reason : String)
  | npm (e : NPMError)
  | review (e : Review.ReviewError)
  | quota (e : Quota.QuotaError)
  | database
  | storage
deriving DecidableEq, Repr

/-- The calls that a request makes. -/
inductive Step
  | readAccess
  | updatePackument
  | ensureMutable
  | readAccessAgain
  | existsTarball
  | stageTarball
  | writeTarball
  | openTarball
  | readPackage
  | reserveQuota
  | commitQuota
  | releaseQuota
  | commitTarball
  | queueReview
  | record
  | deleteTarball
  | block
  | unblock
  | countFailure
deriving DecidableEq, Repr

abbrev Request (α : Type) := Proc World Step Failure α

section Errors

def npmPackageMutationError : Failure → Failure
  | .npm .resourceLocked => .response 423 "resource_locked" "npm resource is locked"
  | _ => .response 500 "metadata_failure" "Failed to inspect npm package state"

def lifecycleError : Failure → Failure
  | .npm .resourceLocked => npmPackageMutationError (.npm .resourceLocked)
  | .npm .packageNotFound => .response 404 "not_found" "npm package or version was not found"
  | .npm .versionNotFound => .response 404 "not_found" "npm package or version was not found"
  | .npm .permissionDenied => .response 403 "forbidden" "npm package lifecycle permission is required"
  | .npm .revisionConflict => .response 409 "conflict" "npm package metadata changed; fetch it again"
  | _ => .response 500 "metadata failure" "failed to update npm package metadata"

/-- What a publication answers when the catalog refuses it. -/
def recordError : Failure → Failure
  | .npm .resourceLocked => npmPackageMutationError (.npm .resourceLocked)
  | .npm .versionExists => .response 409 "version already exists" "npm package versions are immutable"
  | .npm .permissionDenied => .response 403 "forbidden" "npm package publish permission is required"
  | .npm .packageArchived => .response 409 "package unavailable" "npm package is archived"
  | .npm .packageMirrored => .response 409 "package unavailable" "mirrored npm package is pull-only"
  | .npm .packageLimit => .response 413 "package metadata limit" "npm package metadata limit reached"
  | _ => .response 500 "metadata failure" "failed to record npm package metadata"

/-- `publicationquota.ErrorCode` -/
def errorCode : Failure → String
  | .quota .fileLimit => "publication_file_quota"
  | .quota .byteLimit => "publication_byte_quota"
  | .quota .countLimit => "publication_count_quota"
  | _ => "publication_quota_unavailable"

def badRequest (code reason : String) : Failure := .response 400 code reason

end Errors

/-! ### Checks -/

section Checks
variable (env : Env) (repo : Repo) (packageName : String) (req : PublishRequest)

def maxTarballSize : Int := 64 * 2 ^ 20

def maxStoredManifestJSON : Nat := 4 * 2 ^ 20

def maxPublishAttachmentData : Nat := (64 * 2 ^ 20 + 2) / 3 * 4

/-- The request is of an account. -/
def loggedIn (code reason : String) : Except Failure Unit :=
  require (req.username ≠ "" ∧ env.lib.equalFold req.username "guest" = false) (.response 401 code reason)

/-- `GetNPMPackageAccess`: the package exists, is published here and is open to the user. -/
def checkAccess (w : World) : Except Failure Unit := do
  let p ← orError w.catalog.package (.response 404 "package not reserved"
    "create the npm package in RenoP before publishing")
  require (env.outside.permits req.username npmPermissionPublish = true)
    (.response 403 "forbidden" "npm package publish permission is required")
  require (p.publishEnabled = true) (.response 403 "package is pull-only" "mirrored npm packages cannot be published locally")

/-- The version and its manifest, as it was sent and as it is read. -/
def publishVersion (document : PublishDocument) : Except Failure (String × String × Manifest) :=
  match document.versions.rows with
  | [(version, raw)] => do
    require (validNPMVersion env.text env.semver version ∧ raw ≠ "" ∧ raw.utf8ByteSize ≤ maxStoredManifestJSON)
      (badRequest "invalid package version" "npm package version is invalid")
    let manifest ← orError (env.lib.manifest raw) (badRequest "invalid package version" "npm version manifest is invalid")
    require (normalizePackageName env.text manifest.name = some packageName ∧ env.text.trimSpace manifest.version = version)
      (badRequest "invalid package version" "npm version manifest does not match the package path")
    pure (version, raw, manifest)
  | _ => .error (badRequest "invalid package version" "npm publish must contain exactly one version")

def tarballAttachment (document : PublishDocument) : Except Failure Attachment :=
  let found := document.attachments.rows.filter fun a => ['.', 't', 'g', 'z'].isSuffixOf (env.text.toLower a.name).toList
  match found with
  | [] => .error (badRequest "invalid tarball" "npm tarball attachment is missing")
  | a :: rest => do
    require (0 < a.length ∧ a.length ≤ maxTarballSize ∧ a.data ≠ "" ∧
      a.data.utf8ByteSize ≤ maxPublishAttachmentData + 8) (badRequest "invalid tarball" "npm tarball exceeds the size limit")
    require (rest = []) (badRequest "invalid tarball" "npm publish contains multiple tarballs")
    pure a

/-- The dist-tags of a publication. -/
def publishTags (document : PublishDocument) (version : String) : Except Failure StringMap := do
  require (∀ p ∈ document.distTags.rows, validNPMTag env.text env.semver p.1 = true ∧ p.2 = version)
    (badRequest "invalid dist-tag" "npm publish dist-tags must target the published version")
  pure (if document.distTags.rows = [] then Table.empty.put ("latest", version) else document.distTags)

/-- The deprecations and the tags of a packument. -/
def packumentMetadata (document : PublishDocument) : Except Failure (StringMap × StringMap) := do
  require (document.versions.rows.length ≤ 5000) (badRequest "invalid packument" "npm packument update is invalid")
  let deprecations ← document.versions.rows.foldlM (fun (m : StringMap) (version, raw) => do
    require (validNPMVersion env.text env.semver version ∧ raw ≠ "" ∧ raw.utf8ByteSize ≤ maxStoredManifestJSON)
      (badRequest "invalid packument" "npm packument version is invalid")
    let manifest ← orError (env.lib.manifest raw) (badRequest "invalid packument" "npm packument version is invalid")
    pure (m.put (version, env.text.trimSpace manifest.deprecated))) Table.empty
  let tags ← document.distTags.rows.foldlM (fun (m : StringMap) (tag, version) => do
    require (validNPMTag env.text env.semver tag = true) (badRequest "invalid packument" "npm packument dist-tag is invalid")
    require ((document.versions.find? version).isSome)
      (badRequest "invalid packument" "npm packument dist-tag points to a missing version")
    pure (m.put (env.text.toLower tag, version))) Table.empty
  pure (deprecations, tags)

/-- Everything before the document is looked into. -/
def admitDocument : Request PublishDocument := do
  Proc.ofExcept (loggedIn env req "authentication required" "npm publish requires authentication")
  Proc.ofExcept (require (req.canWrite = true) (.response 403 "forbidden" "npm repository publish permission is required"))
  .ask .readAccess (.response 503 "database unavailable" "npm metadata is unavailable") (checkAccess env req)
  Proc.ofExcept (require (req.slotFree = true) (.response 503 "publish capacity exhausted" "retry npm publish shortly"))
  let document ← Proc.ofExcept (req.document.mapError fun
    | none => .response 413 "publish body too large" "npm publish exceeds the server limit"
    | some reason => badRequest "invalid publish document" reason)
  Proc.ofExcept (require (normalizePackageName env.text document.name = some packageName ∧
    (document.id ≠ "" → env.text.toLower document.id = packageName))
    (badRequest "invalid package name" "npm publish name does not match the request path"))
  pure document

end Checks

/-! ### Publishing -/

/-- What `publish` has when it starts to write. -/
structure Prepared where
  tarball : Tarball
  pkg : Npm.Publication
  version : NPMVersion
  tags : StringMap

section Publish
variable (env : Env) (repo : Repo) (packageName : String) (req : PublishRequest)

def targetPath (tarballPath : String) : String := Index.pathClean (env.storagePath ++ "/" ++ repo.name ++ "/" ++ tarballPath)

def packageLockPath : String := Index.pathClean (env.storagePath ++ "/" ++ repo.name ++ "/.renop.tmp.npm/" ++ packageName)

/-- A document without attachments changes the packument, in one transaction. -/
def updatePackument (document : PublishDocument) : Request Unit := do
  Proc.ofExcept (loggedIn env req "ENEEDAUTH" "authentication is required")
  Proc.ofExcept (require (req.canWrite = true) (.response 403 "forbidden" "npm repository update permission is required"))
  Proc.ofExcept (require (req.lifecycleScope = true)
    (.response 403 "forbidden" "API token package lifecycle scope is required"))
  let (deprecations, tags) ← Proc.ofExcept (packumentMetadata env document)
  let actor := if req.mayUpdate then "" else req.username
  .tell .updatePackument (lifecycleError .database) fun w =>
    ((updateNPMPackument env.text env.outside actor (parseRevision env.text document.revision) deprecations tags req.now
      w.catalog).map fun catalog => { w with catalog }).mapError fun e => lifecycleError (.npm e)

/-- The tarball of the request is staged and looked into. -/
def stageTarball (attachment : Attachment) (version : String) : Request Tarball := do
  .ask .stageTarball (.response 500 "storage failure" "failed to stage npm tarball") fun _ => .ok ()
  let tarball ← Proc.ofExcept (orError (env.lib.decode attachment.data)
    (badRequest "invalid tarball" "npm tarball attachment is invalid"))
  Proc.ofExcept (require (tarball.size ≤ maxTarballSize ∧ tarball.size = attachment.length)
    (badRequest "invalid tarball" "npm tarball attachment is invalid"))
  .ask .writeTarball (badRequest "invalid tarball" "failed to stage npm tarball") fun _ => .ok ()
  .ask .openTarball (badRequest "invalid tarball" "failed to validate npm tarball") fun _ => .ok ()
  Proc.ofExcept ((env.lib.validateTarball tarball.content packageName version).mapError (badRequest "invalid tarball"))
  pure tarball

/-- The rows that a publication stores. -/
def prepared (tarball : Tarball) (version manifestJSON : String) (manifest : Manifest) (description : String)
    (tags : StringMap) : Prepared where
  tarball := tarball
  pkg := { description := env.text.trimSpace (manifest.description.getD description), updatedAt := req.now }
  version := {
    version, manifestJSON, publisher := req.username, tarballPath := canonicalTarballPath packageName version
    shasum := tarball.shasum, integrity := tarball.integrity, size := tarball.size
    deprecated := env.text.trimSpace manifest.deprecated, unpublished := false, mirrored := false, createdAt := req.now }
  tags := tags

/-- Everything up to the first write. -/
def preparePublication (document : PublishDocument) : Request Prepared := do
  Proc.ofExcept (require (req.publishScope = true)
    (.response 403 "forbidden" "API token repository publish scope is required"))
  let (version, raw, manifest) ← Proc.ofExcept (publishVersion env packageName document)
  .ask .ensureMutable (npmPackageMutationError .database) fun w =>
    (ensureMutable env.text w.catalog version false).mapError fun e => npmPackageMutationError (.npm e)
  let tags ← Proc.ofExcept (publishTags env document version)
  let attachment ← Proc.ofExcept (tarballAttachment env document)
  Proc.ofExcept (require (attachment.length + 2 ^ 20 < req.freeDiskSpace)
    (.response 507 "insufficient storage" "not enough storage for npm package"))
  Proc.ofExcept (require (env.lib.isSubPath (packageLockPath env repo packageName) = true)
    (badRequest "invalid package path" "npm package path is invalid"))
  .ask .readAccessAgain (.response 403 "forbidden" "npm package publication state changed") fun w =>
    (checkAccess env req w).mapError fun _ => .response 403 "forbidden" "npm package publication state changed"
  let target := targetPath env repo (canonicalTarballPath packageName version)
  Proc.ofExcept (require (env.lib.isSubPath target = true) (badRequest "invalid tarball path" "npm tarball path is invalid"))
  .ask .existsTarball (.response 500 "storage failure" "failed to inspect npm tarball storage") fun w =>
    require (w.tarballs target = none) (.response 409 "version already exists" "npm package versions are immutable")
  let tarball ← stageTarball env packageName attachment version
  let manifestJSON ← Proc.ofExcept (orError
    (env.lib.canonical raw (canonicalTarballPath packageName version) req.username tarball)
    (badRequest "manifest too large" "npm version metadata exceeds the server limit"))
  Proc.ofExcept (require (manifestJSON.utf8ByteSize ≤ maxStoredManifestJSON)
    (badRequest "manifest too large" "npm version metadata exceeds the server limit"))
  pure (prepared env packageName req tarball version manifestJSON manifest document.description tags)

def reviewRequired : Bool := repo.policy = .everyVersion

def blockFile (path : String) : Request Unit := .modify .block fun w =>
    { w with blocked := Function.update w.blocked path true }

def unblockFile (path : String) : Request Unit := .modify .unblock fun w =>
    { w with blocked := Function.update w.blocked path false }

/-- Only a tarball that needs a review is hidden. -/
def hide (path : String) : Request Unit := if reviewRequired repo then blockFile path else pure ()

def unhide (path : String) : Request Unit := if reviewRequired repo then unblockFile path else pure ()

/-- Before it takes the quota, the request asks which team is charged. -/
def readTeam (path : String) : Request String := do
  match ← Proc.attempt (.ask .readPackage .database fun w => do
      let _ ← orError w.catalog.package .database
      pure w.superTeamPrefix : Request String) with
  | .error _ => do
    unhide repo path
    .throw (.response 503 "database unavailable" "npm metadata is unavailable")
  | .ok superTeamPrefix => pure superTeamPrefix

def quotaConfig : PublicationQuota.Config := ⟨env.text, env.quotaText, env.quotaDefaults⟩

def ledger : PublicationQuota.Port World Step Failure where
  get w := w.quota
  set quota w := { w with quota }
  get_set _ _ := rfl
  set_get _ := rfl
  set_set _ _ _ := rfl
  failed w := { w with failures := w.failures + 1 }
  reserve := .reserveQuota
  commit := .commitQuota
  release := .releaseQuota
  error := .quota

/-- One publication and its tarball. -/
def charge (p : Prepared) (superTeamPrefix : String) : PublicationQuota.Charge where
  username := req.username
  superTeamPrefix := superTeamPrefix
  delta := ⟨1, Int64.ofInt p.tarball.size, 1⟩
  now := req.now
  expiresAt := req.expiresAt
  userID := req.userID
  quotaID := req.quotaID

def takeQuota (p : Prepared) (superTeamPrefix path : String) : Request Unit :=
  PublicationQuota.takeQuota (quotaConfig env) (charge req p superTeamPrefix) ledger (unhide repo path)
    (fun e => .response 429 (errorCode e) "npm publication quota exceeded")
    (.response 503 "publication quota unavailable" "npm publication quota is unavailable")

def commitTarball (path content : String) : Request Unit :=
  .tell .commitTarball .storage fun w => .ok { w with tarballs := Function.update w.tarballs path (some content) }

/-- `Store.Delete`, whose error is counted. -/
def deleteTarball (path : String) : Request Unit := do
  match ← Proc.attempt (.tell .deleteTarball .storage fun w =>
      .ok { w with tarballs := Function.update w.tarballs path none } : Request Unit) with
  | .ok () => pure ()
  | .error _ => .modify .countFailure fun w => { w with failures := w.failures + 1 }

def publicationRequest (p : Prepared) : Review.PublicationRequest where
  resourceType := some .npmPackage
  repository := repo.name
  resourceKey := packageName
  resourceName := packageName
  version := p.version.version
  requestedBy := p.version.publisher
  policy := some repo.policy
  packageExists := true
  reviewTeamPrefix := ""
  targetTeamPrefix := ""
  files := [⟨"", p.version.tarballPath, p.version.size, true, 0⟩]
  payload := env.marshal repo.name packageName p.pkg p.version p.tags
  createdAt := p.version.createdAt

/-- The transaction of `QueuePublicationReview`. -/
def queuePublicationReview (p : Prepared) : Request Review.PublicationResult :=
  .call .queueReview (.review .database) fun w =>
    ((Review.createOrUpdatePublicationReview env.text env.access w.reviews req.reviewID
      (publicationRequest env repo packageName p)).map fun (reviews, result) => (result, { w with reviews })).mapError .review

/-- The tarball waits for a review. -/
def queueTarball (p : Prepared) (path : String) : Request Unit := do
  match ← (queuePublicationReview env repo packageName req p).attempt with
  | .ok ⟨true, _⟩ => pure ()
  | _ => do
    deleteTarball path
    unblockFile path
    .throw (.response 500 "review failure" "failed to create npm publication review")

/-- The tarball is published at once. -/
def recordPublication (p : Prepared) (path : String) : Request Unit := do
  match ← Proc.attempt (.tell .record .database fun w =>
      ((recordNPMPublication env.text env.outside env.semver p.pkg p.version p.tags req.username w.catalog).map fun catalog =>
        { w with catalog }).mapError .npm : Request Unit) with
  | .error e => do
    deleteTarball path
    .throw (recordError e)
  | .ok () => pure ()

def storeTarball (p : Prepared) (path : String) : Request Unit := do
  match ← (commitTarball path p.tarball.content).attempt with
  | .error _ => do
    unhide repo path
    .throw (.response 500 "storage failure" "failed to store npm tarball")
  | .ok () =>
    if reviewRequired repo then queueTarball env repo packageName req p path
    else recordPublication env req p path

def storePublication (p : Prepared) : Request Unit := do
  let path := targetPath env repo p.version.tarballPath
  hide repo path
  let superTeamPrefix ← readTeam repo path
  takeQuota env repo req p superTeamPrefix path
  storeTarball env repo packageName req p path

def publish : Request Unit := do
  let document ← admitDocument env packageName req
  if document.attachments.rows = [] then updatePackument env req document
  else do
    let p ← preparePublication env repo packageName req document
    storePublication env repo packageName req p

end Publish

/-! ### The reads -/

section Reads
variable {env : Env} {repo : Repo} {packageName : String} {req : PublishRequest} {w : World} {allowed : Step →
    Bool → Prop}

theorem wp_admitDocument {Q : Except Failure PublishDocument → World → Prop} (herror : ∀ e, Q (.error e) w)
    (hok : ∀ d, Q (.ok d) w) :
    (admitDocument env packageName req).wp allowed Q w := by
  unfold admitDocument
  simp only [Proc.bind_eq]
  refine Proc.wp_ofExcept_bind (fun e _ => herror e) fun _ _ => ?_
  refine Proc.wp_ofExcept_bind (fun e _ => herror e) fun _ _ => ?_
  refine Proc.wp_ask_bind herror fun _ _ => ?_
  refine Proc.wp_ofExcept_bind (fun e _ => herror e) fun _ _ => ?_
  refine Proc.wp_ofExcept_bind (fun e _ => herror e) fun document _ => ?_
  refine Proc.wp_ofExcept_bind (fun e _ => herror e) fun _ _ => ?_
  exact hok document

theorem wp_stageTarball {attachment : Attachment} {version : String} {Q : Except Failure Tarball → World → Prop}
    (herror : ∀ e, Q (.error e) w) (hok : ∀ t, Q (.ok t) w) :
      (stageTarball env packageName attachment version).wp allowed Q w := by
  unfold stageTarball
  simp only [Proc.bind_eq]
  refine Proc.wp_ask_bind herror fun _ _ => ?_
  refine Proc.wp_ofExcept_bind (fun e _ => herror e) fun tarball _ => ?_
  refine Proc.wp_ofExcept_bind (fun e _ => herror e) fun _ _ => ?_
  refine Proc.wp_ask_bind herror fun _ _ => ?_
  refine Proc.wp_ask_bind herror fun _ _ => ?_
  refine Proc.wp_ofExcept_bind (fun e _ => herror e) fun _ _ => ?_
  exact hok tarball

theorem wp_preparePublication {document : PublishDocument} {Q : Except Failure Prepared → World → Prop}
    (herror : ∀ e, Q (.error e) w)
    (hok : ∀ p, w.tarballs (targetPath env repo p.version.tarballPath) = none → Q (.ok p) w) :
    (preparePublication env repo packageName req document).wp allowed Q w := by
  unfold preparePublication
  simp only [Proc.bind_eq]
  refine Proc.wp_ofExcept_bind (fun e _ => herror e) fun _ _ => ?_
  refine Proc.wp_ofExcept_bind (fun e _ => herror e) fun ⟨version, raw, manifest⟩ _ => ?_
  refine Proc.wp_ask_bind herror fun _ _ => ?_
  refine Proc.wp_ofExcept_bind (fun e _ => herror e) fun tags _ => ?_
  refine Proc.wp_ofExcept_bind (fun e _ => herror e) fun attachment _ => ?_
  refine Proc.wp_ofExcept_bind (fun e _ => herror e) fun _ _ => ?_
  refine Proc.wp_ofExcept_bind (fun e _ => herror e) fun _ _ => ?_
  refine Proc.wp_ask_bind herror fun _ _ => ?_
  refine Proc.wp_ofExcept_bind (fun e _ => herror e) fun _ _ => ?_
  refine Proc.wp_ask_bind herror fun _ hnone => ?_
  rw [Proc.wp_bind]
  refine wp_stageTarball herror fun tarball => ?_
  refine Proc.wp_ofExcept_bind (fun e _ => herror e) fun manifestJSON _ => ?_
  refine Proc.wp_ofExcept_bind (fun e _ => herror e) fun _ _ => ?_
  exact hok (prepared env packageName req tarball version manifestJSON manifest document.description tags)
    (require_ok.1 hnone)

theorem wp_updatePackument {document : PublishDocument} :
    (updatePackument env req document).wp allowed (fun r w' => ∀ e, r = .error e → w' = w) w := by
  unfold updatePackument
  simp only [Proc.bind_eq]
  refine Proc.wp_ofExcept_bind (fun _ _ _ _ => rfl) fun _ _ => ?_
  refine Proc.wp_ofExcept_bind (fun _ _ _ _ => rfl) fun _ _ => ?_
  refine Proc.wp_ofExcept_bind (fun _ _ _ _ => rfl) fun _ _ => ?_
  refine Proc.wp_ofExcept_bind (fun _ _ _ _ => rfl) fun ⟨deprecations, tags⟩ _ => ?_
  exact Proc.wp_tell (fun _ _ _ => rfl) (fun _ _ _ h => by cases h) fun _ _ _ _ => rfl

theorem exec_admitDocument (fault : Step → Bool) (w : World) :
    ((admitDocument env packageName req).exec fault w).2 = w := by
  refine (Proc.wp_exec (Q := fun _ s => s = w)).1 ?_
  exact wp_admitDocument (fun _ => rfl) fun _ => rfl

/-- The checks leave the state alone, and let only a new tarball through. -/
def Checked (env : Env) (repo : Repo) (w : World) (r : Except Failure Prepared) (w' : World) : Prop :=
  w' = w ∧ ∀ p, r = .ok p → w.tarballs (targetPath env repo p.version.tarballPath) = none

theorem exec_preparePublication (document : PublishDocument) (fault : Step → Bool) (w : World) :
    Checked env repo w ((preparePublication env repo packageName req document).exec fault w).1
      ((preparePublication env repo packageName req document).exec fault w).2 := by
  refine (Proc.wp_exec (Q := Checked env repo w)).1 (wp_preparePublication (fun e => ?_) fun p hp => ?_)
  · exact ⟨rfl, fun p h => by cases h⟩
  · refine ⟨rfl, fun q hq => ?_⟩
    cases hq
    exact hp

end Reads

/-! ### Undoing -/

section Undo
variable {env : Env} {repo : Repo} {packageName : String} {req : PublishRequest} {fault : Step → Bool} {w : World}

/-- The blocked paths while the tarball is stored, and after the request has given up. -/
def World.marked (w : World) (repo : Repo) (path : String) (mark : Bool) : World :=
  if reviewRequired repo then { w with blocked := Function.update w.blocked path mark } else w

@[simp] theorem exec_hide (path : String) : (hide repo path).exec fault w = (.ok (), w.marked repo path true) := by
  unfold hide World.marked
  split <;> rfl

@[simp] theorem exec_unhide (path : String) : (unhide repo path).exec fault w = (.ok (), w.marked repo path false) := by
  unfold unhide World.marked
  split <;> rfl

theorem marked_quota (quota : Quota.QuotaDB) (path : String) (mark : Bool) :
    ({ w with quota } : World).marked repo path mark = { w.marked repo path mark with quota } := by
  unfold World.marked
  split <;> rfl

@[simp] theorem marked_blocked (path : String) (mark : Bool) :
    (w.marked repo path mark).blocked = if reviewRequired repo then Function.update w.blocked path mark else w.blocked := by
  unfold World.marked
  split <;> rfl

@[simp] theorem marked_catalog (path : String) (mark : Bool) : (w.marked repo path mark).catalog = w.catalog := by
  unfold World.marked
  split <;> rfl

@[simp] theorem marked_superTeamPrefix (path : String) (mark : Bool) :
    (w.marked repo path mark).superTeamPrefix = w.superTeamPrefix := by
  unfold World.marked
  split <;> rfl

@[simp] theorem marked_tarballs (path : String) (mark : Bool) : (w.marked repo path mark).tarballs = w.tarballs := by
  unfold World.marked
  split <;> rfl

@[simp] theorem marked_ledger (path : String) (mark : Bool) : (w.marked repo path mark).quota = w.quota := by
  unfold World.marked
  split <;> rfl

theorem marked_marked (path : String) : (w.marked repo path true).marked repo path false = w.marked repo path false := by
  unfold World.marked
  split
  · show ({ w with blocked := _ } : World) = _
    rw [Function.update_idem]
  · rfl

/-- A request that has given up. -/
structure GivenUp (repo : Repo) (path : String) (w w' : World) : Prop where
  catalog : w'.catalog = w.catalog
  tarballs : w'.tarballs = w.tarballs
  quota : w'.quota = w.quota
  blocked : w'.blocked = (w.marked repo path false).blocked

theorem givenUp_marked (path : String) : GivenUp repo path w (w.marked repo path false) := by
  unfold World.marked
  split
  · next h => exact ⟨rfl, rfl, rfl, by simp [h]⟩
  · next h => exact ⟨rfl, rfl, rfl, by simp [h]⟩

theorem GivenUp.unmarked {path : String} {quota : Quota.QuotaDB} {w' : World}
    (h : GivenUp repo path { w.marked repo path true with quota } w') : GivenUp repo path { w with quota } w' where
  catalog := h.catalog.trans (marked_catalog path true)
  tarballs := h.tarballs.trans (marked_tarballs path true)
  quota := h.quota
  blocked := by
    rw [h.blocked]
    simp only [marked_blocked]
    split
    · rw [Function.update_idem]
    · rfl

section Wp
variable {allowed : Step → Bool → Prop} {Q : Except Failure Unit → World → Prop} {path : String}

theorem wp_unhide_bind {k : Unit → Request Unit} (h : (k ()).wp allowed Q (w.marked repo path false)) :
    ((unhide repo path).bind k).wp allowed Q w := by
  unfold unhide World.marked at *
  split at h
  · next hreview =>
    rw [if_pos hreview]
    exact Proc.wp_modify_bind h
  · next hreview =>
    rw [if_neg hreview]
    exact h

theorem wp_deleteTarball_bind {k : Unit → Request Unit} (hdelete : ¬ allowed .deleteTarball true)
    (h : (k ()).wp allowed Q { w with tarballs := Function.update w.tarballs path none }) :
    ((deleteTarball path).bind k).wp allowed Q w := by
  rw [Proc.wp_bind]
  unfold deleteTarball
  refine Proc.wp_attempt_bind (Proc.wp_tell (fun hfail => absurd hfail hdelete) (fun w' hw' => ?_) fun _ h => by cases h)
  cases hw'
  exact h

/-- The tarball is not there before, so it goes again. -/
theorem wp_storeTarball {p : Prepared} (hnone : w.tarballs path = none) (hdelete : ¬ allowed .deleteTarball true) :
    (storeTarball env repo packageName req p path).wp allowed (fun r w' => ∀ e, r = .error e →
      GivenUp repo path w w') w := by
  have hback : Function.update (Function.update w.tarballs path (some p.tarball.content)) path none = w.tarballs := by
    rw [Function.update_idem, ← hnone, Function.update_eq_self]
  unfold storeTarball
  simp only [Proc.bind_eq]
  refine Proc.wp_attempt_bind (Proc.wp_tell (fun _ => ?_) (fun w₁ hw₁ => ?_) fun _ h => by cases h)
  · exact wp_unhide_bind fun _ _ => givenUp_marked path
  · cases hw₁
    dsimp only
    split
    · next hreview =>
      unfold queueTarball queuePublicationReview
      simp only [Proc.bind_eq]
      -- without a pending review the tarball is removed
      have hundo : ∀ w₂ : World, w₂.catalog = w.catalog → w₂.quota = w.quota → w₂.blocked = w.blocked →
          w₂.tarballs = Function.update w.tarballs path (some p.tarball.content) →
          ((deleteTarball path).bind fun _ => (unblockFile path).bind fun _ =>
            (Proc.throw (.response 500 "review failure" "failed to create npm publication review") : Request Unit)).wp allowed
            (fun r w' => ∀ e, r = .error e → GivenUp repo path w w') w₂ := by
        intro w₂ hcatalog hquota hblocked htarballs
        refine wp_deleteTarball_bind hdelete (Proc.wp_modify_bind fun _ _ => ⟨hcatalog, ?_, hquota, ?_⟩)
        · show Function.update w₂.tarballs path none = w.tarballs
          rw [htarballs, hback]
        · show Function.update w₂.blocked path false = _
          simp only [World.marked, hreview, if_true, hblocked]
      refine Proc.wp_attempt_bind (Proc.wp_call (fun _ => ?_) (fun result w₂ hcall => ?_) fun e _ => ?_)
      · exact hundo _ rfl rfl rfl rfl
      · obtain ⟨⟨reviews, ⟨pending, id⟩⟩, -, heq⟩ := map_ok.1 (mapError_ok.1 hcall)
        cases heq
        cases pending with
        | false => exact hundo _ rfl rfl rfl rfl
        | true => exact fun _ h => by cases h
      · exact hundo _ rfl rfl rfl rfl
    · next hreview =>
      unfold recordPublication
      simp only [Proc.bind_eq]
      have hundo : ∀ e, ((deleteTarball path).bind fun _ => (Proc.throw (recordError e) : Request Unit)).wp allowed
          (fun r w' => ∀ e, r = .error e → GivenUp repo path w w')
          { w with tarballs := Function.update w.tarballs path (some p.tarball.content) } := by
        intro e
        refine wp_deleteTarball_bind hdelete fun _ _ => ⟨rfl, hback, rfl, ?_⟩
        simp only [World.marked, hreview]
        rfl
      exact Proc.wp_attempt_bind (Proc.wp_tell (fun _ => hundo _) (fun _ _ _ h => by cases h) fun e _ => hundo e)

end Wp

theorem exec_readTeam (path : String) :
    (fault .readPackage = false ∧ w.catalog.package ≠ none ∧ (readTeam repo path).exec fault w =
      (.ok w.superTeamPrefix, w)) ∨ (¬ (fault .readPackage = false ∧ w.catalog.package ≠ none) ∧
      ∃ e, (readTeam repo path).exec fault w = (.error e, w.marked repo path false)) := by
  unfold readTeam
  simp only [Proc.bind_eq, Proc.exec_bind, Proc.exec_attempt, Proc.exec_ask]
  cases hfail : fault .readPackage with
  | true =>
    refine .inr ⟨by simp, .response 503 "database unavailable" "npm metadata is unavailable", ?_⟩
    simp [Proc.exec_bind]
  | false =>
    cases hpackage : w.catalog.package with
    | none =>
      refine .inr ⟨by simp, .response 503 "database unavailable" "npm metadata is unavailable", ?_⟩
      simp [orError, bind, Except.bind, Proc.exec_bind]
    | some p => exact .inl ⟨rfl, by simp, rfl⟩

/-! ### All or nothing -/

variable (env repo packageName req fault w) in
/-- The document passed the checks and a reservation was committed for it. -/
def DocumentBilled (document : PublishDocument) : Prop :=
  ∃ p, ((preparePublication env repo packageName req document).exec fault w).1 = .ok p ∧
    (fault .readPackage = false ∧ w.catalog.package ≠ none) ∧
    PublicationQuota.Charged (quotaConfig env) (charge req p w.superTeamPrefix) ledger fault w.quota

variable (env repo packageName req fault w) in
/-- The request is a publication for which a reservation was committed. -/
def Billed : Prop :=
  ∃ document, ((admitDocument env packageName req).exec fault w).1 = .ok document ∧ document.attachments.rows ≠ [] ∧
    DocumentBilled env repo packageName req fault w document

/-- What a failed request leaves behind. -/
structure Undone (billed : Prop) (w w' : World) : Prop where
  tarballs : w'.tarballs = w.tarballs
  catalog : w'.catalog = w.catalog
  blocked : ∀ path, (w.blocked path = true → w.tarballs path ≠ none) → w'.blocked path = w.blocked path
  usage : w'.quota.usage = w.quota.usage ↔ ¬ billed

theorem undone_self {billed : Prop} (h : ¬ billed) (w : World) :
    Undone billed w w := ⟨rfl, rfl, fun _ _ => rfl, iff_of_true rfl h⟩

theorem exec_storePublication {p : Prepared} (hnone : w.tarballs (targetPath env repo p.version.tarballPath) = none)
    (hdelete : fault .deleteTarball = false) {e : Failure}
    (he : ((storePublication env repo packageName req p).exec fault w).1 = .error e) :
    ∃ quota, GivenUp repo (targetPath env repo p.version.tarballPath) { w with quota }
        ((storePublication env repo packageName req p).exec fault w).2 ∧
      (quota.usage = w.quota.usage ↔ ¬ ((fault .readPackage = false ∧ w.catalog.package ≠ none) ∧
        PublicationQuota.Charged (quotaConfig env) (charge req p w.superTeamPrefix) ledger fault w.quota)) := by
  unfold storePublication at he ⊢
  dsimp only at he ⊢
  generalize targetPath env repo p.version.tarballPath = path at hnone he ⊢
  simp only [Proc.bind_eq, Proc.exec_bind, exec_hide] at he ⊢
  obtain ⟨hfault, hpackage, hread⟩ | ⟨hnot, e', hread⟩ :=
    @exec_readTeam repo fault (w.marked repo path true) path
  · rw [hread] at he ⊢
    rw [marked_catalog] at hpackage
    rw [marked_superTeamPrefix] at he ⊢
    have htaken : PublicationQuota.Taken (quotaConfig env) (charge req p w.superTeamPrefix) ledger fault
        (fun s => s.marked repo path false) (w.marked repo path true)
        ((takeQuota env repo req p w.superTeamPrefix path).exec fault (w.marked repo path true)) :=
      PublicationQuota.exec_takeQuota rfl (fun _ => exec_unhide path) (fun q _ => marked_quota q path false) _
    -- what is stored after the quota was taken is taken back
    have hstored : ∀ quota, ∀ e, ((storeTarball env repo packageName req p path).exec fault
        { w.marked repo path true with quota }).1 = .error e → GivenUp repo path { w.marked repo path true with quota }
          ((storeTarball env repo packageName req p path).exec fault { w.marked repo path true with quota }).2 := by
      intro quota
      refine (Proc.wp_exec (Q := fun r s => ∀ e, r = .error e → GivenUp repo path _ s)).1
        (wp_storeTarball ?_ (by simp [hdelete]))
      simpa using hnone
    dsimp only at he ⊢
    generalize (takeQuota env repo req p w.superTeamPrefix path).exec fault (w.marked repo path true) = r at he htaken ⊢
    have hledger : ledger.get (w.marked repo path true) = w.quota := marked_ledger path true
    rw [← hledger]
    cases htaken with
    | @charged quota hcharged husage =>
      exact ⟨quota, (hstored quota e he).unmarked,
        iff_of_false husage (not_not_intro ⟨⟨hfault, hpackage⟩, hcharged⟩)⟩
    | @free quota hcharged husage =>
      exact ⟨quota, (hstored quota e he).unmarked, iff_of_true husage fun h => hcharged h.2⟩
    | @refused quota e' s' hcharged husage hs' =>
      refine ⟨quota, ?_, iff_of_true husage fun h => hcharged h.2⟩
      rw [marked_marked] at hs'
      have hback : ∀ n, GivenUp repo path { w with quota } { w.marked repo path false with quota, failures := n } := by
        intro n
        exact ⟨marked_catalog path false, marked_tarballs path false, rfl, by simp only [marked_blocked]⟩
      rcases hs' with rfl | rfl
      · exact hback _
      · exact hback _
  · rw [hread, marked_marked]
    rw [marked_catalog] at hnot
    exact ⟨w.quota, givenUp_marked path, iff_of_true rfl fun h => hnot h.1⟩

theorem exec_storeDocument (hdelete : fault .deleteTarball = false) {document : PublishDocument} {e : Failure}
    (he : (((preparePublication env repo packageName req document).bind (storePublication env repo packageName req)).exec
      fault w).1 = .error e) :
    Undone (DocumentBilled env repo packageName req fault w document) w
      (((preparePublication env repo packageName req document).bind (storePublication env repo packageName req)).exec fault
        w).2 := by
  obtain ⟨hstate, hof⟩ := @exec_preparePublication env repo packageName req document fault w
  rw [Proc.exec_bind] at he ⊢
  unfold DocumentBilled
  generalize (preparePublication env repo packageName req document).exec fault w = r at hstate hof he ⊢
  obtain ⟨r, w'⟩ := r
  obtain rfl : w' = w := hstate
  cases r with
  | error e => exact undone_self (by simp) w'
  | ok p =>
    have hnone := hof p rfl
    obtain ⟨quota, hup, husage⟩ := exec_storePublication hnone hdelete he
    change Undone _ w' ((storePublication env repo packageName req p).exec fault w').2
    generalize ((storePublication env repo packageName req p).exec fault w').2 = w₂ at hup ⊢
    refine ⟨hup.tarballs, hup.catalog, fun path hpath => ?_, ?_⟩
    · rw [hup.blocked, marked_blocked]
      split
      · rw [Function.update_apply]
        split
        · next hq =>
          -- the path of the request has no tarball, so it was not blocked
          subst hq
          by_contra hne
          exact hpath (by simpa using hne) hnone
        · rfl
      · rfl
    · rw [hup.quota, husage]
      simp

theorem publish_taken_back (hdelete : fault .deleteTarball = false) {e : Failure}
    (he : ((publish env repo packageName req).exec fault w).1 = .error e) :
    Undone (Billed env repo packageName req fault w) w ((publish env repo packageName req).exec fault w).2 := by
  have hstate := @exec_admitDocument env packageName req fault w
  unfold publish at he ⊢
  unfold Billed
  rw [Proc.bind_eq, Proc.exec_bind] at he ⊢
  generalize (admitDocument env packageName req).exec fault w = r at hstate he ⊢
  obtain ⟨r, w'⟩ := r
  obtain rfl : w' = w := hstate
  cases r with
  | error e => exact undone_self (by simp) w'
  | ok document =>
    dsimp only at he ⊢
    by_cases hempty : document.attachments.rows = []
    · rw [if_pos hempty] at he ⊢
      have hsame := (Proc.wp_exec (Q := fun r s => ∀ e, r = .error e → s = w')).1
        (@wp_updatePackument env req w' (fun label fail => fail = fault label) document)
      rw [hsame e he]
      refine undone_self ?_ w'
      rintro ⟨_, hd, hsome, -⟩
      cases hd
      exact hsome hempty
    · rw [if_neg hempty] at he ⊢
      obtain ⟨htarballs, hcatalog, hblocked, husage⟩ := exec_storeDocument hdelete he
      refine ⟨htarballs, hcatalog, hblocked, husage.trans (not_congr ⟨fun h => ⟨document, rfl, hempty, h⟩, ?_⟩)⟩
      rintro ⟨_, hd, -, h⟩
      cases hd
      exact h

end Undo

end Renop.NpmService
