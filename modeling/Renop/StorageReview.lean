import Renop.Storage

/-!
# Publication reviews

`CreateOrUpdatePublicationReview` (`review_publication.go`), the Maven hook `ProcessPublishedFiles` that an accepted
upload ends in, and the decision of a pending review (`decidePublicationTask`, for Maven tasks) with
`UnblockPublicationReviewFiles` and `DeletePublicationReviewFiles`. A transaction is one step. Reviews here are
publication reviews without a team.
-/

namespace Renop.Storage
open Crash Renop.Index

def maxPublicationReviewFiles : Nat := 256

def maxPendingPublicationReviews : Nat := 4096

def maxPendingPublicationPerAccount : Nat := 64

def publicationReviewSettleMillis : Int := 5000

namespace ReviewTask

def isPending (t : ReviewTask) : Bool := t.status = .pending

/-- Docker images and package-creation requests have no files of their own. -/
def virtual (t : ReviewTask) (f : ReviewFile) : Bool :=
  t.resourceType = .dockerImage || hasPrefix f.path "review-requests/"

/-- `reviewFileLocalPath` -/
def localPath (t : ReviewTask) (f : ReviewFile) : String := t.repository ++ "/" ++ f.path

/-- The latest activity of the task. -/
def updatedAt (t : ReviewTask) : Int := t.files.foldl (fun m f => max m f.addedAt) t.createdAt

/-- The `active_key` of a pending task, before its SHA-256. -/
def sameResource (t : ReviewTask) (resourceType : ReviewResourceType) (repository resourceKey version : String) : Bool :=
  t.resourceType = resourceType && t.repository = repository && t.resourceKey = resourceKey && t.version = version

def dropFile (t : ReviewTask) (path : String) : ReviewTask := { t with files := t.files.filter fun f => f.path ≠ path }

def hasFile (t : ReviewTask) (path : String) : Bool := t.files.any fun f => f.path = path

end ReviewTask

namespace Store

/-- `IsPublicationReviewPathPending` -/
def reviewPathPending (s : Store) (repository path : String) : Bool :=
  s.reviews.any fun t => t.isPending && t.repository = repository && t.hasFile path

def updateReview (s : Store) (id : Nat) (f : ReviewTask → ReviewTask) : Store :=
  { s with reviews := s.reviews.map fun t => if t.id = id then f t else t }

end Store

/-! ### `CreateOrUpdatePublicationReview` -/

structure PublicationReviewRequest where
  resourceType : ReviewResourceType
  repository : String
  resourceKey : String
  version : String
  requestedBy : String
  policy : PublicationReviewPolicy
  packageExists : Bool
  files : List ReviewFile
  createdAt : Int
deriving DecidableEq, Repr

/-- The pending task, if the publication has one. -/
abbrev PublicationReviewResult : Type := Option Nat

def normalizePublicationReviewFile (f : ReviewFile) (createdAt : Int) : Except StorageError ReviewFile :=
  if f.path = "" ∨ f.size < 0 ∨ (segments f.path).any (fun seg => seg = "" || seg = "." || seg = "..") then
    .error .reviewInvalidRequest
  else .ok { f with addedAt := if f.addedAt ≤ 0 then createdAt else f.addedAt }

/-- `savePublicationReviewFileTx`: the file leaves every other pending review of the repository. -/
def savePublicationReviewFile (taskID : Nat) (repository : String) (reviews : List ReviewTask) (f : ReviewFile) :
    Except StorageError (List ReviewTask) :=
  let moved := reviews.map fun t =>
    if t.id ≠ taskID ∧ t.isPending ∧ t.repository = repository then t.dropFile f.path else t
  match moved.find? fun t => t.id = taskID with
  | none => .error .reviewTaskNotFound
  | some t =>
    if t.hasFile f.path then
      .ok (moved.map fun t => if t.id = taskID then
        { t with files := t.files.map fun g => if g.path = f.path then f else g } else t)
    else if maxPublicationReviewFiles ≤ t.files.length then .error .reviewFileLimit
    else .ok (moved.map fun t => if t.id = taskID then { t with files := t.files ++ [f] } else t)

def savePublicationReviewFiles (taskID : Nat) (repository : String) (files : List ReviewFile)
    (reviews : List ReviewTask) : Except StorageError (List ReviewTask) :=
  files.foldlM (savePublicationReviewFile taskID repository) reviews

/-- A task for the request with no files yet. -/
def newReviewTask (id : Nat) (request : PublicationReviewRequest) : ReviewTask :=
  ⟨id, request.resourceType, request.repository, request.resourceKey, request.version, request.requestedBy.toLower,
    .pending, request.createdAt, []⟩

/-- The transaction, from the table of reviews; `id` is the identifier of a new task. -/
def reviewTransaction (settings : Settings) (id : Nat) (request : PublicationReviewRequest) (files : List ReviewFile)
    (reviews : List ReviewTask) : Except StorageError (PublicationReviewResult × List ReviewTask) :=
  let actor := request.requestedBy.toLower
  let same (t : ReviewTask) := t.sameResource request.resourceType request.repository request.resourceKey request.version
  match reviews.find? fun t => t.isPending && same t with
  | some t =>
    if !settings.userExists actor || t.requestedBy ≠ actor then .error .reviewPermissionDenied
    else (savePublicationReviewFiles t.id request.repository files reviews).map fun reviews => (some t.id, reviews)
  | none =>
    if request.policy = .off then .ok (none, reviews)
    else if reviews.any fun t => t.status = .approved && same t then .error .reviewPublicationSealed
    else if request.policy = .newPackages ∧ request.packageExists then .ok (none, reviews)
    else if !settings.userExists actor then .error .reviewPermissionDenied
    else if maxPendingPublicationReviews ≤ reviews.countP ReviewTask.isPending ∨
        maxPendingPublicationPerAccount ≤ reviews.countP fun t => t.isPending && t.requestedBy = actor then
      .error .reviewFileLimit
    else (savePublicationReviewFiles id request.repository files (reviews ++ [newReviewTask id request])).map
      fun reviews => (some id, reviews)

def createOrUpdatePublicationReview (request : PublicationReviewRequest) : StoreM PublicationReviewResult :=
  if request.requestedBy = "" ∨ request.createdAt ≤ 0 ∨ request.files = [] ∨
      maxPublicationReviewFiles < request.files.length then
    Prog.throw .reviewInvalidRequest
  else
    match request.files.mapM fun f => normalizePublicationReviewFile f request.createdAt with
    | .error e => Prog.throw e
    | .ok files => do
      let id ← newUUID
      Prog.step (.step .createReview) fun s =>
        (reviewTransaction s.settings id request files s.reviews).map fun (result, reviews) =>
          (result, { s with reviews := reviews })

/-! ### `ProcessPublishedFiles` -/

def ensurePathMutable (repo : Repository) (path : String) : StoreM Unit :=
  Prog.step (.step (.locks path)) fun s =>
    if s.settings.pathLocked repo.name path then .error .resourceLocked else .ok ((), s)

def ensurePackageMutable (repository package : String) : StoreM Unit :=
  Prog.step (.step (.locks package)) fun s =>
    if s.settings.packageLocked repository package then .error .resourceLocked else .ok ((), s)

/-- `ListPublicationReviews`: the latest task of each version. -/
def listPublicationReviews (s : Store) (repository resourceKey : String) : List ReviewTask :=
  let tasks := (s.reviews.filter fun t =>
    t.resourceType = .mavenArtifact && t.repository = repository && t.resourceKey = resourceKey).mergeSort fun a b =>
      b.createdAt < a.createdAt || (a.createdAt = b.createdAt && b.id ≤ a.id)
  (tasks.take maxPublicationReviewFiles).foldl
    (fun kept t => if kept.any fun k => k.version = t.version then kept else kept ++ [t]) []

/-- `pendingMetadataReview`, over the candidates: a version decides at once, else the latest wins. -/
def pendingMetadataReview (s : Store) (repository : String) :
    List MavenMetadataCandidate → Option ReviewTask → Option ReviewTask
  | [], latest => latest
  | candidate :: rest, latest =>
    let tasks := (listPublicationReviews s repository candidate.resourceKey).filter ReviewTask.isPending
    match candidate.version with
    | some version =>
      match tasks.find? fun t => t.version = version with
      | some t => some t
      | none => pendingMetadataReview s repository rest latest
    | none =>
      let newer (latest : Option ReviewTask) (t : ReviewTask) : Option ReviewTask :=
        match latest with
        | none => some t
        | some l =>
          if l.updatedAt < t.updatedAt ∨ t.updatedAt = l.updatedAt ∧ l.createdAt < t.createdAt then some t else some l
      pendingMetadataReview s repository rest (tasks.foldl newer latest)

def mavenReviewFileCritical (path : String) (c : MavenCoordinate) : Bool :=
  let name := (splitPathParentBase path).2.toLower
  let start := (c.artifactID ++ "-" ++ c.version).toLower
  !([".md5", ".sha1", ".sha256", ".sha512", ".asc"].any fun suffix => hasSuffix name suffix) &&
    (name = start ++ ".pom" || name = start ++ ".module" || name = start ++ ".jar")

/-- The first file that is no companion, else the largest. -/
def primaryMavenReviewFile (files : List ReviewFile) : Option ReviewFile :=
  let parsed := files.filter fun f => (parseArtifactPath f.path).isSome
  let companion (f : ReviewFile) : Bool :=
    [".md5", ".sha1", ".sha256", ".sha512", ".asc"].any fun suffix => hasSuffix (splitPathParentBase f.path).2.toLower suffix
  let larger (best : Option ReviewFile) (f : ReviewFile) : Option ReviewFile :=
    match best with
    | none => some f
    | some b => if b.size < f.size then some f else some b
  (parsed.find? fun f => !companion f).or (parsed.foldl larger none)

/-- `RecordMavenPublication` of one version. -/
def recordMavenPublication (repository : String) (c : MavenCoordinate) : StoreM Unit :=
  Prog.step (.step .recordPublication) fun s =>
    if s.settings.packageLocked repository c.package then .error .resourceLocked
    else .ok ((), { s with versions :=
      if ⟨repository, c⟩ ∈ s.versions then s.versions else s.versions ++ [⟨repository, c⟩] })

def recordPublishedPath (repository path username : String) : StoreM Unit :=
  match parseArtifactPath path with
  | none => pure ()
  | some c => do
    if ← query .recordPublication fun s => s.settings.domainVerified username.toLower c.groupID.toLower then
      recordMavenPublication repository c
    else Prog.throw .domainUnverified

def processPublishedFiles (repo : Repository) (username : String) (files : List ReviewFile) (now : Int) :
    StoreM PublicationReviewResult := do
  Prog.forEach files fun f => ensurePathMutable repo f.path
  let record : StoreM Unit :=
    match primaryMavenReviewFile files with
    | none => pure ()
    | some f => recordPublishedPath repo.name f.path username
  match files.findSome? fun f => parseArtifactPath f.path with
  | none =>
    if repo.publicationReview = .off then
      pure none
    else
      let path := (files.head?.map ReviewFile.path).getD ""
      match ← query .listReviews fun s =>
          pendingMetadataReview s repo.name (publicationMetadataCandidates path) none with
      | none => pure none
      | some t =>
        createOrUpdatePublicationReview ⟨t.resourceType, t.repository, t.resourceKey, t.version, username,
          repo.publicationReview, true, files, now⟩
  | some c =>
    ensurePackageMutable repo.name c.package
    if repo.publicationReview = .off then
      record
      pure none
    else
      let files := files.map fun f => { f with critical := mavenReviewFileCritical f.path c }
      let packageExists ← query .packageExists fun s => s.versions.any fun v =>
        v.repository = repo.name && v.coordinate.groupID = c.groupID && v.coordinate.artifactID = c.artifactID
      let createdAt := files.foldl (fun t f => if 0 < f.addedAt ∧ f.addedAt < t then f.addedAt else t) now
      match ← createOrUpdatePublicationReview ⟨.mavenArtifact, repo.name, c.package, c.version, username,
          repo.publicationReview, packageExists, files, createdAt⟩ with
      | some id => pure (some id)
      | none =>
        record
        pure none

/-! ### Decisions -/

/-- The decision of a task in the database. -/
def decideReviewTask (id : Nat) (decision : ReviewStatus) (now : Int) : StoreM Unit :=
  Prog.step (.step .decideReview) fun s =>
    match s.reviews.find? fun t => t.id = id with
    | none => .error .reviewTaskNotFound
    | some t =>
      if !t.isPending then .error .reviewTaskConflict
      else if now - t.updatedAt < publicationReviewSettleMillis then .error .reviewPublicationActive
      else .ok ((), s.updateReview id fun t => { t with status := decision })

def unblockPublicationReviewFiles (task : ReviewTask) : StoreM Unit :=
  Prog.forEach (task.files.filter fun f => !task.virtual f) fun f => do
    if ← query .reviewFiles fun s => s.reviewPathPending task.repository f.path then
      pure ()
    else do
      updateIndex fun idx => idx.unblockFile (task.localPath f)
      reindexPathIfPresent (task.localPath f)

def deletePublicationReviewFiles (task : ReviewTask) : StoreM Unit :=
  joinErrors ((task.files.filter fun f => !task.virtual f).map fun f => do
    deleteIndexedFile (task.localPath f)
    updateIndex fun idx => idx.unblockFile (task.localPath f)) none

/-- The group and the artifact of a resource key, at its last colon. -/
def splitResourceKey (key : String) : Option (String × String) :=
  match key.toList.reverse.span (· ≠ ':') with
  | (artifact, ':' :: group) =>
    if artifact = [] ∨ group = [] then none else some (String.ofList group.reverse, String.ofList artifact.reverse)
  | _ => none

def approvePublicationReview (task : ReviewTask) : StoreM Unit :=
  match splitResourceKey task.resourceKey with
  | none => Prog.throw .reviewInvalidRequest
  | some (groupID, artifactID) => do
    if ← query .recordPublication fun s => s.settings.domainVerified "" groupID.toLower then
      recordMavenPublication task.repository ⟨groupID, artifactID, task.version⟩
    else Prog.throw .domainUnverified

def removeApprovedPublicationMetadata (task : ReviewTask) : StoreM Unit :=
  match splitResourceKey task.resourceKey with
  | none => Prog.throw .reviewInvalidRequest
  | some (groupID, artifactID) => act .rollbackPublication fun s =>
    { s with versions := s.versions.filter fun v => v ≠ ⟨task.repository, groupID, artifactID, task.version⟩ }

/-- The checks of `decidePublicationTask`, after that of the caller's permission. -/
def checkDecision (id : Nat) (now : Int) : StoreM ReviewTask := do
  match ← query .reviewFiles fun s => s.reviews.find? fun t => t.id = id with
  | none => Prog.throw .reviewTaskNotFound
  | some task =>
    if !task.isPending then Prog.throw .reviewTaskConflict
    else if now - task.updatedAt < publicationReviewSettleMillis then Prog.throw .reviewPublicationActive
    else
      match ← Prog.read fun s => s.repository? task.repository with
      | none => Prog.throw .reviewResourceConflict
      | some repo => do
        Prog.forEach task.files fun f => ensurePathMutable repo f.path
        pure task

/-- The catalog entry and the decision of an approved task; the entry goes again when the decision fails. -/
def recordApproval (task : ReviewTask) (now : Int) : StoreM Unit := do
  approvePublicationReview task
  match ← (decideReviewTask task.id .approved now).attempt with
  | .ok () => pure ()
  | .error e =>
    match ← (removeApprovedPublicationMetadata task).attempt with
    | .ok () => Prog.throw e
    | .error e' => Prog.throw (.join e e')

/-- `decidePublicationTask` of a Maven task. -/
def decidePublicationTask (id : Nat) (approve : Bool) (now : Int) : StoreM Unit := do
  let task ← checkDecision id now
  if approve then
    recordApproval task now
    unblockPublicationReviewFiles task
  else
    deletePublicationReviewFiles task
    decideReviewTask task.id .rejected now

/-- `RestorePublicationReviewState` -/
def restorePublicationReviewState : StoreM Unit := do
  let paths ← query .reviewFiles fun s => (s.reviews.filter ReviewTask.isPending).flatMap fun t =>
    (t.files.filter fun f => !t.virtual f).map t.localPath
  Prog.forEach paths fun path => updateIndex fun idx => idx.blockFile path

end Renop.Storage
