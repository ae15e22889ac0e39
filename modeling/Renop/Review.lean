import Renop.Cargo

/-!
# Review tasks

The tables `review_tasks`, `review_task_files` and `review_task_payloads` and the calls of `review.go`,
`review_publication.go` and `maven_restore.go` that create, extend, decide and cancel a task. Each call runs in
one transaction under `reviewTaskMutationLock`, so it returns the new tables or an error that leaves them as
they were. A decision is special: an approval that can no longer be applied is committed as a cancellation
and reported as an error as well.

The five tables of packages, images, artifacts and domains are one table of `Resource` rows here, with the type
as a part of the key. SHA-256 digests stand for what they are taken of. What a call asks other tables about
accounts, teams and locks is an argument (`Access`).
-/

namespace Renop.Review

open Sql Cargo

inductive ReviewError
  | invalidRequest
  | taskNotFound
  | taskConflict
  | taskExists
  | permissionDenied
  | resourceConflict
  | publicationActive
  | publicationSealed
  | fileLimit
  | transferRestricted
  /-- `core.ErrSuperTeamBindingPermission` -/
  | bindingPermission
  /-- `core.ErrSuperTeamBindingMismatch` -/
  | bindingMismatch
  /-- `core.ErrSuperTeamNotFound` -/
  | superTeamNotFound
  /-- `ErrDockerImageNotFound`, `ErrNPMPackageNotFound`, `ErrCargoPackageNotFound` and `ErrMavenArtifactNotFound`. -/
  | packageNotFound
  | domainNotFound
  | domainClosed
  /-- `core.ErrTicketClaimRequired` -/
  | ticketClaimRequired
  /-- `core.ErrResourceLocked` -/
  | resourceLocked
  /-- `core.ErrPackageDeprecated` -/
  | packageDeprecated
  /-- A statement failed. -/
  | database
deriving DecidableEq, Repr

inductive ReviewKind
  | superTeamTransfer
  | publication
  | mavenRestore
  /-- Feedback, suggestions and reports, which `TransitionTicket` resolves. -/
  | support
deriving DecidableEq, Repr

inductive ResourceType
  | dockerImage
  | npmPackage
  | cargoPackage
  | mavenArtifact
  | mavenDomain
deriving DecidableEq, Repr

inductive ReviewStatus
  | pending
  | approved
  | rejected
  | cancelled
deriving DecidableEq, Repr

/-- `active_key`, before its SHA-256. -/
inductive ActiveKey
  | transfer (type : ResourceType) (repository key : String)
  | publication (type : ResourceType) (repository key version : String)
  | restore (repository key : String)
deriving DecidableEq, Repr

/-- A row of `review_tasks`; `resource_key` of a publication holds a key and a version. -/
structure ReviewTask where
  id : String
  kind : ReviewKind
  resourceType : ResourceType
  repository : String
  resourceKey : String
  resourceVersion : String
  resourceName : String
  sourceTeamPrefix : String
  targetTeamPrefix : String
  reviewTeamPrefix : String
  requestedByID : String
  requestedBy : String
  status : ReviewStatus
  decisionReason : String
  decidedByID : String
  decidedBy : String
  createdAt : Int
  decidedAt : Int
  activeKey : Option ActiveKey
deriving DecidableEq, Repr

/-- A row of `review_task_files`; the path stands for the `file_id`. -/
structure ReviewFile where
  taskID : String
  path : String
  size : Int
  critical : Bool
  addedAt : Int
deriving DecidableEq, Repr

def ReviewFile.key (f : ReviewFile) : String × String := (f.taskID, f.path)

/-- A row of `review_task_payloads`. -/
structure ReviewPayload where
  taskID : String
  json : String
deriving DecidableEq, Repr

/-- A row of `docker_images`, `npm_packages`, `cargo_packages`, `maven_artifacts` or `maven_domains`: what the reviews read
and write of it. An artifact's key is `group:artifact`, and only a domain is in no repository. -/
structure Resource where
  type : ResourceType
  repository : String
  key : String
  name : String
  superTeamPrefix : String
  /-- Neither mirrored nor pulled through. -/
  isLocal : Bool
  updatedAt : Int
  revision : Int
  /-- The domain of an artifact. -/
  domain : String
  reclaimHoldAt : Int
  /-- Of a domain, like the following. -/
  verificationCode : String
  verified : Bool
  createdAt : Int
  closedAt : Int
deriving DecidableEq, Repr

abbrev ResourceKey := ResourceType × String × String

def Resource.rowKey (r : Resource) : ResourceKey := (r.type, r.repository, r.key)

structure ReviewDB where
  tasks : Table ReviewTask.id
  files : Table ReviewFile.key
  payloads : Table ReviewPayload.taskID
  resources : Table Resource.rowKey

/-- `config.User`, as far as reviews ask. -/
structure ReviewUser where
  isManager : Bool
  moderates : String → Bool
  updates : String → Bool

/-- What the other tables answer during a call. -/
structure Access where
  /-- `userIDForExistingAccount`, of names that are trimmed and in lower case. -/
  existingAccount : String → Option String
  /-- `userIDForUsernameTx` -/
  userID : String → Option String
  /-- `accountEmailSessionTx`, by name and session. -/
  session : String → String → Option String
  /-- The account may act: it is not deleted, expired or banned. -/
  live : String → Bool
  /-- `reviewUserTx` -/
  user : String → Option ReviewUser
  /-- `requireTicketAssigneeTx`, by task and user. -/
  assignee : String → String → Except ReviewError Unit
  /-- `lockSuperTeamTx` and `ensureSuperTeamMutableQuery`, by prefix. -/
  superTeamLock : String → Except ReviewError Unit
  superTeamMutable : String → Except ReviewError Unit
  /-- `superTeamRoleTx`, by prefix and user. -/
  superTeamRole : String → String → Option Int
  /-- The level that `dockerEffectivePermissionTx` and its siblings compute, by resource and user. -/
  permission : ResourceKey → String → Except ReviewError (Int × Bool)
  /-- `lockMavenDomain` -/
  lockDomain : String → Except ReviewError Unit
  /-- `ensureResourceMutableQuery` and `ensureMavenMutableTx`. -/
  resourceMutable : ResourceKey → Except ReviewError Unit
  /-- The artifact has a row in `package_deprecations`, by repository and key. -/
  deprecated : String → String → Bool
  /-- The artifact has a lock beside its reclaim hold. -/
  artifactLocked : String → String → Bool

/-- `requireSuperTeamRoleTx` -/
def requireSuperTeamRole (access : Access) (teamPrefix userID : String) (required : Int) : Except ReviewError Unit :=
  if teamPrefix = "" then pure ()
  else do
    access.superTeamLock teamPrefix
    access.superTeamMutable teamPrefix
    require (∃ role ∈ access.superTeamRole teamPrefix userID, required ≤ role) .bindingPermission

/-! ### Names -/

section Names
variable (text : Text)

def sanitizeMavenDomain (value : String) : String := sanitizeInputString (text.toLower (text.trimSpace value)) 253

def sanitizeMavenRepository (value : String) : String := sanitizeInputString (text.toLower (text.trimSpace value)) 64

def sanitizeMavenUsername (value : String) : String := sanitizeInputString (text.toLower (text.trimSpace value)) 255

/-- `core.NormalizeSuperTeamPrefix` -/
def normalizeSuperTeamPrefix (value : String) : Option String :=
  let value := text.toLower (text.trimSpace value)
  let cs := value.toList
  if value.utf8ByteSize < 2 ∨ 64 < value.utf8ByteSize then none
  else if (cs.zipIdx.all fun (c, i) => ('a' ≤ c && c ≤ 'z') || c.isDigit ||
      ((c = '-' || c = '_') && 0 < i && i < cs.length - 1)) then some value
  else none

def normalizeOptionalSuperTeamPrefix (value : String) : Except ReviewError String :=
  if value = "" then pure ""
  else orError (normalizeSuperTeamPrefix text (sanitized text value 64)) .bindingMismatch

/-- `strings.LastIndexByte` at a colon, with something on both sides. -/
def splitMavenArtifactReviewKey (value : String) : Option (String × String) :=
  let value := sanitized text value 1024
  let artifact := (value.toList.reverse.takeWhile (· ≠ ':')).reverse
  let group := value.toList.take (value.toList.length - artifact.length - 1)
  if artifact.length = value.toList.length ∨ group = [] ∨ artifact = [] then none
  else
    let groupID := sanitizeMavenDomain text (String.ofList group)
    let artifactID := sanitized text (String.ofList artifact) 255
    if groupID = "" ∨ artifactID = "" then none else some (groupID, artifactID)

/-- The key under which `loadReviewResourceTx` looks for a resource. -/
def normalizeResourceKey (type : ResourceType) (repository key : String) : Option ResourceKey :=
  let repository := text.toLower (sanitized text repository 64)
  let key := sanitized text key 1024
  match type with
  | .dockerImage => some (type, text.toLower (sanitized text repository 64), text.toLower (sanitized text key 255))
  | .npmPackage => some (type, text.toLower (sanitized text repository 64), text.toLower (sanitized text key 214))
  | .cargoPackage => some (type, sanitizeCargoKey text repository key)
  | .mavenArtifact => (splitMavenArtifactReviewKey text key).map fun (group, artifact) =>
      (type, repository, group ++ ":" ++ artifact)
  | .mavenDomain => some (type, "", sanitizeMavenDomain text key)

/-- `strings.IndexByte` at a slash, and the text before it. -/
def beforeSlash (s : List Char) : Option (List Char) := if '/' ∈ s then some (s.takeWhile (· ≠ '/')) else none

/-- `core.DockerImageSuperTeamPrefix` -/
def dockerImageSuperTeamPrefix (imageName : String) : Option String :=
  let trimmed := (((text.trimSpace imageName).toList.dropWhile (· = '/')).reverse.dropWhile (· = '/')).reverse
  match beforeSlash (text.toLower (String.ofList trimmed)).toList with
  | some (c :: cs) => normalizeSuperTeamPrefix text (String.ofList (c :: cs))
  | _ => none

/-- `core.NPMPackageSuperTeamPrefix`, of a scoped package. -/
def npmPackageSuperTeamPrefix (packageName : String) : Option String :=
  match (text.toLower (text.trimSpace packageName)).toList with
  | '@' :: rest =>
    match beforeSlash rest with
    | some (c :: cs) => normalizeSuperTeamPrefix text (String.ofList (c :: cs))
    | _ => none
  | _ => none

/-- A namespaced image or a scoped package belongs to the team of its name. -/
def validateTransferNamespace (type : ResourceType) (key teamPrefix : String) (transferOut : Bool) :
    Except ReviewError Unit :=
  match type with
  | .dockerImage => do
    require (¬ (transferOut = true ∧ '/' ∈ key.toList)) .transferRestricted
    require (¬ (transferOut = false ∧ '/' ∈ key.toList ∧ dockerImageSuperTeamPrefix text key ≠ some teamPrefix))
      .bindingMismatch
  | .npmPackage =>
    match npmPackageSuperTeamPrefix text key with
    | none => pure ()
    | some required => do
      require (transferOut = false) .transferRestricted
      require (required = teamPrefix) .bindingMismatch
  | _ => pure ()

end Names

/-! ### Super-team transfers -/

/-- `reviewResourceState` -/
structure ResourceState where
  key : ResourceKey
  binding : String
  name : String
  domain : String
  isLocal : Bool

/-- `loadReviewResourceTx`; the key is the one that the request is left with. -/
def loadReviewResource (text : Text) (access : Access) (db : ReviewDB) (type : ResourceType) (repository key : String) :
    Except ReviewError ResourceState := do
  let rowKey ← orError (normalizeResourceKey text type repository key) .resourceConflict
  match type with
  | .mavenArtifact =>
    let r ← orError (db.resources.find? rowKey) .resourceConflict
    access.lockDomain r.domain
    let d ← orError (db.resources.find? (.mavenDomain, "", r.domain)) .resourceConflict
    require (d.closedAt = 0) .domainClosed
    pure ⟨rowKey, r.superTeamPrefix, rowKey.2.2, r.domain, r.isLocal⟩
  | .mavenDomain =>
    access.lockDomain rowKey.2.2
    let r ← orError (db.resources.find? rowKey) .resourceConflict
    require (r.closedAt = 0) .domainClosed
    pure ⟨rowKey, r.superTeamPrefix, r.name, "", true⟩
  | _ =>
    let r ← orError (db.resources.find? rowKey) .resourceConflict
    pure ⟨rowKey, r.superTeamPrefix, r.name, "", r.isLocal⟩

def requireTransferRequesterPermission (access : Access) (resource : ResourceState) (userID : String)
    (administrator : Bool) : Except ReviewError Unit := do
  access.superTeamMutable resource.binding
  if administrator then pure ()
  else if resource.key.1 = .mavenArtifact ∧
      (∃ p ∈ (access.permission resource.key userID).toOption, p.2 = true ∧ 4 ≤ p.1) then pure ()
  else
    -- the team of an artifact decides alone only if it says yes
    let (level, member) ← access.permission
      (if resource.key.1 = .mavenArtifact then (.mavenDomain, "", resource.domain) else resource.key) userID
    require (member = true ∧ 4 ≤ level) .permissionDenied

/-- A new pending task; the database refuses a second row with the id or the active key. -/
def insertTask (db : ReviewDB) (task : ReviewTask) : Except ReviewError ReviewDB := do
  require (∀ t ∈ db.tasks.rows, t.activeKey ≠ task.activeKey) .database
  let tasks ← db.tasks.insert task .database
  pure { db with tasks }

/-- `core.SuperTeamTransferRequest` -/
structure TransferRequest where
  resourceType : Option ResourceType
  repository : String
  resourceKey : String
  targetTeamPrefix : String

/-- The team that reviews a transfer into or out of it. -/
def transferReviewTeam (text : Text) (access : Access) (resource : ResourceState) (target actorID : String) :
    Except ReviewError String :=
  if resource.binding = "" ∧ target ≠ "" then do
    (requireSuperTeamRole access target actorID 1).mapError fun _ => .permissionDenied
    validateTransferNamespace text resource.key.1 resource.key.2.2 target false
    pure target
  else if resource.binding ≠ "" ∧ target = "" then do
    validateTransferNamespace text resource.key.1 resource.key.2.2 resource.binding true
    pure resource.binding
  else throw .resourceConflict

def createSuperTeamTransferReview (text : Text) (access : Access) (db : ReviewDB) (id : String) (request : TransferRequest)
    (actor : String) (administrator : Bool) (createdAt : Int) : Except ReviewError ReviewDB := do
  let type ← orError request.resourceType .resourceConflict
  require (0 < createdAt) .resourceConflict
  let target ← (normalizeOptionalSuperTeamPrefix text request.targetTeamPrefix).mapError fun _ => .resourceConflict
  let actor := text.toLower (text.trimSpace actor)
  let actorID ← orError (access.existingAccount actor) .permissionDenied
  let resource ← loadReviewResource text access db type request.repository request.resourceKey
  require (resource.isLocal = true) .resourceConflict
  requireTransferRequesterPermission access resource actorID administrator
  let reviewTeam ← transferReviewTeam text access resource target actorID
  let activeKey := ActiveKey.transfer type resource.key.2.1 resource.key.2.2
  require (¬ ∃ t ∈ db.tasks.rows, t.activeKey = some activeKey ∧ t.status = .pending) .taskExists
  insertTask db {
    id, kind := .superTeamTransfer, resourceType := type, repository := resource.key.2.1, resourceKey := resource.key.2.2,
    resourceVersion := "", resourceName := resource.name, sourceTeamPrefix := resource.binding, targetTeamPrefix := target,
    reviewTeamPrefix := reviewTeam, requestedByID := actorID, requestedBy := actor, status := .pending,
    decisionReason := "", decidedByID := "", decidedBy := "", createdAt, decidedAt := 0, activeKey := some activeKey }

/-- What the transfer's `UPDATE` does to its row. -/
def Resource.transfer (r : Resource) (target : String) (at_ : Int) : Resource :=
  match r.type with
  | .npmPackage => { r with superTeamPrefix := target, updatedAt := at_, revision := r.revision + 1 }
  | .mavenDomain => { r with superTeamPrefix := target }
  | _ => { r with superTeamPrefix := target, updatedAt := at_ }

@[simp] theorem Resource.transfer_rowKey (r : Resource) (target : String) (at_ : Int) :
    (r.transfer target at_).rowKey = r.rowKey := by
  unfold Resource.transfer
  split <;> rfl

/-- `UPDATE` of the row with a key, if it is as `p` says. -/
def updateResource (db : ReviewDB) (key : ResourceKey) (p : Resource → Bool) (f : Resource → Resource)
    (hf : ∀ r, (f r).rowKey = r.rowKey) : ReviewDB :=
  have hkey : ∀ r, (if r.rowKey = key ∧ p r = true then f r else r).rowKey = r.rowKey := by
    intro r
    split
    · exact hf r
    · rfl
  { db with resources := db.resources.update (fun r => if r.rowKey = key ∧ p r = true then f r else r) hkey }

/-- `RowsAffected` of that `UPDATE`. -/
def rowsAffected (db : ReviewDB) (key : ResourceKey) (p : Resource → Bool) : Nat :=
  (db.resources.rows.filter fun r => r.rowKey = key ∧ p r = true).length

/-- The requester's administrator rights at the time of the decision. -/
def requesterAdministrator (access : Access) (userID repository : String) : Bool :=
  match access.user userID with
  | none => false
  | some u => u.isManager || (repository ≠ "" && u.updates repository)

def reviewResourceStateChanged : ReviewError → Bool
  | .resourceConflict | .permissionDenied | .transferRestricted | .bindingPermission | .bindingMismatch | .packageNotFound
  | .domainNotFound | .domainClosed => true
  | _ => false

/-- `errors.Join(core.ErrReviewResourceConflict, err)` for some errors. -/
def asConflict (p : ReviewError → Bool) (e : ReviewError) : ReviewError := if p e then .resourceConflict else e

/-- The key of the row that `applySuperTeamTransferTx` updates. -/
def transferRowKey (text : Text) (task : ReviewTask) : Except ReviewError ResourceKey :=
  match task.resourceType with
  | .mavenArtifact => do
    let (group, artifact) ← orError (splitMavenArtifactReviewKey text task.resourceKey) .resourceConflict
    pure (.mavenArtifact, task.repository, group ++ ":" ++ artifact)
  | .mavenDomain => pure (.mavenDomain, "", task.resourceKey)
  | type => pure (type, task.repository, task.resourceKey)

/-- The checks of `applySuperTeamTransferTx`, and the row that it will update. -/
def transferRow (text : Text) (access : Access) (db : ReviewDB) (task : ReviewTask) : Except ReviewError ResourceKey := do
  let resource ← loadReviewResource text access db task.resourceType task.repository task.resourceKey
  require (resource.isLocal = true ∧ resource.binding = task.sourceTeamPrefix) .resourceConflict
  (requireTransferRequesterPermission access resource task.requestedByID
    (requesterAdministrator access task.requestedByID task.repository)).mapError (asConflict reviewResourceStateChanged)
  (requireSuperTeamRole access task.targetTeamPrefix task.requestedByID 1).mapError
    (asConflict fun e => e = .bindingPermission)
  validateTransferNamespace text task.resourceType task.resourceKey task.reviewTeamPrefix (task.targetTeamPrefix = "")
  let rowKey ← transferRowKey text task
  (if task.resourceType = .mavenDomain then pure () else access.resourceMutable rowKey)
  pure rowKey

/-- The `WHERE` of the transfer beside the key. -/
def transferFrom (task : ReviewTask) (r : Resource) : Bool :=
  r.superTeamPrefix = task.sourceTeamPrefix && (r.type ≠ .mavenDomain || r.closedAt = 0)

/-- The row is updated before the number of rows is looked at, and an error does not undo it. -/
def applySuperTeamTransfer (text : Text) (access : Access) (db : ReviewDB) (task : ReviewTask) (decidedAt : Int) :
    Except ReviewError Unit × ReviewDB :=
  match transferRow text access db task with
  | .error e => (.error e, db)
  | .ok rowKey =>
    (require (rowsAffected db rowKey (transferFrom task) = 1) .resourceConflict,
      updateResource db rowKey (transferFrom task) (·.transfer task.targetTeamPrefix decidedAt) fun r =>
        r.transfer_rowKey _ _)

/-! ### Restoring an artifact of a reclaimed domain -/

/-- `mavenRestoreSnapshot` -/
structure RestoreSnapshot where
  domain : String
  code : String
  createdAt : Int
  holdAt : Int
deriving DecidableEq, Repr

/-- `json.Marshal` and `json.Unmarshal` of a snapshot. -/
structure SnapshotJSON where
  marshal : RestoreSnapshot → String
  unmarshal : String → Option RestoreSnapshot

/-- The snapshot, and the teams of the artifact and of its domain. -/
def mavenRestoreState (access : Access) (db : ReviewDB) (repository key actorID : String) :
    Except ReviewError (RestoreSnapshot × String × String) := do
  require (access.live actorID = true) .permissionDenied
  let a ← orError (db.resources.find? (.mavenArtifact, repository, key)) .resourceConflict
  access.lockDomain a.domain
  let (level, member) ← (access.permission (.mavenDomain, "", a.domain) actorID).mapError fun _ => .permissionDenied
  require (member = true ∧ 4 ≤ level) .permissionDenied
  let d ← orError (db.resources.find? (.mavenDomain, "", a.domain)) .resourceConflict
  require (a.reclaimHoldAt ≠ 0 ∧ a.isLocal = true ∧ d.verified = true ∧ d.closedAt = 0) .resourceConflict
  require (access.deprecated repository key = false) .packageDeprecated
  require (access.artifactLocked repository key = false) .resourceLocked
  pure (⟨a.domain, d.verificationCode, d.createdAt, a.reclaimHoldAt⟩, a.superTeamPrefix, d.superTeamPrefix)

def maxPublicationReviewFiles : Nat := 256

def maxPendingPublicationReviews : Nat := 4096

def maxPendingPublicationPerAccount : Nat := 64

def maxPublicationReviewPayload : Nat := 6 * 2 ^ 20

def savePublicationReviewPayload (db : ReviewDB) (taskID payload : String) : Except ReviewError ReviewDB :=
  if payload = "" then pure db
  else do
    require (payload.utf8ByteSize ≤ maxPublicationReviewPayload) .invalidRequest
    match db.payloads.find? taskID with
    | some _ =>
      let payloads := db.payloads.update (fun p => if p.taskID = taskID then { p with json := payload } else p) fun p => by
        split <;> rfl
      pure { db with payloads }
    | none =>
      let payloads ← db.payloads.insert ⟨taskID, payload⟩ .database
      pure { db with payloads }

/-- The pending tasks of a kind, all and those of an account. -/
def pendingCounts (db : ReviewDB) (kind : ReviewKind) (userID : String) : Nat × Nat :=
  let tasks := db.tasks.rows.filter fun t => t.kind = kind ∧ t.status = .pending
  (tasks.length, (tasks.filter fun t => t.requestedByID = userID).length)

def createMavenRestoreReview (text : Text) (json : SnapshotJSON) (access : Access) (db : ReviewDB) (id : String)
    (repository groupID artifactID actor session : String) (createdAt : Int) : Except ReviewError ReviewDB := do
  let repository := sanitizeMavenRepository text repository
  let groupID := sanitizeMavenDomain text groupID
  let artifactID := sanitized text artifactID 255
  require (repository ≠ "" ∧ groupID ≠ "" ∧ artifactID ≠ "" ∧ 0 < createdAt) .invalidRequest
  let actor := sanitizeMavenUsername text actor
  let userID ← orError (access.session actor session) .permissionDenied
  let key := groupID ++ ":" ++ artifactID
  let (snapshot, sourceTeam, targetTeam) ← mavenRestoreState access db repository key userID
  let activeKey := ActiveKey.restore repository key
  require (¬ ∃ t ∈ db.tasks.rows, t.activeKey = some activeKey ∧ t.status = .pending) .taskExists
  let (total, owned) := pendingCounts db .mavenRestore userID
  require (total < maxPendingPublicationReviews ∧ owned < maxPendingPublicationPerAccount) .fileLimit
  let db ← insertTask db {
    id, kind := .mavenRestore, resourceType := .mavenArtifact, repository, resourceKey := key, resourceVersion := "",
    resourceName := key, sourceTeamPrefix := sourceTeam, targetTeamPrefix := targetTeam, reviewTeamPrefix := "",
    requestedByID := userID, requestedBy := actor, status := .pending, decisionReason := "", decidedByID := "",
    decidedBy := "", createdAt, decidedAt := 0, activeKey := some activeKey }
  savePublicationReviewPayload db id (json.marshal snapshot)

/-- What the restoring `UPDATE` does to its row. -/
def Resource.restore (r : Resource) (target : String) : Resource := { r with reclaimHoldAt := 0, superTeamPrefix := target }

/-- The checks of `applyMavenRestoreTx`: the row that it will update, and the snapshot. -/
def restoreRow (text : Text) (json : SnapshotJSON) (access : Access) (db : ReviewDB) (task : ReviewTask) :
    Except ReviewError (ResourceKey × RestoreSnapshot) := do
  let (group, artifact) ← orError (splitMavenArtifactReviewKey text task.resourceKey) .resourceConflict
  let payload ← orError (db.payloads.find? task.id) .resourceConflict
  require (payload.json.utf8ByteSize ≤ 2048) .resourceConflict
  let expected ← orError (json.unmarshal payload.json) .resourceConflict
  let (current, sourceTeam, targetTeam) ← mavenRestoreState access db task.repository (group ++ ":" ++ artifact)
    task.requestedByID
  require (current = expected ∧ sourceTeam = task.sourceTeamPrefix ∧ targetTeam = task.targetTeamPrefix) .resourceConflict
  pure ((.mavenArtifact, task.repository, group ++ ":" ++ artifact), expected)

/-- The `WHERE` of the restoration beside the key. -/
def restoreFrom (expected : RestoreSnapshot) (r : Resource) : Bool :=
  r.domain = expected.domain && r.reclaimHoldAt = expected.holdAt

def applyMavenRestore (text : Text) (json : SnapshotJSON) (access : Access) (db : ReviewDB) (task : ReviewTask) :
    Except ReviewError Unit × ReviewDB :=
  match restoreRow text json access db task with
  | .error e => (.error e, db)
  | .ok (rowKey, expected) =>
    (require (rowsAffected db rowKey (restoreFrom expected) = 1) .resourceConflict,
      updateResource db rowKey (restoreFrom expected) (·.restore task.targetTeamPrefix) fun _ => rfl)

/-! ### Publications -/

inductive Policy
  | off
  | newPackages
  | everyVersion
deriving DecidableEq, Repr

/-- `core.PublicationReviewRequest`; a policy or a resource type that is none of the known ones is missing. -/
structure PublicationRequest where
  resourceType : Option ResourceType
  repository : String
  resourceKey : String
  resourceName : String
  version : String
  requestedBy : String
  policy : Option Policy
  packageExists : Bool
  reviewTeamPrefix : String
  targetTeamPrefix : String
  /-- The files, whose task is not known yet. -/
  files : List ReviewFile
  payload : String
  createdAt : Int

/-- `core.ReviewVersionPackageCreation` -/
def packageCreation : String := "@create"

def maxReviewResourceKey : Nat := 1024

def normalizePublicationReviewFile (text : Text) (f : ReviewFile) (createdAt : Int) : Except ReviewError ReviewFile := do
  let slashed := (text.trimSpace f.path).toList.map fun c => if c = '\\' then '/' else c
  let path := ((slashed.dropWhile (· = '/')).reverse.dropWhile (· = '/')).reverse
  require (path ≠ [] ∧ (String.ofList path).utf8ByteSize ≤ maxReviewResourceKey ∧
    '\x00' ∉ path ∧ '\r' ∉ path ∧ '\n' ∉ path) .invalidRequest
  require (∀ segment ∈ path.splitOn '/', segment ≠ [] ∧ segment ≠ ['.'] ∧ segment ≠ ['.', '.']) .invalidRequest
  require (0 ≤ f.size) .invalidRequest
  pure { f with path := String.ofList path, addedAt := if f.addedAt ≤ 0 then createdAt else f.addedAt }

/-- The file belongs to another pending publication of the repository. -/
def elsewhere (db : ReviewDB) (taskID repository : String) (f : ReviewFile) : Bool :=
  f.taskID ≠ taskID && db.tasks.rows.any fun t =>
    t.id = f.taskID && t.kind = .publication && t.status = .pending && t.repository = repository

/-- The loop takes the file away from every other pending publication of the repository. -/
def savePublicationReviewFile (taskID repository : String) (db : ReviewDB) (file : ReviewFile) :
    Except ReviewError ReviewDB := do
  let files := db.files.delete fun f => f.path = file.path && elsewhere db taskID repository f
  match files.find? (taskID, file.path) with
  | some _ =>
    let files := files.update (fun f => if f.key = (taskID, file.path) then
      { f with size := file.size, critical := file.critical, addedAt := file.addedAt } else f) fun f => by split <;> rfl
    pure { db with files }
  | none =>
    require ((files.rows.filter fun f => f.taskID = taskID).length < maxPublicationReviewFiles) .fileLimit
    let files ← files.insert { file with taskID } .database
    pure { db with files }

/-- `PublicationReviewResult` -/
structure PublicationResult where
  pending : Bool
  taskID : String
deriving DecidableEq, Repr

/-- The lengths of the encoded key: `v1.`, two base64 texts without padding and a dot. -/
def publicationKeyLength (resourceKey version : String) : Nat :=
  let base64 := fun n : Nat => (4 * n + 2) / 3
  4 + base64 resourceKey.utf8ByteSize + base64 version.utf8ByteSize

/-- A request after normalization. -/
structure NormalPublication where
  policy : Policy
  type : ResourceType
  repository : String
  resourceKey : String
  resourceName : String
  version : String
  actor : String
  reviewTeam : String
  targetTeam : String
  files : List ReviewFile

def NormalPublication.activeKey (p : NormalPublication) : ActiveKey :=
  .publication p.type p.repository p.resourceKey p.version

/-- A member of the team asks to create a package for it. -/
def NormalPublication.teamCreation (p : NormalPublication) : Bool :=
  p.reviewTeam ≠ "" && p.targetTeam = p.reviewTeam && p.version = packageCreation

def normalizePublication (text : Text) (request : PublicationRequest) : Except ReviewError NormalPublication := do
  let policy ← orError request.policy .invalidRequest
  let type ← orError request.resourceType .invalidRequest
  let reviewTeam ← (normalizeOptionalSuperTeamPrefix text request.reviewTeamPrefix).mapError fun _ => .invalidRequest
  let targetTeam ← (normalizeOptionalSuperTeamPrefix text request.targetTeamPrefix).mapError fun _ => .invalidRequest
  let files ← request.files.mapM fun f => normalizePublicationReviewFile text f request.createdAt
  let p : NormalPublication := {
    policy, type, repository := sanitizeMavenRepository text request.repository,
    resourceKey := sanitized text request.resourceKey 512, resourceName := sanitized text request.resourceName 512,
    version := sanitized text request.version 255, actor := sanitizeMavenUsername text request.requestedBy,
    reviewTeam, targetTeam, files }
  require (p.repository ≠ "" ∧ p.resourceKey ≠ "" ∧ p.resourceName ≠ "" ∧ p.version ≠ "" ∧ p.actor ≠ "")
    .invalidRequest
  require (0 < request.createdAt ∧ files ≠ [] ∧ files.length ≤ maxPublicationReviewFiles) .invalidRequest
  require ((reviewTeam = "" ↔ targetTeam = "") ∧
    (reviewTeam ≠ "" → p.teamCreation = true ∧ policy ≠ .off)) .invalidRequest
  require (publicationKeyLength p.resourceKey p.version ≤ maxReviewResourceKey) .invalidRequest
  pure p

/-- The checks before a new publication task, when none is pending; `none` says that no review is needed. -/
def newPublication (access : Access) (db : ReviewDB) (p : NormalPublication) (packageExists : Bool) :
    Except ReviewError (Option String) :=
  if p.policy = .off then pure none
  else do
    require (¬ (∃ t ∈ db.tasks.rows, t.kind = .publication ∧ t.resourceType = p.type ∧
      t.repository = p.repository ∧ t.resourceKey = p.resourceKey ∧ t.resourceVersion = p.version ∧ t.status = .approved) ∨
        p.version = packageCreation)
      .publicationSealed
    if p.policy = .newPackages ∧ packageExists = true then pure none
    else do
      let actorID ← orError (access.userID p.actor) .permissionDenied
      require (p.teamCreation = true → access.superTeamRole p.reviewTeam actorID = some 2) .permissionDenied
      let (total, owned) := pendingCounts db .publication actorID
      require (total < maxPendingPublicationReviews ∧ owned < maxPendingPublicationPerAccount) .fileLimit
      pure (some actorID)

def publicationTask (id : String) (p : NormalPublication) (actorID : String) (createdAt : Int) : ReviewTask where
  id := id
  kind := .publication
  resourceType := p.type
  repository := p.repository
  resourceKey := p.resourceKey
  resourceVersion := p.version
  resourceName := p.resourceName
  sourceTeamPrefix := ""
  targetTeamPrefix := p.targetTeam
  reviewTeamPrefix := p.reviewTeam
  requestedByID := actorID
  requestedBy := p.actor
  status := .pending
  decisionReason := ""
  decidedByID := ""
  decidedBy := ""
  createdAt := createdAt
  decidedAt := 0
  activeKey := some p.activeKey

/-- The files and the payload of a task. -/
def attach (db : ReviewDB) (taskID : String) (p : NormalPublication) (payload : String) :
    Except ReviewError (ReviewDB × PublicationResult) := do
  let db ← p.files.foldlM (savePublicationReviewFile taskID p.repository) db
  let db ← savePublicationReviewPayload db taskID payload
  pure (db, ⟨true, taskID⟩)

def createOrUpdatePublicationReview (text : Text) (access : Access) (db : ReviewDB) (id : String)
    (request : PublicationRequest) : Except ReviewError (ReviewDB × PublicationResult) := do
  let p ← normalizePublication text request
  match db.tasks.rows.find? fun t => t.activeKey = some p.activeKey ∧ t.status = .pending with
  | none =>
    match ← newPublication access db p request.packageExists with
    | none => pure (db, ⟨false, ""⟩)
    | some actorID =>
      let db ← insertTask db (publicationTask id p actorID request.createdAt)
      attach db id p request.payload
  | some t =>
    require (access.userID p.actor = some t.requestedByID) .permissionDenied
    -- the team has transferred the package in the meantime
    if t.reviewTeamPrefix = "" ∧ t.targetTeamPrefix = p.targetTeam ∧ p.reviewTeam = p.targetTeam ∧
      p.targetTeam ≠ "" then
      pure (db, ⟨true, t.id⟩)
    else do
      require (t.reviewTeamPrefix = p.reviewTeam ∧ t.targetTeamPrefix = p.targetTeam) .permissionDenied
      attach db t.id p request.payload

/-! ### Decisions -/

def publicationReviewSettleMillis : Int := 5000

/-- `COALESCE(MAX(added_at), created_at)` over the files of a task. -/
def updatedAt (db : ReviewDB) (task : ReviewTask) : Int :=
  match db.files.rows.filter fun f => f.taskID = task.id with
  | [] => task.createdAt
  | f :: fs => fs.foldl (fun m f => max m f.addedAt) f.addedAt

/-- `core.NormalizeSuperTeamText` without a lower bound. -/
def normalizeSuperTeamText (text : Text) (value : String) (maxRunes : Nat) : Option String :=
  let value := text.trimSpace value
  if value.length ≤ maxRunes ∧ (value.toList.all fun c => !(c.toNat < 32 || (127 ≤ c.toNat && c.toNat < 160))) =
    true then
    some value
  else none

/-- The reviewer's rights, and for a publication that no file was added lately. -/
def checkReviewer (access : Access) (db : ReviewDB) (task : ReviewTask) (actorID : String) (decidedAt : Int) :
    Except ReviewError Unit := do
  let reviewer ← orError (access.user actorID) .permissionDenied
  match task.kind with
  | .publication =>
    if task.reviewTeamPrefix = "" then require (reviewer.moderates task.repository = true) .permissionDenied
    else if reviewer.isManager then pure ()
    else (requireSuperTeamRole access task.reviewTeamPrefix actorID 3).mapError fun _ => .permissionDenied
    require (publicationReviewSettleMillis ≤ decidedAt - updatedAt db task) .publicationActive
  | .mavenRestore => require (reviewer.moderates task.repository = true) .permissionDenied
  | _ =>
    if reviewer.isManager then pure ()
    else (requireSuperTeamRole access task.reviewTeamPrefix actorID 3).mapError fun _ => .permissionDenied

/-- `UPDATE review_tasks SET status = ? … WHERE id = ? AND status = 'pending'` -/
def completeTask (db : ReviewDB) (id : String) (status : ReviewStatus) (reason actorID actor : String) (decidedAt : Int) :
    ReviewDB :=
  let tasks := db.tasks.update (fun t => if t.id = id ∧ t.status = .pending then
    { t with status, decisionReason := reason, decidedByID := actorID, decidedBy := actor, decidedAt, activeKey := none }
    else t) fun t => by split <;> rfl
  { db with tasks }

def deletePayload (db : ReviewDB) (taskID : String) : ReviewDB :=
  { db with payloads := db.payloads.delete fun p => p.taskID = taskID }

/-- What an approval does to the resource of the task. -/
def applyApproval (text : Text) (json : SnapshotJSON) (access : Access) (db : ReviewDB) (task : ReviewTask)
    (decidedAt : Int) : Except ReviewError Unit × ReviewDB :=
  match task.kind with
  | .superTeamTransfer => applySuperTeamTransfer text access db task decidedAt
  | .mavenRestore => applyMavenRestore text json access db task
  | _ => (.ok (), db)

/-- The end of the transaction. -/
def finishDecision (db : ReviewDB) (task : ReviewTask) (status : ReviewStatus) (reason actorID actor : String)
    (decidedAt : Int) : ReviewDB :=
  let db := completeTask db task.id status reason actorID actor decidedAt
  if task.kind = .publication ∨ task.kind = .mavenRestore then deletePayload db task.id else db

/-- The new tables, the status that the task ends with, and the error of an approval that became a cancellation. -/
def decideReviewTask (text : Text) (json : SnapshotJSON) (access : Access) (db : ReviewDB) (id actor : String)
    (decision : ReviewStatus) (reason : String) (decidedAt : Int) :
    Except ReviewError (ReviewDB × ReviewStatus × Option ReviewError) := do
  let id := sanitized text id 64
  let reason ← orError (normalizeSuperTeamText text reason 512) .invalidRequest
  require (id ≠ "" ∧ 0 < decidedAt) .invalidRequest
  require (decision = .approved ∨ (decision = .rejected ∧ reason ≠ "")) .invalidRequest
  let reason := if decision = .approved then "" else reason
  let actor := text.toLower (text.trimSpace actor)
  let actorID ← orError (access.existingAccount actor) .permissionDenied
  let task ← orError (db.tasks.find? id) .taskNotFound
  require (task.status = .pending) .taskConflict
  require (task.kind ≠ .support) .invalidRequest
  access.assignee task.id actorID
  checkReviewer access db task actorID decidedAt
  if decision = .approved then
    match applyApproval text json access db task decidedAt with
    | (.ok (), db) => pure (finishDecision db task .approved reason actorID actor decidedAt, .approved, none)
    | (.error e, db) => do
      require (reviewResourceStateChanged e = true) e
      pure (finishDecision db task .cancelled "resource_changed" actorID actor decidedAt, .cancelled, some e)
  else pure (finishDecision db task .rejected reason actorID actor decidedAt, .rejected, none)

def cancelReviewTask (text : Text) (access : Access) (db : ReviewDB) (id actor : String) (cancelledAt : Int) :
    Except ReviewError ReviewDB := do
  let id := sanitized text id 64
  let actor := text.toLower (text.trimSpace actor)
  let actorID ← orError (access.existingAccount actor) .permissionDenied
  require (id ≠ "" ∧ 0 < cancelledAt) .permissionDenied
  let task ← orError (db.tasks.find? id) .taskNotFound
  require (task.status = .pending) .taskConflict
  require (task.kind ≠ .publication) .invalidRequest
  require (task.requestedByID = actorID) .permissionDenied
  pure (deletePayload (completeTask db task.id .cancelled "request_cancelled" actorID actor cancelledAt) task.id)

end Renop.Review
