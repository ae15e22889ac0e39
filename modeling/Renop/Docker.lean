import Renop.Interleave
import Renop.ResourceLock

/-!
# The tables of the Docker registry

Names, tables and the database calls of `docker.go`, `docker_locks.go` and `auth.go` that decide who may read or write an
image. A request names an image as it likes, and every call makes its own key of that name.
-/

namespace Renop.Docker

open Sql
open Renop.Locks
open Renop.SuperTeam (Text)
open Renop.Cargo (Key sanitized)

/-! ### Names -/

/-- `strings.Trim(s, "/")` -/
def trimSlash (s : String) : String :=
  String.ofList ((s.toList.dropWhile (· = '/')).reverse.dropWhile (· = '/')).reverse

/-- A one-segment name stands for an image and for its repository. -/
def parseRepositoryAndImage (fullName : String) : String × String :=
  match (trimSlash fullName).toList.splitOn '/' with
  | [] | [] :: _ => ("", "")
  | [repository] => (String.ofList repository, String.ofList repository)
  | repository :: parts => (String.ofList repository, String.ofList (['/'].intercalate parts))

example : parseRepositoryAndImage "docker-local/app/service/" = ("docker-local", "app/service") := by decide +kernel

/-- `strings.Cut` at the first `sep`. -/
def cut (sep : List Char) : List Char → Option (List Char × List Char)
  | [] => none
  | c :: cs =>
    if sep.isPrefixOf (c :: cs) then some ([], (c :: cs).drop sep.length)
    else (cut sep cs).map fun (before, after) => (c :: before, after)

inductive Endpoint
  | tagsList (name : String)
  | manifest (name reference : String)
  | blob (name digest : String)
deriving DecidableEq, Repr

/-- The dispatcher of `/v2/*`, for the calls that read. -/
def dispatch (path : String) : Option Endpoint :=
  let path := if Storage.hasPrefix path "/v2/" then String.ofList (path.toList.drop 4) else path
  let path := trimSlash path
  if path ∈ ["", "_catalog", "token", "auth"] then none
  else match Storage.cutSuffix path "/tags/list" with
    | some name => some (.tagsList name)
    | none =>
      match cut "/manifests/".toList path.toList with
      | some (name, reference) => some (.manifest (String.ofList name) (String.ofList reference))
      | none =>
        if (cut "/blobs/uploads".toList path.toList).isSome then none
        else (cut "/blobs/".toList path.toList).map fun (name, digest) => .blob (String.ofList name) (String.ofList digest)

section Sanitize
variable (text : Text)

def sanitizeDockerKey (repository imageName : String) : Key :=
  (text.toLower (sanitized text.toText repository 64), text.toLower (sanitized text.toText imageName 255))

def sanitizeDockerUsername (username : String) : String := text.toLower (sanitized text.toText username 255)

/-- How the tables keep the digest of a manifest or a blob. -/
def dockerDigest (digest : String) : String := text.toLower (sanitized text.toText digest 128)

def dockerTag (tag : String) : String := sanitized text.toText tag 128

end Sanitize

/-! ### The tables -/

/-- A row of `docker_images`. -/
structure DockerImage where
  repository : String
  imageName : String
  superTeamPrefix : String
  isPrivate : Bool
  pushEnabled : Bool
deriving DecidableEq, Repr

def DockerImage.key (i : DockerImage) : Key := (i.repository, i.imageName)

structure DockerMember where
  repository : String
  imageName : String
  userID : String
  permissionLevel : Int
deriving DecidableEq, Repr

def DockerMember.key (m : DockerMember) : String × String × String := (m.repository, m.imageName, m.userID)

structure DockerTag where
  repository : String
  imageName : String
  tag : String
  digest : String
  mediaType : String
  size : Int
deriving DecidableEq, Repr

def DockerTag.key (t : DockerTag) : String × String × String := (t.repository, t.imageName, t.tag)

structure DockerManifest where
  repository : String
  imageName : String
  digest : String
  mediaType : String
  size : Int
  rawJSON : String
deriving DecidableEq, Repr

def DockerManifest.key (m : DockerManifest) : String × String × String := (m.repository, m.imageName, m.digest)

/-- A row of `docker_image_blobs`; an uploaded or mounted blob has no manifest yet. -/
structure ImageBlob where
  repository : String
  imageName : String
  manifestDigest : String
  blobDigest : String
deriving DecidableEq, Repr

def ImageBlob.key (b : ImageBlob) : Key := (b.repository, b.imageName)

structure DockerBlob where
  repository : String
  digest : String
  size : Int
deriving DecidableEq, Repr

def DockerBlob.key (b : DockerBlob) : String × String := (b.repository, b.digest)

/-- The tables that say who may do what: they change by calls that are not about contents. -/
structure Accounts where
  images : Table DockerImage.key
  members : Table DockerMember.key
  /-- `role_level` in `super_team_members`, by prefix and user id. -/
  teamRole : String → String → Option Int
  /-- `user_id` in `user_profiles`, by username. -/
  profile : String → Option String
  locks : Table LockRow.key
  captured : List CapturedVersion

structure DockerDB extends Accounts where
  tags : Table DockerTag.key
  manifests : Table DockerManifest.key
  imageBlobs : List ImageBlob
  blobs : Table DockerBlob.key

def DockerImage.package (i : DockerImage) : PackageRow := ⟨i.repository, i.imageName, i.superTeamPrefix⟩

/-- The tables as the calls of `resource_lock.go` see them. -/
def DockerDB.lockDB (db : DockerDB) : LockDB where
  locks := db.locks
  captured := db.captured
  packages f := match f with
    | .docker => ⟨db.images.rows.map DockerImage.package, by
        rw [List.map_map]
        exact db.images.nodup⟩
    | .cargo | .npm => .empty
  member _ repository imageName userID := (db.members.find? (repository, imageName, userID)).isSome
  teamMember pre userID := (db.teamRole pre userID).isSome
  profile := db.profile
  manifests := db.manifests.rows.map fun m => ⟨m.repository, m.imageName, m.digest, m.rawJSON⟩

inductive DockerError
  /-- `NAME_UNKNOWN` -/
  | nameUnknown
  | unauthorized
  | denied
  | manifestInvalid
  | manifestUnknown
  | digestInvalid
  | tagInvalid
  | blobUnknown
  | uploadInvalid
  | uploadUnknown
  | resourceLocked
  | imageNotFound
  | imageExists
  | tagNotFound
  | manifestNotFound
  | reviewConflict
  | invalidRequest
  | unavailable
  /-- The answer of a mirror is refused. -/
  | badGateway
deriving DecidableEq, Repr

section Queries
variable (text : Text) (db : DockerDB)

/-! ### Access -/

/-- What `GetDockerImageAccess` returns. -/
structure Access where
  present : Bool
  isPrivate : Bool
  pushEnabled : Bool
  member : Bool
  level : Int
deriving DecidableEq, Repr

/-- The user id that a query of the images looks for; guests have none. -/
def DockerDB.userID (username : String) : String :=
  let username := sanitizeDockerUsername text username
  if username = "" ∨ username = "guest" then "" else (userIDForUsername text db.lockDB username).getD ""

def getDockerImageAccess (repository imageName username : String) : Access :=
  let key := sanitizeDockerKey text repository imageName
  let userID := db.userID text username
  match db.images.find? key with
  | none => ⟨false, false, false, false, 0⟩
  | some i =>
    let permission := effectiveBoundPermission
      ((db.members.find? (i.repository, i.imageName, userID)).map (·.permissionLevel)) (db.teamRole i.superTeamPrefix userID)
    ⟨true, i.isPrivate, i.pushEnabled, permission.2, permission.1⟩

/-- A member of some image of a repository. -/
def hasDockerMembership (repository username : String) : Bool :=
  let repository := (sanitizeDockerKey text repository "").1
  let username := sanitizeDockerUsername text username
  if username = "" then false
  else match userIDForUsername text db.lockDB username with
    | none => false
    | some userID => db.images.rows.any fun i => i.repository = repository &&
        ((db.members.find? (i.repository, i.imageName, userID)).isSome || (db.teamRole i.superTeamPrefix userID).isSome)

/-- `dockerLockTarget` and `GetResourceLocks`. -/
def dockerLocks (repository imageName digest : String) : Except DockerError (List ResourceLock) :=
  (getResourceLocks text db.lockDB .docker repository imageName digest false).mapError fun _ => .unavailable

/-- `ensureResourceMutableQuery` -/
def ensureResourceMutable (repository imageName digest : String) (allVersions : Bool) : Except DockerError Unit := do
  let target ← (normalizePackageTarget text .docker repository imageName digest).mapError fun _ => .unavailable
  require ((resourceLocksQuery db.lockDB .docker).all (fun l =>
    !(l.target.format = target.format && l.target.repository = target.repository && l.target.name = target.name &&
      (allVersions || l.target.version = "" || l.target.version = target.version))) = true) .resourceLocked

/-- `ensureDockerTagMutableQuery` -/
def ensureDockerTagMutable (repository imageName tag : String) : Except DockerError Unit :=
  ensureResourceMutable text db repository imageName (((db.tags.find? (repository, imageName, tag)).map (·.digest)).getD "")
    false

def ensureDockerManifestMutable (repository imageName digest tag : String) : Except DockerError Unit := do
  ensureResourceMutable text db repository imageName digest false
  if tag ≠ "" then ensureDockerTagMutable text db repository imageName tag

/-- `ensureDockerBlobMutableQuery` -/
def ensureDockerBlobMutable (repository digest : String) : Except DockerError Unit :=
  require ((resourceLocksQuery db.lockDB .docker).all (fun l =>
    !(l.target.format = .package .docker && l.target.repository = repository && (l.target.version = digest ||
      db.imageBlobs.any fun b => b.repository = l.target.repository && b.imageName = l.target.name && b.blobDigest = digest &&
        (l.target.version = "" || l.target.version = b.manifestDigest)))) = true) .resourceLocked

/-! ### Reading -/

def getDockerTag (repository imageName tag : String) : Option DockerTag :=
  let key := sanitizeDockerKey text repository imageName
  db.tags.find? (key.1, key.2, dockerTag text tag)

def getDockerManifest (repository imageName digest : String) : Option DockerManifest :=
  let key := sanitizeDockerKey text repository imageName
  db.manifests.find? (key.1, key.2, dockerDigest text digest)

def hasDockerBlob (repository digest : String) : Bool :=
  (db.blobs.find? ((sanitizeDockerKey text repository "").1, dockerDigest text digest)).isSome

def dockerImageReferencesBlob (repository imageName digest : String) : Bool :=
  let key := sanitizeDockerKey text repository imageName
  db.imageBlobs.any fun b => b.key = key && b.blobDigest = dockerDigest text digest

/-- The tags that a viewer sees: those of members, and those without a read lock. -/
def tagVisible (userID : String) (t : DockerTag) : Bool :=
  match db.images.find? (t.repository, t.imageName) with
  | none => false
  | some i =>
    (db.members.find? (i.repository, i.imageName, userID)).isSome || (db.teamRole i.superTeamPrefix userID).isSome ||
      (resourceLocksQuery db.lockDB .docker).all fun l =>
        !(l.target.format = .package .docker && l.mode = .read && l.target.repository = t.repository &&
          l.target.name = t.imageName && (l.target.version = "" || l.target.version = t.digest))

def listDockerTagsForViewer (repository imageName last : String) (limit : Int) (username : String) (moderator : Bool) :
    List DockerTag :=
  let key := sanitizeDockerKey text repository imageName
  let last := dockerTag text last
  let limit := if limit < 1 ∨ limit > 100 then 50 else limit
  let rows := db.tags.rows.filter fun t => t.repository = key.1 && t.imageName = key.2 &&
    (moderator || tagVisible db (viewerID text db.lockDB username) t) && (last = "" || last < t.tag)
  (rows.insertionSort fun t u => t.tag ≤ u.tag).take limit.toNat

end Queries

/-! ### Writing -/

section Writes
variable (text : Text) (db : DockerDB)

/-- `recordDockerBlob` -/
def recordDockerBlob (repository digest : String) (size : Int) : Except DockerError DockerDB := do
  let row : DockerBlob := ⟨(sanitizeDockerKey text repository "").1, dockerDigest text digest, size⟩
  if (db.blobs.find? row.key).isSome then pure db
  else
    let blobs ← db.blobs.insert row .unavailable
    pure { db with blobs }

def recordDockerImageBlob (repository imageName digest : String) : Except DockerError DockerDB := do
  let (repository, imageName) := sanitizeDockerKey text repository imageName
  let digest := dockerDigest text digest
  require (repository ≠ "" ∧ imageName ≠ "" ∧ digest ≠ "") .digestInvalid
  ensureResourceMutable text db repository imageName digest false
  let row : ImageBlob := ⟨repository, imageName, "", digest⟩
  if row ∈ db.imageBlobs then pure db else pure { db with imageBlobs := db.imageBlobs ++ [row] }

/-- `core.DockerManifest`, as a push, an approval or the cache of a mirror writes it. -/
structure ManifestWrite where
  repository : String
  imageName : String
  digest : String
  mediaType : String
  size : Int
  configDigest : String
  blobDigests : List String
  rawJSON : String
deriving DecidableEq, Repr

/-- `normalizeDockerManifestWrite`; the digests of the blobs are normalized as they are written. -/
def normalizeDockerManifestWrite (m : ManifestWrite) (tag username : String) :
    Except DockerError (ManifestWrite × String) := do
  let key := sanitizeDockerKey text m.repository m.imageName
  let write : ManifestWrite := { m with
    repository := key.1, imageName := key.2, digest := dockerDigest text m.digest
    mediaType := sanitized text.toText m.mediaType 128, configDigest := dockerDigest text m.configDigest }
  require (write.repository ≠ "" ∧ write.imageName ≠ "" ∧ write.digest ≠ "" ∧ write.mediaType ≠ "" ∧
    sanitizeDockerUsername text username ≠ "") .manifestInvalid
  pure (write, dockerTag text tag)

/-- The links of a manifest take the place of those that it had, and of the links of uploads. -/
def linkBlobs (m : ManifestWrite) (links : List ImageBlob) : List ImageBlob :=
  let digests := ((m.blobDigests.map (dockerDigest text)).filter (· ≠ "")).dedup
  let links := links.filter fun b => !(b.repository = m.repository && b.imageName = m.imageName && b.manifestDigest =
    m.digest)
  digests.foldl (fun links digest =>
    (links.filter fun b => !(b.repository = m.repository && b.imageName = m.imageName && b.manifestDigest = "" &&
      b.blobDigest = digest)) ++ [⟨m.repository, m.imageName, m.digest, digest⟩]) links

def upsertManifest (m : ManifestWrite) : Except DockerError (Table DockerManifest.key) :=
  if (db.manifests.find? (m.repository, m.imageName, m.digest)).isSome then
    pure (db.manifests.update (fun r => if r.key = (m.repository, m.imageName, m.digest) then
      { r with mediaType := m.mediaType, size := m.size, rawJSON := m.rawJSON } else r)
      (fun r => by split <;> rfl))
  else db.manifests.insert ⟨m.repository, m.imageName, m.digest, m.mediaType, m.size, m.rawJSON⟩ .unavailable

def upsertTag (m : ManifestWrite) (tag : String) : Except DockerError (Table DockerTag.key) :=
  if tag = "" ∨ Storage.hasPrefix tag "sha256:" = true then pure db.tags
  else if (db.tags.find? (m.repository, m.imageName, tag)).isSome then
    pure (db.tags.update (fun t => if t.key = (m.repository, m.imageName, tag) then
      { t with digest := m.digest, mediaType := m.mediaType, size := m.size } else t)
      (fun t => by split <;> rfl))
  else db.tags.insert ⟨m.repository, m.imageName, tag, m.digest, m.mediaType, m.size⟩ .unavailable

/-- The row of the image: only the cache of a mirror may create one, and only there it may write. -/
def imageForManifest (m : ManifestWrite) (allowMirrorCreate : Bool) : Except DockerError (Table DockerImage.key) :=
  match db.images.find? (m.repository, m.imageName) with
  | none =>
    if allowMirrorCreate then db.images.insert ⟨m.repository, m.imageName, "", false, false⟩ .unavailable
    else .error .imageNotFound
  | some i =>
    if allowMirrorCreate ∧ i.pushEnabled = true then .error .imageExists
    else if allowMirrorCreate = false ∧ i.pushEnabled = false then .error .imageNotFound
    else .ok db.images

/-- `putDockerManifestTx` -/
def putDockerManifestTx (m : ManifestWrite) (tag : String) (allowMirrorCreate : Bool) : Except DockerError DockerDB := do
  let images ← imageForManifest db m allowMirrorCreate
  let db := { db with images }
  ensureResourceMutable text db m.repository m.imageName m.digest false
  if tag ≠ "" then ensureDockerTagMutable text db m.repository m.imageName tag
  let manifests ← upsertManifest db m
  let tags ← upsertTag db m tag
  pure { db with manifests, tags, imageBlobs := linkBlobs text m db.imageBlobs }

/-- `PutDockerManifest` and `CacheDockerManifest` -/
def putDockerManifest (m : ManifestWrite) (tag username : String) (allowMirrorCreate : Bool) :
    Except DockerError DockerDB := do
  let (write, tag) ← normalizeDockerManifestWrite text m tag username
  putDockerManifestTx text db write tag allowMirrorCreate

/-- `lockDockerImageRow` -/
def lockDockerImageRow (repository imageName : String) : Except DockerError Unit :=
  require ((db.images.find? (repository, imageName)).isSome = true) .imageNotFound

def deleteDockerTag (repository imageName tag : String) : Except DockerError DockerDB := do
  let (repository, imageName) := sanitizeDockerKey text repository imageName
  let tag := dockerTag text tag
  lockDockerImageRow db repository imageName
  ensureResourceMutable text db repository imageName "" false
  ensureDockerTagMutable text db repository imageName tag
  require ((db.tags.find? (repository, imageName, tag)).isSome = true) .tagNotFound
  pure { db with tags := db.tags.delete fun t => t.key = (repository, imageName, tag) }

def deleteDockerManifest (repository imageName digest : String) : Except DockerError DockerDB := do
  let (repository, imageName) := sanitizeDockerKey text repository imageName
  let digest := dockerDigest text digest
  lockDockerImageRow db repository imageName
  ensureResourceMutable text db repository imageName digest false
  require ((db.manifests.find? (repository, imageName, digest)).isSome = true) .manifestNotFound
  pure { db with
    tags := db.tags.delete fun t => t.repository = repository && t.imageName = imageName && t.digest = digest
    imageBlobs := db.imageBlobs.filter fun b => !(b.repository = repository && b.imageName = imageName &&
      b.manifestDigest = digest)
    manifests := db.manifests.delete fun m => m.key = (repository, imageName, digest) }

def deleteDockerBlob (repository digest : String) : Except DockerError DockerDB := do
  let repository := (sanitizeDockerKey text repository "").1
  let digest := dockerDigest text digest
  ensureDockerBlobMutable db repository digest
  pure { db with
    imageBlobs := db.imageBlobs.filter fun b => !(b.repository = repository && b.blobDigest = digest)
    blobs := db.blobs.delete fun b => b.key = (repository, digest) }

def deleteDockerImage (repository imageName : String) : Except DockerError DockerDB := do
  let key := sanitizeDockerKey text repository imageName
  lockDockerImageRow db key.1 key.2
  ensureResourceMutable text db key.1 key.2 "" true
  pure { db with
    members := db.members.delete fun m => m.repository = key.1 && m.imageName = key.2
    imageBlobs := db.imageBlobs.filter fun b => !(b.key = key)
    tags := db.tags.delete fun t => t.repository = key.1 && t.imageName = key.2
    manifests := db.manifests.delete fun m => m.repository = key.1 && m.imageName = key.2
    images := db.images.delete fun i => i.key = key }

/-- `EnsureRepositoryResourcesMutable` is checked by the caller. -/
def deleteDockerRepository (repository : String) : DockerDB :=
  let repository := (sanitizeDockerKey text repository "").1
  { db with
    imageBlobs := db.imageBlobs.filter fun b => !(b.repository = repository)
    members := db.members.delete fun m => m.repository = repository
    tags := db.tags.delete fun t => t.repository = repository
    manifests := db.manifests.delete fun m => m.repository = repository
    images := db.images.delete fun i => i.repository = repository
    blobs := db.blobs.delete fun b => b.repository = repository }

end Writes

/-! ### Permissions -/

inductive Visibility
  | PUBLIC
  | HIDDEN
  | PRIVATE
  /-- Any other text. -/
  | other
deriving DecidableEq, Repr

/-- What the configuration says of a repository of the Docker format. -/
structure RepositoryConfig where
  visibility : Visibility
  reviewEveryVersion : Bool
  /-- `GetCacheConfig`: what mirrors answer is kept. -/
  persist : Bool
deriving DecidableEq, Repr

/-- `config.Repository` -/
structure Repository extends RepositoryConfig where
  name : String
deriving DecidableEq, Repr

structure User where
  username : String
  roles : List String
deriving DecidableEq, Repr

namespace User
variable (u : User)

/-- `initPermissions` makes the two the same. -/
def isManager : Bool := "manager" ∈ u.roles || "admin" ∈ u.roles

def isAllView : Bool := "allview" ∈ u.roles || "proview" ∈ u.roles

/-- A role for every repository, or for one. -/
def hasRole (verb repoName : String) : Bool :=
  (verb ++ ":*") ∈ u.roles || (repoName ≠ "" && (verb ++ ":" ++ repoName) ∈ u.roles)

def checkModeratePermission (repoName : String) : Bool := u.isManager || u.hasRole "canmoderate" repoName

def checkUpdatePermission (repoName : String) : Bool := u.isManager || u.hasRole "canupdate" repoName

/-- `CheckReadPermission` of a path that is not a directory. -/
def checkReadPermission (repoName : String) (visibility : Visibility) : Bool :=
  match visibility with
  | .other => false
  | .PUBLIC | .HIDDEN => true
  | .PRIVATE =>
    u.isManager || u.hasRole "canupdate" repoName || u.hasRole "canmoderate" repoName || u.hasRole "canview"
      repoName || u.isAllView

end User

section Access
variable (text : Text) (db : DockerDB)

/-- The part of `CanReadDocker` that is about the repository. -/
def canReadRepository (user : User) (repo : Repository) : Bool :=
  if repo.visibility = .PUBLIC ∨ repo.visibility = .HIDDEN then true
  else if user.checkReadPermission repo.name repo.visibility then true
  else if user.username = "" ∨ text.equalFold user.username "guest" = true then false
  else hasDockerMembership text db repo.name user.username

/-- The part of `CanReadDocker` that is about the image. -/
def canReadImage (user : User) (repo : Repository) (imageName : String) : Bool :=
  let access := getDockerImageAccess text db repo.name imageName user.username
  match dockerLocks text db repo.name imageName "" with
  | .error _ => false
  | .ok locks =>
    if readLocked locks then access.member || user.checkModeratePermission repo.name
    else if access.present && access.isPrivate then
      user.isManager || user.checkUpdatePermission repo.name || access.member
    else canReadRepository text db user repo

/-- `CanReadDocker`: a path without a slash is a repository. -/
def canReadDocker (user : User) (repo : Repository) (path : String) : Bool :=
  if '/' ∈ (trimSlash path).toList then canReadImage text db user repo (parseRepositoryAndImage path).2
  else canReadRepository text db user repo

def dockerPermissionPublish : Int := 1

/-- `CanWriteDocker`, with `EnsurePackageMutable` without the table of deprecations. -/
def canWriteDocker (user : User) (repo : Repository) (repoFullName : String) : Bool :=
  if user.username = "" ∨ text.equalFold user.username "guest" = true ∨ '/' ∉ (trimSlash repoFullName).toList then false
  else
    let imageName := (parseRepositoryAndImage repoFullName).2
    match ensureResourceMutable text db repo.name imageName "" false with
    | .error _ => false
    | .ok _ =>
      let access := getDockerImageAccess text db repo.name imageName user.username
      access.present && access.pushEnabled &&
        (user.isManager || user.checkUpdatePermission repo.name || (access.member && dockerPermissionPublish ≤
          access.level))

end Access

end Renop.Docker
