import Mathlib.Data.List.Sort
import Renop.MavenLocks
import Renop.SuperTeamMembers

/-!
# Locks of packages

`resource_locks` holds the locks that moderators and the system set, on a team, a domain, a package or a version of it.
A package also has the locks of its team, and a lock of a Docker version captures the contents it refers to. This is
what `resource_lock.go` does for the formats Cargo, npm and Docker on systems where file names keep their case.

The key of a lock is a digest of its target. Here it is the text that the digest is of, and a row is numbered by its
own target, since no statement writes it otherwise.
-/

namespace Renop.Locks

open Sql
open Renop.SuperTeam (Text normalizeSuperTeamPrefix normalizeSuperTeamText)
open Renop.Maven (LockMode)

/-! ### Targets -/

inductive PackageFormat
  | cargo
  | npm
  | docker
deriving DecidableEq, Repr

inductive LockFormat
  | package (f : PackageFormat)
  | maven
  | mavenDomain
  | superTeam
deriving DecidableEq, Repr

def LockFormat.name : LockFormat → String
  | package .cargo => "cargo"
  | package .npm => "npm"
  | package .docker => "docker"
  | maven => "maven"
  | mavenDomain => "maven-domain"
  | superTeam => "superteam"

/-- `core.ResourceLockTarget` -/
structure LockTarget where
  format : LockFormat
  repository : String
  name : String
  version : String
deriving DecidableEq, Repr

inductive LockError
  | invalid
  | permission
  | manifestInvalid
  | imageNotFound
  /-- The row of a team, a domain or an artifact is missing. -/
  | targetNotFound
  | database
deriving DecidableEq, Repr

def maxPackageDeprecationKeyBytes : Nat := 8192

section Normalize
variable (text : Text)

/-- The name of a package as `normalizePackageDeprecation` stores it. -/
def packageKeyName (f : PackageFormat) (packageKey : String) : String :=
  let packageKey := text.toLower packageKey
  match f with
  | .cargo => String.ofList (packageKey.toList.map fun c => if c = '_' then '-' else c)
  | .npm | .docker => packageKey

/-- The repository and the name, trimmed and within their bounds. -/
def boundedPackage (repository packageKey : String) : Except LockError (String × String) := do
  let repository := text.toLower (text.trimSpace repository)
  let packageKey := text.trimSpace packageKey
  require (repository ≠ "" ∧ repository.utf8ByteSize ≤ 255 ∧ packageKey ≠ "" ∧
    packageKey.utf8ByteSize ≤ maxPackageDeprecationKeyBytes) .invalid
  pure (repository, packageKey)

def checkVersion (version : String) : Except LockError Unit :=
  require (version.utf8ByteSize ≤ 255 ∧ version.toList.any text.isControl = false ∧ text.trimSpace version = version)
    .invalid

def normalizePackageTarget (f : PackageFormat) (repository name version : String) : Except LockError LockTarget := do
  let (repository, packageKey) ← boundedPackage text repository name
  let version := match f with
    | .docker => text.toLower version
    | .cargo | .npm => version
  checkVersion text version
  pure ⟨.package f, repository, packageKeyName text f packageKey, version⟩

/-- `normalizeResourceLockTarget` -/
def normalizeResourceLockTarget (target : LockTarget) : Except LockError LockTarget :=
  match target.format with
  | .mavenDomain => do
    let domain := Cargo.sanitizeInputString (text.toLower (text.trimSpace target.name)) 253
    require (target.repository = "" ∧ target.version = "" ∧ domain ≠ "" ∧ domain.utf8ByteSize ≤ 253 ∧
      Storage.validMavenCoordinatePart domain = true) .invalid
    pure ⟨.mavenDomain, "", domain, ""⟩
  | .superTeam => do
    let pre ← orError (normalizeSuperTeamPrefix text target.name) .invalid
    require (target.repository = "" ∧ target.version = "") .invalid
    pure ⟨.superTeam, "", pre, ""⟩
  | .maven => do
    let (repository, packageKey) ← boundedPackage text target.repository target.name
    let (group, artifact) ← orError (Maven.cutColon packageKey) .invalid
    require (group ≠ "" ∧ artifact ≠ "" ∧ ':' ∉ artifact.toList) .invalid
    checkVersion text target.version
    pure ⟨.maven, repository, text.toLower group ++ ":" ++ artifact, target.version⟩
  | .package f => normalizePackageTarget text f target.repository target.name target.version

end Normalize

/-- A text with its length before it. -/
def sized (s : String) : String := s.utf8ByteSize.repr ++ ":" ++ s

def packageDeprecationID (format repository packageKey : String) : String :=
  sized format ++ sized repository ++ sized packageKey

def resourceLockID (t : LockTarget) : String :=
  packageDeprecationID t.format.name t.repository (sized t.name ++ sized t.version)

/-! ### The tables -/

inductive LockSource
  | manual
  | system
deriving DecidableEq, Repr

/-- `core.ValidResourceLockReason` -/
inductive LockReason
  | hold
  | prohibited
  | expired
  | trojan
  | abuse
  | dmca
  | reup
  | squatting
  | quality
  | custom
deriving DecidableEq, Repr

/-- A row of `resource_locks`, and a lock as it is set. -/
structure LockRow where
  target : LockTarget
  source : LockSource
  mode : LockMode
  reason : LockReason
  reasonText : String
  lockedAt : Int
deriving DecidableEq, Repr

def LockRow.key (l : LockRow) : String × LockSource := (resourceLockID l.target, l.source)

/-- A row of `resource_lock_versions`. -/
structure CapturedVersion where
  lockID : String
  source : LockSource
  version : String
deriving DecidableEq, Repr

/-- `core.ResourceLock` -/
structure ResourceLock extends LockRow where
  inherited : Bool
deriving DecidableEq, Repr

/-- A row of `cargo_packages`, `npm_packages` or `docker_images`. -/
structure PackageRow where
  repository : String
  name : String
  superTeamPrefix : String
deriving DecidableEq, Repr

def PackageRow.key (p : PackageRow) : String × String := (p.repository, p.name)

/-- A row of `docker_manifests`. -/
structure ManifestRow where
  repository : String
  imageName : String
  digest : String
  rawJSON : String
deriving DecidableEq, Repr

structure LockDB where
  locks : Table LockRow.key
  captured : List CapturedVersion
  packages : PackageFormat → Table PackageRow.key
  /-- Whether a user id is in the members table of a format, by repository and name. -/
  member : PackageFormat → String → String → String → Bool
  /-- Whether a user id is in a team, by prefix. -/
  teamMember : String → String → Bool
  /-- `user_id` in `user_profiles`, by username. -/
  profile : String → Option String
  manifests : List ManifestRow

/-! ### Reading -/

section Read
variable (text : Text) (db : LockDB)

def LockRow.lock (l : LockRow) (inherited : Bool) : ResourceLock := { l with inherited }

/-- `resourceLocksQuery` -/
def resourceLocksQuery (f : PackageFormat) : List ResourceLock :=
  db.locks.rows.map (·.lock false) ++
  (if f = .docker then
    db.locks.rows.flatMap fun l =>
      (db.captured.filter fun v => v.lockID = resourceLockID l.target && v.source = l.source).map fun v =>
        LockRow.lock { l with target := { l.target with version := v.version } } true
  else []) ++
  (db.packages f).rows.flatMap fun p =>
    (db.locks.rows.filter fun l => l.target.format = .superTeam && l.target.repository = "" &&
      p.superTeamPrefix = l.target.name).map fun l =>
        LockRow.lock { l with target := ⟨.package f, p.repository, p.name, ""⟩ } true

def LockSource.name : LockSource → String
  | manual => "manual"
  | system => "system"

/-- `ORDER BY version, source` -/
def lockBefore (l m : ResourceLock) : Prop :=
  l.target.version < m.target.version ∨ l.target.version = m.target.version ∧ l.source.name ≤ m.source.name

instance (l m : ResourceLock) : Decidable (lockBefore l m) := inferInstanceAs (Decidable (_ ∨ _))

/-- `GetResourceLocks` -/
def getResourceLocks (f : PackageFormat) (repository name version : String) (allVersions : Bool) :
    Except LockError (List ResourceLock) := do
  let target ← normalizePackageTarget text f repository name version
  let rows := (resourceLocksQuery db f).filter fun l =>
    l.target.format = target.format && l.target.repository = target.repository && l.target.name = target.name &&
      (allVersions || l.target.version = "" || l.target.version = target.version)
  pure (rows.insertionSort lockBefore)

/-- `core.ReadLocked` -/
def readLocked (locks : List ResourceLock) : Bool := locks.any fun l => l.mode = .read

def userIDForUsername (username : String) : Option String :=
  let username := text.toLower (text.trimSpace username)
  if username = "" then none else (db.profile username).filter (· ≠ "")

/-- The user id that `ResourceMetadataVisibility` looks for; guests have none. -/
def viewerID (username : String) : String :=
  if username ≠ "" ∧ text.equalFold username "guest" = false then (userIDForUsername text db username).getD "" else ""

/-- The joins find neither a member nor a team member. -/
def outsider (f : PackageFormat) (userID : String) (l : ResourceLock) : Bool :=
  match (db.packages f).find? (l.target.repository, l.target.name) with
  | none => true
  | some p => !db.member f p.repository p.name userID && !db.teamMember p.superTeamPrefix userID

/-- `ResourceMetadataVisibility` of Cargo, npm and Docker. -/
def resourceMetadataVisibility (f : PackageFormat) (repository username : String) (moderator : Bool)
    (targets : List LockTarget) : Except LockError (List Bool) := do
  require (targets.length ≤ 128) .invalid
  if moderator then pure (targets.map fun _ => true)
  else
    let userID := viewerID text db username
    let normalized ← targets.mapM fun t => normalizePackageTarget text f repository t.name t.version
    let rows := (resourceLocksQuery db f).filter fun l =>
      l.target.format = .package f && l.target.repository = text.toLower repository && l.mode = .read &&
        outsider db f userID l && normalized.any fun t =>
          l.target.name = t.name && (l.target.version = "" || l.target.version = t.version)
    let hidden := rows.map fun l => (⟨.package f, text.toLower repository, l.target.name, l.target.version⟩ : LockTarget)
    pure (normalized.map fun t => !decide (t ∈ hidden) && !decide ({ t with version := "" } ∈ hidden))

end Read

/-! ### Writing -/

/-- What the other tables answer to a change of a lock. -/
structure Answers where
  /-- The digests that a manifest refers to: `config`, `layers` and `manifests`. -/
  unmarshal : String → Option (String × List String × List String)
  /-- Whether the session of the actor may moderate a repository. -/
  moderates : String → String → String → Except LockError Bool
  /-- `lockSuperTeamTx`, `lockMavenArtifactTargetTx` and `lockMavenDomainRow` -/
  lockRow : LockTarget → Except LockError Unit

section Write
variable (text : Text) (answers : Answers)

/-- `authorizeResourceLockTx` -/
def authorizeResourceLock (target : LockTarget) (source : LockSource) (actor session : String) : Except LockError Unit := do
  if source = .system ∧ actor = "" ∧ session = "" then pure ()
  else
    require (source = .manual) .permission
    let allowed ← answers.moderates (text.toLower actor) session target.repository
    require (allowed = true) .permission

/-- A team, an artifact or a domain has to exist. -/
def lockTarget (target : LockTarget) : Except LockError Unit :=
  match target.format with
  | .package _ => pure ()
  | .maven | .mavenDomain | .superTeam => answers.lockRow target

def maxReferences : Nat := 8192

def hexDigit (c : Char) : Bool := c.isDigit || ('a' ≤ c && c ≤ 'f') || ('A' ≤ c && c ≤ 'F')

/-- The contents found so far and those to look at. -/
structure Capture where
  seen : List String
  queued : List String
  pending : List String
  remainingBytes : Int

def seeReference (seen : List String) (digest : String) : Except LockError (List String) := do
  if digest = "" ∨ digest ∈ seen then pure seen
  else
    require (digest.utf8ByteSize = 71 ∧ Storage.hasPrefix digest "sha256:" = true ∧ text.toLower digest = digest)
      .manifestInvalid
    require ((digest.toList.drop 7).all hexDigit = true ∧ seen.length < maxReferences) .invalid
    pure (seen ++ [digest])

def queueChild (c : Capture) (digest : String) : Capture :=
  if digest = "" ∨ digest ∈ c.queued then c
  else { c with queued := c.queued ++ [digest], pending := c.pending ++ [digest] }

def captureManifest (c : Capture) (raw : String) : Except LockError Capture := do
  let remainingBytes := c.remainingBytes - raw.utf8ByteSize
  require (raw.utf8ByteSize ≤ 4 * 2 ^ 20 ∧ 0 ≤ remainingBytes) .invalid
  let (config, layers, manifests) ← orError (answers.unmarshal raw) .manifestInvalid
  let seen ← (layers ++ manifests ++ [config]).foldlM (seeReference text) c.seen
  pure (manifests.foldl queueChild { c with seen, remainingBytes })

/-- The loop of `setDockerLockVersionsTx`, over batches of eight; a digest is queued once. -/
def captureLoop (db : LockDB) (target : LockTarget) : Nat → Capture → Except LockError (List String)
  | 0, c => pure c.seen
  | n + 1, c =>
    if c.pending = [] then pure c.seen
    else do
      let batch := c.pending.take 8
      let rows := db.manifests.filter fun m => m.repository = target.repository && m.imageName = target.name &&
        m.digest ∈ batch
      let c ← (rows.map (·.rawJSON)).foldlM (captureManifest text answers) { c with pending := c.pending.drop 8 }
      captureLoop db target n c

/-- `setDockerLockVersionsTx`; every round takes a queued digest, and there are at most as many as references. -/
def setDockerLockVersions (db : LockDB) (target : LockTarget) (source : LockSource) : Except LockError LockDB := do
  if target.format ≠ .package .docker then pure db
  else
    require (((db.packages .docker).find? (target.repository, target.name)).isSome = true) .imageNotFound
    let id := resourceLockID target
    let captured := db.captured.filter fun v => !(v.lockID = id && v.source = source)
    if target.version = "" then pure { db with captured }
    else
      let seen ← captureLoop text answers db target (maxReferences + 1) ⟨[target.version], [target.version],
        [target.version], 64 * 2 ^ 20⟩
      pure { db with captured := captured ++ (seen.filter (· ≠ target.version)).map fun digest =>
        ⟨id, source, digest⟩ }

/-- `SetResourceLock` -/
def setResourceLock (db : LockDB) (lock : LockRow) (actor session : String) : Except LockError LockDB := do
  require (0 < lock.lockedAt) .invalid
  let reasonText ← orError (normalizeSuperTeamText text lock.reasonText 256 (lock.reason ≠ .custom)) .invalid
  require (lock.reason = .custom ∨ reasonText = "") .invalid
  let target ← normalizeResourceLockTarget text lock.target
  authorizeResourceLock text answers target lock.source actor session
  lockTarget answers target
  let db ← setDockerLockVersions text answers db target lock.source
  let row : LockRow := { lock with target, reasonText }
  let locks ← (db.locks.delete fun l => l.key = row.key).insert row .database
  pure { db with locks }

/-- `DeleteResourceLock` -/
def deleteResourceLock (db : LockDB) (target : LockTarget) (source : LockSource) (actor session : String) :
    Except LockError LockDB := do
  let target ← normalizeResourceLockTarget text target
  authorizeResourceLock text answers target source actor session
  lockTarget answers target
  let id := resourceLockID target
  pure { db with
    captured := db.captured.filter fun v => !(v.lockID = id && v.source = source)
    locks := db.locks.delete fun l => l.key = (id, source) }

end Write

end Renop.Locks
