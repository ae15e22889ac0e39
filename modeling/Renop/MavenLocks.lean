import Renop.Maven

/-!
# Read locks and what they hide

Locks are set on a team, on a domain, on an artifact or on a version of it, and `resourceLocksQuery` extends
them along the bindings: an artifact has the locks of its domain and of the teams of both, a domain has
those of its team. A lock in mode `read` hides names from everyone who is no member.

Two functions of `maven/locks.go` answer which paths a viewer sees. `visibleMetadataPaths` asks the database
about a page of paths; `metadataPathFilter` takes all locks once and returns a predicate for index scans. Both
work in batches of 128. This is the code on systems where file names keep their case.
-/

namespace Renop.Maven

open Sql Storage

/-! ### Batches -/

def replaceChar (old new : Char) (s : String) : String :=
  String.ofList (s.toList.map fun c => if c = old then new else c)

/-- `strings.Trim` of slashes, after backslashes became slashes. -/
def cleanPath (path : String) : String :=
  let slashed := path.toList.map fun c => if c = '\\' then '/' else c
  String.ofList ((slashed.dropWhile (· = '/')).reverse.dropWhile (· = '/')).reverse

/-- `strings.Cut` at the first colon. -/
def cutColon (s : String) : Option (String × String) :=
  if ':' ∈ s.toList then
    some (String.ofList (s.toList.takeWhile (· ≠ ':')), String.ofList (s.toList.dropWhile (· ≠ ':')).tail)
  else none

/-- `unicode.IsControl` -/
def isControl (c : Char) : Bool := c.toNat < 32 || (127 ≤ c.toNat && c.toNat < 160)

/-- `REPLACE(domain, '.', '/')` -/
def namePath (name : String) : String := replaceChar '.' '/' name

/-! ### Locks along the bindings -/

def MavenArtifact.resourceName (a : MavenArtifact) : String := a.groupID ++ ":" ++ a.artifactID

/-- An artifact's lock that comes from elsewhere. -/
def MavenArtifact.lock (a : MavenArtifact) (mode : LockMode) : ResourceLock :=
  ⟨⟨"maven", a.repository, a.resourceName, ""⟩, mode⟩

/-- A domain's lock that comes from elsewhere. -/
def MavenDomain.lock (d : MavenDomain) (mode : LockMode) : ResourceLock := ⟨⟨"maven-domain", "", d.domain, ""⟩, mode⟩

def MavenDB.teamLocks (db : MavenDB) : List ResourceLock :=
  db.locks.filter fun l => l.target.format = "superteam" && l.target.repository = ""

def MavenDB.domainLocks (db : MavenDB) : List ResourceLock :=
  db.locks.filter fun l => l.target.format = "maven-domain" && l.target.repository = ""

/-- `resourceLocksQuery("maven")` -/
def mavenLocksQuery (db : MavenDB) : List ResourceLock :=
  db.locks ++
  (db.artifacts.rows.flatMap fun a =>
    (db.teamLocks.filter fun l => a.superTeamPrefix = l.target.name ||
      (db.domains.find? a.domain).any fun d => d.superTeamPrefix = l.target.name).map fun l => a.lock l.mode) ++
  (db.artifacts.rows.flatMap fun a =>
    (db.domainLocks.filter fun l => l.target.name = a.domain).map fun l => a.lock l.mode) ++
  -- a failed health check and a reclaimed domain stop writing only
  ((db.artifacts.rows.filter fun a => (db.domains.find? a.domain).any fun d => 0 < d.healthLockedAt).map (·.lock .write)) ++
  ((db.artifacts.rows.filter fun a => 0 < a.reclaimHoldAt).map (·.lock .write))

/-- `resourceLocksQuery("maven-domain")` -/
def mavenDomainLocksQuery (db : MavenDB) : List ResourceLock :=
  db.locks ++
  (db.domains.rows.flatMap fun d =>
    (db.teamLocks.filter fun l => d.superTeamPrefix = l.target.name).map fun l => d.lock l.mode) ++
  ((db.domains.rows.filter fun d => 0 < d.healthLockedAt).map (·.lock .write))

def maxPackageDeprecationKeyBytes : Nat := 8192

/-- `normalizeResourceLockTarget` of an artifact. -/
def normalizeMavenTarget (target : LockTarget) : Except MavenError LockTarget := do
  let repository := lower (trimSpace target.repository)
  let packageKey := trimSpace target.name
  require (repository ≠ "" ∧ repository.utf8ByteSize ≤ 255) .resourceLockInvalid
  require (packageKey ≠ "" ∧ packageKey.utf8ByteSize ≤ maxPackageDeprecationKeyBytes) .resourceLockInvalid
  let (group, artifact) ← orError (cutColon packageKey) .resourceLockInvalid
  require (group ≠ "" ∧ artifact ≠ "" ∧ ':' ∉ artifact.toList) .resourceLockInvalid
  require (target.version.utf8ByteSize ≤ 255 ∧ target.version.toList.all (!isControl ·) = true ∧
    trimSpace target.version = target.version) .resourceLockInvalid
  pure ⟨"maven", repository, lower group ++ ":" ++ artifact, target.version⟩

/-! ### The database's answers -/

/-- `mavenDomainContainsPathSQL` -/
def domainContainsPath (domain path : String) : Bool :=
  lower path = namePath domain || hasPrefix (lower path) (namePath domain ++ "/")

/-- The viewer has no part in the domain. -/
def MavenDB.domainOutsider (db : MavenDB) (viewer : String) (d : MavenDomain) : Bool :=
  (db.domainMember d.domain viewer).isNone && (db.superTeamRole d.superTeamPrefix viewer).isNone

/-- The viewer has no part in the artifact, in its domain or in a team of them. -/
def MavenDB.artifactOutsider (db : MavenDB) (viewer : String) (a : MavenArtifact) : Bool :=
  (db.domainMember a.domain viewer).isNone && (db.superTeamRole a.superTeamPrefix viewer).isNone &&
    !(db.domains.find? a.domain).any fun d => (db.superTeamRole d.superTeamPrefix viewer).isSome

/-- The directory of an artifact. -/
def MavenArtifact.path (a : MavenArtifact) : String := namePath a.groupID ++ "/" ++ a.artifactID

/-- A team of the viewer owns an artifact of the domain, and the path is in the artifact's directory. -/
def teamArtifactCovers (db : MavenDB) (repository viewer path : String) (d : MavenDomain) : Bool :=
  db.artifacts.rows.any fun a => (db.superTeamRole a.superTeamPrefix viewer).isSome && a.repository = repository &&
    a.domain = d.domain && (path = a.path || hasPrefix path (a.path ++ "/"))

/-- A verified domain that contains the path is inside the domain. -/
def specificDomainCovers (db : MavenDB) (path : String) (d : MavenDomain) : Bool :=
  db.domains.rows.any fun e => e.verified && d.domain.length < e.domain.length && domainContainsPath e.domain path

/-- The query of `MavenDomainPathVisibility` has a row for the path. -/
def domainHides (db : MavenDB) (repository viewer path : String) : Bool :=
  (mavenDomainLocksQuery db).any fun l => l.target.format = "maven-domain" && l.mode = .read &&
    db.domains.rows.any fun d => d.domain = l.target.name && db.domainOutsider viewer d && domainContainsPath d.domain path &&
      !teamArtifactCovers db repository viewer path d && !specificDomainCovers db path d

/-- The `LEFT JOIN` of a lock with its artifact leaves a row without a member. -/
def lockOutsider (db : MavenDB) (viewer : String) (l : ResourceLock) : Bool :=
  let artifacts := db.artifacts.rows.filter fun a => a.repository = l.target.repository && a.resourceName = l.target.name
  artifacts.isEmpty || artifacts.any (db.artifactOutsider viewer)

/-- The locks that keep the viewer out. -/
def hidingLocks (db : MavenDB) (repository viewer : String) : List ResourceLock :=
  (mavenLocksQuery db).filter fun l => l.target.format = "maven" && l.target.repository = repository && l.mode = .read &&
    lockOutsider db viewer l

/-- The version that the directory below an artifact stands for. -/
def versionBelow : Option String → String
  | some part => if hasPrefix (lower part) "maven-metadata.xml" then "" else part
  | none => ""

/-- Every directory of a path from the third on may be an artifact, with the next one as its version. -/
def mavenPathTargets (repository path : String) : Except MavenError (List LockTarget) := do
  let parts := pathParts path
  require (parts.length ≤ maxMavenPathParts) .resourceLockInvalid
  pure ((List.range' 2 (parts.length - 2)).map fun j =>
    ⟨"maven", repository, lower (String.intercalate "." (parts.take j)) ++ ":" ++ parts.getD j "",
      versionBelow parts[j + 1]?⟩)

/-- What the code knows of the user: the name, and `CheckModeratePermission` by repository. -/
structure Viewer where
  username : String
  moderates : String → Bool

/-- `allowedArtifacts` has directories. -/
def artifactDirectory (name : String) : String :=
  let (group, artifact) := (cutColon name).getD (name, "")
  namePath group ++ "/" ++ artifact

/-- A snapshot of the locks, as one viewer has to see them. -/
structure Snapshot where
  hidden : List LockTarget
  allowedArtifacts : List String
  /-- The verified domains and the locked ones, as directories. -/
  knownDomains : List String
deriving DecidableEq

/-- The predicate that `MetadataPathFilter` returns. -/
def Snapshot.visible (s : Snapshot) (repository path : String) : Bool :=
  if s.hidden.isEmpty then true
  else
    let parts := pathParts path
    let directories := (List.range parts.length).map fun i => String.intercalate "/" (parts.take (i + 1))
    let longestDomain := directories.foldl (fun longest d => if lower d ∈ s.knownDomains then lower d else longest) ""
    let artifactAllowed := directories.any fun d => d ∈ s.allowedArtifacts
    if !artifactAllowed && decide (⟨"maven-domain", "", replaceChar '/' '.' longestDomain, ""⟩ ∈ s.hidden) then false
    else
      match mavenPathTargets (lower repository) path with
      | .error _ => false
      | .ok targets => targets.all fun t => !decide (t ∈ s.hidden) && !decide ({ t with version := "" } ∈ s.hidden)

end Renop.Maven
