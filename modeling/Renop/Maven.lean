import Renop.Hierarchy
import Renop.SqlTable
import Renop.StoragePaths
import Renop.SuperTeam

/-!
# Maven namespaces

The domains of `maven.go` and the checks of `maven/access.go`. A domain such as `com.example` stands for all
groups below it, and of the registered domains that contain a group the longest decides. An upload or a
deletion is checked against the directories of its path; the catalog, the review and the team pages ask
for the group of the coordinate.

Letter case is that of ASCII. Coordinates and domains are checked to be ASCII, SQLite's `LOWER` maps no other letter, and a
path with other letters is the path of no coordinate.
-/

namespace Renop.Maven

open Sql Storage

inductive MavenError
  /-- `core.ErrResourceLockInvalid` -/
  | resourceLockInvalid
deriving DecidableEq, Repr

/-- A row of `maven_domains`; the rows of all repositories were merged into one namespace. -/
structure MavenDomain where
  domain : String
  superTeamPrefix : String
  verified : Bool
  closedAt : Int
  claimStatus : String
  healthLockedAt : Int
deriving DecidableEq, Repr

/-- A row of `maven_artifacts`; the group is stored in lower case. -/
structure MavenArtifact where
  repository : String
  groupID : String
  artifactID : String
  domain : String
  superTeamPrefix : String
  reclaimHoldAt : Int
deriving DecidableEq, Repr

def MavenArtifact.key (a : MavenArtifact) : String × String × String := (a.repository, a.groupID, a.artifactID)

inductive LockMode
  | read
  | write
deriving DecidableEq, Repr

/-- `core.ResourceLockTarget`, and the columns of `resource_locks` that name it. -/
structure LockTarget where
  format : String
  repository : String
  name : String
  version : String
deriving DecidableEq, Repr

/-- A row of `resource_locks`. -/
structure ResourceLock where
  target : LockTarget
  mode : LockMode
deriving DecidableEq, Repr

structure MavenDB where
  domains : Table MavenDomain.domain
  artifacts : Table MavenArtifact.key
  locks : List ResourceLock
  /-- `permission_level` in `maven_domain_members`, by domain and user id. -/
  domainMember : String → String → Option Int
  /-- `role_level` in `super_team_members`, by team prefix and user id. -/
  superTeamRole : String → String → Option Int
  /-- `userIDForUsername`, of names that are trimmed and in lower case. -/
  userID : String → Option String

/-! ### Strings -/

/-- `unicode.IsSpace` -/
def isSpace (c : Char) : Bool :=
  c = '\t' || c = '\n' || c = '\x0b' || c = '\x0c' || c = '\r' || c = ' ' || c = '\u0085' || c = '\u00a0' ||
    c = '\u1680' || ('\u2000' ≤ c && c ≤ '\u200a') || c = '\u2028' || c = '\u2029' || c = '\u202f' || c = '\u205f' ||
    c = '\u3000'

def trimSpace (s : String) : String :=
  String.ofList ((s.toList.dropWhile isSpace).reverse.dropWhile isSpace).reverse

/-- `strings.ToLower` and `LOWER` of ASCII text. -/
def lower (s : String) : String := String.ofList (s.toList.map Char.toLower)

/-! ### Domains -/

/-- `mavenViewerID`, and the lookup of `ListMavenDomains`: guests and unknown users have no id. -/
def MavenDB.viewerID (db : MavenDB) (username : String) : String :=
  let username := lower (trimSpace username)
  if username = "" ∨ username = "guest" then "" else (db.userID username).getD ""

/-- `core.MavenDomain` as a user sees it. -/
structure ListedDomain extends MavenDomain where
  permissionLevel : Int
  member : Bool
deriving DecidableEq, Repr

def MavenDB.listed (db : MavenDB) (viewer : String) (d : MavenDomain) : ListedDomain :=
  let permission := effectiveBoundPermission (db.domainMember d.domain viewer) (db.superTeamRole d.superTeamPrefix viewer)
  { d with permissionLevel := permission.1, member := permission.2 }

/-- The `WHERE` of `ListMavenDomains` without `includeAll`. -/
def MavenDB.lists (db : MavenDB) (viewer : String) (d : MavenDomain) : Bool :=
  d.verified || (db.domainMember d.domain viewer).isSome || (db.superTeamRole d.superTeamPrefix viewer).isSome

def listMavenDomains (db : MavenDB) (username : String) (includeAll : Bool) : List ListedDomain :=
  let viewer := db.viewerID username
  ((db.domains.rows.filter fun d => includeAll || db.lists viewer d).map (db.listed viewer)).mergeSort
    fun a b => a.domain ≤ b.domain

def domainContainsGroup (domain groupID : String) : Bool := groupID = domain || hasPrefix groupID (domain ++ ".")

def matchingDomain (domains : List ListedDomain) (candidate : String) : Option ListedDomain :=
  Hierarchy.longest (fun d => d.domain.utf8ByteSize) (fun d => domainContainsGroup d.domain candidate) domains

/-! ### Paths -/

def isMavenPublicationPath (path : String) : Bool :=
  let parts := pathParts path
  let filename := parts.getLastD ""
  (parseArtifactPath path).isSome ||
    (3 ≤ parts.length && parts.length ≤ maxMavenPathParts &&
      filename ∈ ["maven-metadata.xml", "maven-metadata.xml.asc", "maven-metadata.xml.md5", "maven-metadata.xml.sha1",
        "maven-metadata.xml.sha256", "maven-metadata.xml.sha512"] &&
      parts.dropLast.all validMavenCoordinatePart)

def pathNamespaceCandidate (path : String) : String :=
  let parts := pathParts path
  if parts.length < 2 ∨ maxMavenPathParts < parts.length then ""
  else if !parts.dropLast.all validMavenCoordinatePart then ""
  else lower (String.intercalate "." parts.dropLast)

/-! ### The domain a call asks about -/

/-- The domain that `AuthorizeGroup` asks about. -/
def groupDomain (db : MavenDB) (username groupID : String) (includeAll : Bool) : Option ListedDomain :=
  matchingDomain (listMavenDomains db username includeAll) (lower (trimSpace groupID))

/-- The domain that `AuthorizeMutation` asks about. -/
def mutationDomain (db : MavenDB) (username path : String) : Option ListedDomain :=
  matchingDomain (listMavenDomains db username false) (pathNamespaceCandidate path)

/-- The domain that `RecordPublishedPath` chooses. -/
def publishedDomain (db : MavenDB) (username : String) (c : MavenCoordinate) : Option ListedDomain :=
  matchingDomain (listMavenDomains db username true) (lower c.groupID)

/-- The domain that `ApprovePublicationReview` chooses. -/
def approvedDomain (db : MavenDB) (groupID : String) : Option ListedDomain :=
  matchingDomain (listMavenDomains db "" true) (lower groupID)

end Renop.Maven
