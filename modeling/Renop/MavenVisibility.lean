import Renop.MavenLocks
import Renop.MavenNamespace

/-!
# The snapshot filter and the per-page check

Both answers are reduced to the same few facts about the tables. `Stranger` says that a read-locked domain
of others is the last word about a path; the page check makes an exception per domain, for an artifact of a
team of the viewer in that domain, and the filter makes one for every locked artifact that the viewer may
inspect, in whichever domain. The filter looks up the most specific domain that it knows, verified or
locked, and that comes to the same (`longestDomain_hidden_iff`), because a domain that hides the path hides
every known domain below it.
-/

namespace Renop.Maven

open Sql Storage Hierarchy

/-! ### Text -/

namespace DomainName

variable {n : String}

end DomainName

/-- The name under which an artifact is locked. -/
def normalName (name : String) : Option String :=
  (cutColon (trimSpace name)).map fun c => lower c.1 ++ ":" ++ c.2

section Domains
variable (db : MavenDB) (viewer : String)

/-- A domain of that name is closed to readers. -/
def DomainLocked (n : String) : Prop :=
  ∃ l ∈ mavenDomainLocksQuery db, l.target.format = "maven-domain" ∧ l.mode = .read ∧ l.target.name = n

/-- A read-locked domain in which the viewer has no part contains the path, and no verified domain in it does. -/
structure Stranger (path : String) (d : MavenDomain) : Prop where
  row : d ∈ db.domains.rows
  locked : DomainLocked db d.domain
  outsider : db.domainOutsider viewer d = true
  contains : domainContainsPath d.domain path = true
  specific : specificDomainCovers db path d = false

variable {db viewer}

end Domains

/-! ### Artifacts -/

section Artifacts
variable (db : MavenDB) (repository viewer : String)

/-- An artifact, or a version of one, is closed to readers. -/
def ArtifactLocked (name version : String) : Prop :=
  ∃ l ∈ mavenLocksQuery db, l.target.format = "maven" ∧ l.target.repository = repository ∧ l.mode = .read ∧
    l.target.name = name ∧ l.target.version = version

/-- The viewer has no part in the artifact of that name. -/
def NameOutsider (name : String) : Prop :=
  ∀ a ∈ db.artifacts.rows, a.repository = repository → a.resourceName = name → db.artifactOutsider viewer a = true

/-- Nothing of the artifact may be shown. -/
def Hidden (name version : String) : Prop := ArtifactLocked db repository name version ∧
    NameOutsider db repository viewer name

/-- `Hidden`, as the database finds it. -/
def hides (t : LockTarget) : Bool :=
  t.repository = repository &&
    (hidingLocks db repository viewer).any fun l => l.target.name = t.name && l.target.version = t.version

/-- What `mavenMetadataVisibility` says about a target. -/
def artifactVisible (moderator : Bool) (t : LockTarget) : Bool :=
  moderator ||
    match normalizeMavenTarget { t with format := "maven", repository := repository } with
    | .ok t => !hides db (lower repository) viewer t && !hides db (lower repository) viewer { t with version := "" }
    | .error _ => false

end Artifacts

section Artifacts
variable {db : MavenTables} {repository viewer : String}

end Artifacts

/-! ### The per-page check -/

/-- What a snapshot holds, by the tables. -/
structure Snapshot.Of (s : Snapshot) (db : MavenDB) (repository viewer : String) (moderator : Bool) : Prop where
  hidden_domain : ∀ n, ⟨"maven-domain", "", n, ""⟩ ∈ s.hidden ↔
    DomainLocked db n ∧ moderator = false ∧ domainHides db "" viewer (cleanPath (namePath n)) = true
  hidden_artifact : ∀ name version, ⟨"maven", lower repository, name, version⟩ ∈ s.hidden ↔
    ArtifactLocked db (lower repository) name version ∧
      artifactVisible db repository viewer moderator ⟨"maven", lower repository, name, version⟩ = false
  allowed : ∀ d, d ∈ s.allowedArtifacts ↔ ∃ name, ArtifactLocked db (lower repository) name "" ∧
    artifactVisible db repository viewer moderator ⟨"maven", lower repository, name, ""⟩ = true ∧
      artifactDirectory name = d
  normal : ∀ name version, ArtifactLocked db (lower repository) name version → moderator = false →
    ∃ t, normalizeMavenTarget ⟨"maven", repository, name, version⟩ = .ok t
  known : ∀ k, k ∈ s.knownDomains ↔ (∃ n, DomainLocked db n) ∧
    ((∃ d ∈ db.domains.rows, d.verified = true ∧ namePath d.domain = k) ∨ ∃ n, DomainLocked db n ∧ namePath n = k)

/-- The ancestors of a path, which the filter walks through. -/
def directories (path : String) : List String :=
  (List.range (pathParts path).length).map fun i => String.intercalate "/" ((pathParts path).take (i + 1))

section MostSpecific
variable {db : MavenTables} {repository viewer path : String}

end MostSpecific

/-! ### The artifacts on a path -/

/-- The names and versions that `mavenPathTargets` forms from a path. -/
def pathArtifacts (path : String) : List (String × String) :=
  (List.range' 2 ((pathParts path).length - 2)).map fun j =>
    (lower (String.intercalate "." ((pathParts path).take j)) ++ ":" ++ (pathParts path).getD j "",
      versionBelow (pathParts path)[j + 1]?)

section Agreement
variable (db : MavenDB) (repository viewer path : String)

/-- A read-locked domain hides the path, and no team of the viewer owns an artifact of the domain around it. -/
def Closed : Prop :=
  ∃ d, Stranger db viewer (cleanPath path) d ∧ teamArtifactCovers db (lower repository) viewer (cleanPath path) d = false

/-- The path is in the directory of a read-locked artifact in which the viewer has a part. -/
def Opened : Prop :=
  ∃ name, ArtifactLocked db (lower repository) name "" ∧ ¬ NameOutsider db (lower repository) viewer name ∧
    Above '/' (artifactDirectory name).toList (cleanPath path).toList

/-- An artifact or version that the path names is hidden. -/
def HiddenAsWritten : Prop :=
  ∃ x ∈ pathArtifacts path, Hidden db (lower repository) viewer x.1 x.2 ∨ Hidden db (lower repository) viewer x.1 ""

/-- An artifact or version that the path names, white space apart, is hidden. -/
def HiddenTrimmed : Prop :=
  ∃ x ∈ pathArtifacts path, ∃ name, normalName x.1 = some name ∧
    (Hidden db (lower repository) viewer name x.2 ∨ Hidden db (lower repository) viewer name "")

/-- Either a locked domain closes the path, and then no locked artifact around it is open to the viewer, or white space
in a directory does not matter for it; a lock of the path's own artifact hides the path in any case. -/
structure Consistent : Prop where
  closed : Closed db repository viewer path → Opened db repository viewer path → HiddenAsWritten db repository viewer path
  spaces : ¬ Closed db repository viewer path → HiddenTrimmed db repository viewer path →
    HiddenAsWritten db repository viewer path

end Agreement

section Agreement
variable {db : MavenTables} {repository viewer path : String}

end Agreement

def alice : Viewer := ⟨"alice", fun _ => false⟩

end Renop.Maven
