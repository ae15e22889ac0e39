import Renop.Index

/-!
# Artifact paths

How the storage code classifies a path: protected artifacts, detached signatures and checksum companions
(`gpg/keys.go`, `gpg_upload.go`), snapshot builds (`snapshot.go`) and Maven coordinates (`maven/validation.go`).
A local path is relative to the storage root, `repository/path`.

Lower case is that of ASCII: the endings and names that a path is compared with have neither i nor k, the only ASCII letters
that `strings.ToLower` makes of other characters. `strings.ToUpper` makes I and S of others, and `SNAPSHOT` has an S.
-/

namespace Renop.Storage
open Renop.Index

/-- `strings.HasSuffix` -/
def hasSuffix (s suffix : String) : Bool := suffix.toList.isSuffixOf s.toList

/-- `strings.HasPrefix` -/
def hasPrefix (s start : String) : Bool := start.toList.isPrefixOf s.toList

/-- The string without its last `n` characters. -/
def dropRight (s : String) (n : Nat) : String := String.ofList (s.toList.take (s.toList.length - n))

/-- `strings.CutSuffix` -/
def cutSuffix (s suffix : String) : Option String :=
  if hasSuffix s suffix then some (dropRight s suffix.toList.length) else none

/-- `strings.Contains` -/
def containsText (s sub : String) : Bool := s.toList.tails.any fun t => sub.toList.isPrefixOf t

/-- `strings.ToUpper`, as far as it makes ASCII letters. -/
def upperChar (c : Char) : Char := if c = '\u0131' then 'I' else if c = '\u017f' then 'S' else c.toUpper

/-- `strings.Contains(strings.ToUpper(s), "SNAPSHOT")` -/
def containsSnapshot (s : String) : Bool := containsText (String.ofList (s.toList.map upperChar)) "SNAPSHOT"

/-- `strings.TrimSpace(s) == ""` -/
def blank (s : String) : Bool := s.toList.all Char.isWhitespace

theorem toLower_toLower (c : Char) : c.toLower.toLower = c.toLower := by
  by_cases h : c.val ≥ 'A'.val ∧ c.val ≤ 'Z'.val
  · have hbounds : 'A'.val.toNat = 65 ∧ 'Z'.val.toNat = 90 := by decide
    have h32 : ('a'.val - 'A'.val).toNat = 32 := by decide
    have hval : c.toLower.val = c.val + ('a'.val - 'A'.val) := by
      delta Char.toLower
      rw [dif_pos h]
    simp only [ge_iff_le, UInt32.le_iff_toNat_le] at h
    generalize c.toLower = d at hval
    have hd : ¬(d.val ≥ 'A'.val ∧ d.val ≤ 'Z'.val) := by
      rw [hval]
      simp only [ge_iff_le, UInt32.le_iff_toNat_le, UInt32.toNat_add, h32]
      omega
    delta Char.toLower
    rw [dif_neg hd]
  · have hc : c.toLower = c := by
      delta Char.toLower
      rw [dif_neg h]
    rw [hc, hc]

/-- `strings.Split` at slashes. -/
def segments (s : String) : List String := (s.toList.splitOn '/').map String.ofList

/-! ### Checksums, signatures, companions -/

/-- The hash functions of the checksum companions, in the order of `gpgChecksumSuffixes`. -/
inductive Digest
  | md5
  | sha1
  | sha256
  | sha512
deriving DecidableEq, Repr

namespace Digest

def all : List Digest := [md5, sha1, sha256, sha512]

def ext : Digest → String
  | md5 => ".md5"
  | sha1 => ".sha1"
  | sha256 => ".sha256"
  | sha512 => ".sha512"

end Digest

def filepathSlashClean (value : String) : String :=
  let cleaned := pathClean (String.ofList (value.toList.map fun c => if c = '\\' then '/' else c))
  if cleaned = "." then "" else cleaned

def isProtectedArtifact (artifactPath : String) : Bool :=
  let lower := (filepathSlashClean artifactPath).toLower
  hasSuffix lower ".jar" || hasSuffix lower ".pom" || hasSuffix lower ".module"

/-- The artifact of a detached signature; the second component says whether it is one. -/
def artifactForDetachedSignature (signaturePath : String) : String × Bool :=
  let cleaned := filepathSlashClean signaturePath
  if hasSuffix cleaned.toLower ".asc" then
    let artifactPath := dropRight cleaned 4
    (artifactPath, isProtectedArtifact artifactPath)
  else ("", false)

/-- `ArtifactKey`, before its SHA-256. -/
def artifactKey (repository artifactPath : String) : String :=
  let cleaned := filepathSlashClean artifactPath
  repository ++ "\x00" ++ (if hasPrefix cleaned "/" then String.ofList cleaned.toList.tail else cleaned)

/-- The two files of a release. -/
inductive Part
  | artifact
  | signature
deriving DecidableEq, Repr

/-- One suffix of the loop of `gpgCompanionForPath`. -/
def companionAt (path : String) (d : Digest) : Option (String × Part) :=
  let cut (suffix : String) : Option String := (cutSuffix path suffix).filter fun before => isProtectedArtifact before
  match cut (".asc" ++ d.ext), cut d.ext with
  | some before, _ => some (before, .signature)
  | none, some before => some (before, .artifact)
  | none, none => none

/-- The artifact and the staging name `part.digest` of a checksum companion. -/
def gpgCompanionForPath (path : String) : Option (String × Part × Digest) :=
  Digest.all.findSome? fun d => (companionAt path d).map fun (artifact, part) => (artifact, part, d)

example : gpgCompanionForPath "releases/a-1.jar.asc.sha1" = some ("releases/a-1.jar", .signature, .sha1) := by
  decide +kernel

/-- `releaseBlockedPaths` of the local path of an artifact. -/
def withCompanions (artifactPath : String) : List String :=
  let withChecksums (path : String) : List String := path :: Digest.all.map fun d => path ++ d.ext
  withChecksums artifactPath ++ withChecksums (artifactPath ++ ".asc")

/-! ### Repositories -/

/-- `repositoryArtifactPath`: the repository and the path in it. -/
def repositoryArtifactPath (localFilePath : String) : Option (String × String) :=
  match segments localFilePath with
  | repository :: rest =>
    let relative := String.intercalate "/" rest
    if repository = "" ∨ relative = "" then none else some (repository, relative)
  | [] => none

/-- `filepath.Rel` of a path in the repository. -/
def relativeTo (repository localFilePath : String) : Option String :=
  if hasPrefix localFilePath (repository ++ "/") then
    some (String.ofList (localFilePath.toList.drop (repository.toList.length + 1)))
  else none

/-- `gpgIdentityForLocalPath` -/
def gpgIdentityForLocalPath (localPath : String) : Option (String × String) :=
  match repositoryArtifactPath localPath with
  | none => none
  | some (repository, relative) =>
    match artifactForDetachedSignature relative with
    | (mapped, true) => some (repository, mapped)
    | (_, false) => if isProtectedArtifact relative then some (repository, relative) else none

/-! ### Snapshot builds -/

def artifactCompanionExts : List String :=
  [".asc.md5", ".asc.sha1", ".asc.sha256", ".asc.sha512", ".md5", ".sha1", ".sha256", ".sha512", ".asc"]

def isArtifactCompanionPath (path : String) : Bool := artifactCompanionExts.any fun ext => hasSuffix path.toLower ext

def isSnapshotArtifactPath (path : String) : Bool := containsSnapshot path

def stripArtifactCompanionSuffix (name : String) : String :=
  match artifactCompanionExts.find? fun ext => hasSuffix name.toLower ext with
  | some ext => dropRight name ext.toList.length
  | none => name

structure UniqueSnapshotParts where
  start : String
  uniqueVer : String
  classifier : String
  primaryExt : String
deriving DecidableEq, Repr

/-- The end of both patterns: `(-[^.]+)?(\.[A-Za-z0-9]+)$`. -/
def matchTail (cs : List Char) : Option (List Char × List Char) :=
  let ext (rest : List Char) : Option (List Char) :=
    match rest with
    | '.' :: alnum => if alnum ≠ [] ∧ alnum.all Char.isAlphanum then some rest else none
    | _ => none
  match cs with
  | '-' :: rest =>
    let classifier := rest.takeWhile (· ≠ '.')
    if classifier = [] then none else (ext (rest.dropWhile (· ≠ '.'))).map fun e => ('-' :: classifier, e)
  | _ => (ext cs).map fun e => ([], e)

/-- `\d+` followed by the end. -/
def matchBuild (cs : List Char) : Option (List Char × List Char × List Char) :=
  let digits := cs.takeWhile Char.isDigit
  if digits = [] then none
  else (matchTail (cs.dropWhile Char.isDigit)).map fun (classifier, ext) => (digits, classifier, ext)

/-- `\d{8}\.\d{6}-\d+` followed by the end. -/
def matchTimestamp (cs : List Char) : Option (List Char × List Char × List Char) :=
  if (cs.take 8).length = 8 ∧ (cs.take 8).all Char.isDigit ∧ (cs.drop 8).head? = some '.' ∧
      ((cs.drop 9).take 6).length = 6 ∧ ((cs.drop 9).take 6).all Char.isDigit ∧ (cs.drop 15).head? = some '-' then
    (matchBuild (cs.drop 16)).map fun (digits, rest) => (cs.take 16 ++ digits, rest)
  else none

/-- `^(.+)-` in front of a pattern: the longest start for which the rest matches. -/
def matchAfterDash (rest : List Char → Option (List Char × List Char × List Char)) (cs : List Char) :
    Option UniqueSnapshotParts :=
  (List.range cs.length).reverse.findSome? fun i =>
    if 0 < i ∧ cs[i]? = some '-' ∧ '\n' ∉ cs.take i then
      (rest (cs.drop (i + 1))).map fun (uniqueVer, classifier, ext) =>
        ⟨String.ofList (cs.take i), String.ofList uniqueVer, String.ofList classifier, String.ofList ext⟩
    else none

/-- `uniqueSnapshotTimestampRE`, then `uniqueSnapshotBuildRE`. -/
def parseUniqueSnapshotBaseName (baseName : String) : Option UniqueSnapshotParts :=
  (matchAfterDash matchTimestamp baseName.toList).or (matchAfterDash matchBuild baseName.toList)

example : parseUniqueSnapshotBaseName "lib-1.0-20240102.030405-7-sources.jar" =
    some ⟨"lib-1.0", "20240102.030405-7", "-sources", ".jar"⟩ := by decide

/-- The children of the directory of a unique build that `cleanupSupersededUniqueSnapshots` removes. -/
def supersededBuilds (localFilePath : String) (children : List String) : List String :=
  let baseName := (splitPathParentBase localFilePath).2
  let dir := (splitPathParentBase localFilePath).1
  if isArtifactCompanionPath baseName then []
  else
    match parseUniqueSnapshotBaseName baseName with
    | none => []
    | some parts =>
      if containsSnapshot (splitPathParentBase dir).2 then
        children.filter fun child =>
          child ≠ baseName && !hasPrefix child "maven-metadata" &&
            match parseUniqueSnapshotBaseName (stripArtifactCompanionSuffix child) with
            | none => false
            | some other => other.start = parts.start && other.uniqueVer ≠ parts.uniqueVer
      else []

/-! ### Maven coordinates -/

structure MavenCoordinate where
  groupID : String
  artifactID : String
  version : String
deriving DecidableEq, Repr

def MavenCoordinate.package (c : MavenCoordinate) : String := c.groupID ++ ":" ++ c.artifactID

def maxMavenPathParts : Nat := 32

def coordinateChar (c : Char) : Bool := c.isAlphanum || c == '.' || c == '_' || c == '-'

/-- `^[A-Za-z0-9][A-Za-z0-9._-]{0,254}$` -/
def validMavenCoordinatePart (value : String) : Bool :=
  match value.toList with
  | [] => false
  | c :: cs => c.isAlphanum && cs.length ≤ 254 && cs.all coordinateChar

/-- `strings.Trim` of slashes, after backslashes became slashes, split. -/
def pathParts (path : String) : List String :=
  let slashed := path.toList.map fun c => if c = '\\' then '/' else c
  segments (String.ofList ((slashed.dropWhile (· = '/')).reverse.dropWhile (· = '/')).reverse)

def parseArtifactPath (path : String) : Option MavenCoordinate :=
  let parts := pathParts path
  if parts.length < 4 ∨ maxMavenPathParts < parts.length then none
  else
    match parts.reverse with
    | filename :: version :: artifactID :: groupRev =>
      let groupParts := groupRev.reverse
      if filename = "" ∨ filename = "maven-metadata.xml" ∨ hasPrefix filename "maven-metadata.xml." then none
      else if groupParts.length < 2 ∨ !validMavenCoordinatePart artifactID ∨ !validMavenCoordinatePart version then none
      else if !groupParts.all validMavenCoordinatePart then none
      else if !hasPrefix filename (artifactID ++ "-") then none
      else some ⟨String.intercalate "." groupParts, artifactID, version⟩
    | _ => none

example : parseArtifactPath "org/acme/lib/1.0/lib-1.0.jar" = some ⟨"org.acme", "lib", "1.0"⟩ := by decide

structure MavenMetadataCandidate where
  resourceKey : String
  version : Option String
deriving DecidableEq, Repr

def publicationMetadataCandidates (path : String) : List MavenMetadataCandidate :=
  let parts := pathParts path
  let name := (parts.getLastD "").toLower
  if parts.length < 4 then []
  else if name ≠ "maven-metadata.xml" ∧ !hasPrefix name "maven-metadata.xml." then []
  else if !parts.dropLast.all validMavenCoordinatePart then []
  else
    let candidate (drop : Nat) (version : Option String) : List MavenMetadataCandidate :=
      let groupParts := parts.take (parts.length - drop)
      if groupParts.length < 2 then []
      else [⟨String.intercalate "." groupParts ++ ":" ++ parts.getD (parts.length - drop) "", version⟩]
    (if 5 ≤ parts.length then candidate 3 (some (parts.getD (parts.length - 2) "")) else []) ++ candidate 2 none

def isPublicationReviewCandidate (path : String) : Bool :=
  (parseArtifactPath path).isSome || !(publicationMetadataCandidates path).isEmpty

end Renop.Storage
