import Renop.Cargo
import Mathlib.Data.List.Sort

/-!
# The npm catalog

One package of `npm.go` and `npm_locks.go`: its row, its versions, its dist-tags and the locks of either. Every
statement names the package by `repository = ? AND package_name = ?`, which is left out here. Each call runs in one
transaction, so it returns the new tables or an error that leaves them as they were.

A Go map is ranged over in any order, so the maps of a request are tables whose rows stand in the order of the range.
-/

namespace Renop.Npm

open Sql Cargo

inductive NPMError
  | packageNotFound
  | packageExists
  | packageArchived
  | packageMirrored
  | packageLimit
  | versionNotFound
  | versionExists
  | permissionDenied
  | revisionConflict
  /-- `core.ErrResourceLocked` -/
  | resourceLocked
  /-- `core.ErrResourceLockInvalid` -/
  | resourceLockInvalid
  /-- An error made by `errors.New`. -/
  | invalid (reason : String)
deriving DecidableEq, Repr

/-- What `golang.org/x/mod/semver` says of versions. -/
structure Semver where
  isValid : String → Bool
  compare : String → String → Int

abbrev StringMap := Table (Prod.fst : String × String → String)

/-- `m[key]`, empty for a key that is not there. -/
def StringMap.get (m : StringMap) (key : String) : String := ((m.find? key).map Prod.snd).getD ""

/-! ### The tables -/

structure NPMPackage where
  description : String
  publisher : String
  latestVersion : String
  isPrivate : Bool
  archived : Bool
  mirrored : Bool
  publishEnabled : Bool
  revision : Int
  createdAt : Int
  updatedAt : Int
deriving DecidableEq, Repr

/-- A row of `npm_versions`; a version that was unpublished stays as a tombstone. -/
structure NPMVersion where
  version : String
  manifestJSON : String
  publisher : String
  tarballPath : String
  shasum : String
  integrity : String
  size : Int
  deprecated : String
  unpublished : Bool
  mirrored : Bool
  createdAt : Int
deriving DecidableEq, Repr

structure DistTag where
  tag : String
  version : String
  updatedAt : Int
deriving DecidableEq, Repr

structure Catalog where
  package : Option NPMPackage
  versions : Table NPMVersion.version
  tags : Table DistTag.tag
  /-- The versions with a lock of their own; the empty one stands for the package. -/
  locks : List String
  /-- The package's super team is locked. -/
  teamLocked : Bool

/-- What the tables of the team say while a call runs. -/
structure Outside where
  /-- The user has a profile and at least this permission. -/
  permits : String → Int → Bool

def maxNPMVersionsPerPackage : Nat := 5000

def maxNPMManifestUnits : Nat := 4 * 2 ^ 20

def npmPermissionPublish : Int := 1

def npmPermissionLifecycle : Int := 2

def npmPermissionOwner : Int := 4

/-! ### Reading -/

section Reading
variable (c : Catalog)

/-- The version is there and not unpublished. -/
def published (version : String) : Bool := (c.versions.find? version).any fun v => !v.unpublished

def npmTagVersion (tag : String) : String := ((c.tags.find? tag).map (·.version)).getD ""

/-- `ORDER BY created_at DESC, version DESC` -/
def newer (a b : NPMVersion) : Prop := b.createdAt < a.createdAt ∨ b.createdAt = a.createdAt ∧ b.version ≤ a.version

instance : DecidableRel newer := fun _ _ => inferInstanceAs (Decidable (_ ∨ _ ∧ _))

variable (semver : Semver)

/-- The greatest semantic version, and the newest one where none is. -/
def latestNPMVersion : String :=
  let names := ((c.versions.rows.filter (!·.unpublished)).insertionSort newer).map (·.version)
  let latest := names.foldl (fun latest version =>
    if semver.isValid ("v" ++ version) && (latest = "" || 0 < semver.compare ("v" ++ version) ("v" ++ latest))
    then version else latest) ""
  if latest = "" then (names.find? (· ≠ "")).getD "" else latest

/-- The target of the tag `latest`, or what `latestNPMVersionTx` chooses. -/
def latestOrChosen : String := if npmTagVersion c "latest" = "" then latestNPMVersion c semver else npmTagVersion c "latest"

end Reading

section Calls
variable (text : Text) (out : Outside)

/-! ### Checks -/

/-- How the table keeps a version. -/
def versionKey (version : String) : String := sanitized text version 128

/-- How the table keeps a dist-tag. -/
def tagKey (tag : String) : String := text.toLower (sanitized text tag 128)

def isControl (c : Char) : Bool := c.toNat < 32 || (127 ≤ c.toNat && c.toNat < 160)

/-- `ensureResourceMutableQuery` of `npmLockTarget`. -/
def ensureMutable (c : Catalog) (version : String) (allVersions : Bool) : Except NPMError Unit := do
  require (version.utf8ByteSize ≤ 255 ∧ version.toList.all (!isControl ·) ∧ text.trimSpace version = version)
    .resourceLockInvalid
  require (¬(c.teamLocked ∨ "" ∈ c.locks ∨ if allVersions then c.locks ≠ [] else version ∈ c.locks))
    .resourceLocked

def lockNPMPackageRow (c : Catalog) : Except NPMError NPMPackage := orError c.package .packageNotFound

def lockNPMPackage (c : Catalog) : Except NPMError NPMPackage := do
  let p ← lockNPMPackageRow c
  ensureMutable text c "" false
  pure p

def requireNPMPermission (actor : String) (required : Int) : Except NPMError Unit :=
  let actor := text.toLower (sanitized text actor maxTokenNameLen)
  if actor = "" then .ok () else require (actor ≠ "guest" ∧ out.permits actor required) .permissionDenied

def requireNPMRevision (p : NPMPackage) (expectedRevision : Int) : Except NPMError Unit :=
  require (0 < expectedRevision → p.revision = expectedRevision) .revisionConflict

def ensureNPMTagChange (c : Catalog) (tag version : String) : Except NPMError Unit :=
  let previous := npmTagVersion c (text.toLower (text.trimSpace tag))
  if previous = version then .ok ()
  else do
    if previous ≠ "" then ensureMutable text c previous false
    if version ≠ "" then ensureMutable text c version false

def upsertNPMTag (tag version : String) (updatedAt : Int) (c : Catalog) : Except NPMError Catalog := do
  require (tagKey text tag ≠ "" ∧ versionKey text version ≠ "") (.invalid "npm dist-tag is invalid")
  pure { c with tags := c.tags.put ⟨tagKey text tag, versionKey text version, updatedAt⟩ }

/-- `UPDATE npm_packages`; nothing happens where there is no row. -/
def Catalog.updatePackage (c : Catalog) (f : NPMPackage → NPMPackage) : Catalog := { c with package := c.package.map f }

/-! ### Publications -/

variable (semver : Semver)

/-- What a publication says of its package. -/
structure Publication where
  description : String
  latestVersion : String := ""
  isPrivate : Bool := false
  createdAt : Int := 0
  updatedAt : Int

/-- The row that a publication inserts. -/
def NPMVersion.recorded (text : Text) (username : String) (version : NPMVersion) : NPMVersion where
  version := versionKey text version.version
  manifestJSON := version.manifestJSON
  publisher := username
  tarballPath := sanitizeInputString version.tarballPath 1024
  shasum := text.toLower (sanitizeInputString version.shasum 40)
  integrity := sanitizeInputString version.integrity 255
  size := max version.size 0
  deprecated := sanitizeInputString version.deprecated 4000
  unpublished := false
  mirrored := false
  createdAt := version.createdAt

def recordNPMPublication (pkg : Publication) (version : NPMVersion) (tags : StringMap) (username : String) (c : Catalog) :
    Except NPMError Catalog := do
  let username := text.toLower (sanitized text username maxTokenNameLen)
  let versionName := versionKey text version.version
  require (username ≠ "" ∧ versionName ≠ "" ∧ version.manifestJSON ≠ "" ∧ version.manifestJSON.utf8ByteSize ≤
    4 * 2 ^ 20) (.invalid "npm publication metadata is invalid")
  let p ← lockNPMPackage text c
  ensureMutable text c versionName false
  require (!p.archived) .packageArchived
  require (!p.mirrored ∧ p.publishEnabled) .packageMirrored
  require (out.permits username npmPermissionPublish) .permissionDenied
  require (c.versions.find? versionName = none) .versionExists
  require (c.versions.rows.length < maxNPMVersionsPerPackage ∧
    (c.versions.rows.map (·.manifestJSON.length)).sum + version.manifestJSON.utf8ByteSize ≤ maxNPMManifestUnits)
      .packageLimit
  let versions ← c.versions.insert (version.recorded text username) (.invalid "insert npm version")
  let c ← tags.rows.foldlM (fun c (tag, tagVersion) =>
    if tagVersion ≠ versionName then .ok c
    else do
      ensureNPMTagChange text c tag tagVersion
      upsertNPMTag text tag tagVersion pkg.updatedAt c) { c with versions := versions }
  pure (c.updatePackage fun p =>
    { p with
      description := sanitized text pkg.description 4000
      publisher := username
      latestVersion := latestOrChosen c semver
      revision := p.revision + 1
      updatedAt := pkg.updatedAt })

/-- The tags go back to what they were, and so do the columns of the package that a publication sets. -/
def rollbackNPMPublicationReview (version : String) (previous : NPMPackage) (previousTags : StringMap) (c : Catalog) :
    Except NPMError Catalog := do
  let version := versionKey text version
  require (version ≠ "") (.invalid "review request is invalid")
  let _ ← lockNPMPackageRow c
  require ((c.versions.find? version).isSome) .versionNotFound
  let c := { c with
    versions := c.versions.delete (·.version = version)
    tags := c.tags.delete (·.version = version) }
  let c ← previousTags.rows.foldlM (fun c (tag, tagVersion) => upsertNPMTag text tag tagVersion previous.updatedAt c) c
  pure (c.updatePackage fun p =>
    { p with
      description := previous.description
      publisher := previous.publisher
      latestVersion := previous.latestVersion
      revision := previous.revision
      updatedAt := previous.updatedAt })

/-! ### Mirrors -/

/-- The columns that a refresh sets. -/
def NPMVersion.refreshed (text : Text) (version : NPMVersion) (v : NPMVersion) : NPMVersion :=
  { v with
    manifestJSON := version.manifestJSON
    tarballPath := sanitizeInputString version.tarballPath 1024
    shasum := text.toLower (sanitizeInputString version.shasum 40)
    integrity := sanitizeInputString version.integrity 255
    size := max version.size 0
    deprecated := sanitizeInputString version.deprecated 4000
    unpublished := false
    mirrored := true }

/-- A version without a usable name or manifest is skipped. -/
def usable (version : NPMVersion) : Bool :=
  versionKey text version.version ≠ "" && version.manifestJSON ≠ "" && version.manifestJSON.utf8ByteSize ≤ 4 * 2 ^ 20

def refreshVersion (versions : Table NPMVersion.version) (version : NPMVersion) : Table NPMVersion.version :=
  if usable text version then
    match versions.find? (versionKey text version.version) with
    | some v => if v.mirrored then versions.put (version.refreshed text v) else versions
    | none => versions.put (version.refreshed text { version with version := versionKey text version.version, publisher :=
        "mirror" })
  else versions

theorem version_stale (v : NPMVersion) : (if v.mirrored then { v with unpublished := true } else v).version = v.version := by
  split <;> rfl

def recordNPMMirrorPublication (pkg : Publication) (versions : List NPMVersion) (tags : StringMap) (c : Catalog) :
    Except NPMError Catalog := do
  ensureMutable text c "" true
  require (c.package.all (·.mirrored)) .packageExists
  let description := sanitized text pkg.description 4000
  let latestVersion := sanitizeInputString pkg.latestVersion 128
  let package : NPMPackage := match c.package with
    | none => ⟨description, "mirror", latestVersion, pkg.isPrivate, false, true, false, 1, pkg.createdAt, pkg.updatedAt⟩
    | some p =>
      { p with
        description := description
        latestVersion := latestVersion
        isPrivate := pkg.isPrivate
        revision := p.revision + 1
        updatedAt := pkg.updatedAt }
  let stale := c.versions.update (fun v => if v.mirrored then { v with unpublished := true } else v) version_stale
  let refreshed := versions.foldl (refreshVersion text) stale
  let c := { c with
    package := some package
    versions := refreshed.delete fun v => v.mirrored && v.unpublished
    tags := Table.empty }
  let c ← tags.rows.foldlM (fun c (tag, version) => upsertNPMTag text tag version pkg.updatedAt c) c
  pure (c.updatePackage fun p => { p with latestVersion := latestOrChosen c semver })

/-! ### Dist-tags and deprecations -/

def setNPMDistTag (tag version actor : String) (expectedRevision now : Int) (c : Catalog) : Except NPMError Catalog := do
  let p ← lockNPMPackage text c
  requireNPMPermission text out actor npmPermissionLifecycle
  requireNPMRevision p expectedRevision
  require (published c version) .versionNotFound
  ensureNPMTagChange text c tag version
  let c ← upsertNPMTag text tag version now c
  pure (c.updatePackage fun p =>
    { p with latestVersion := latestOrChosen c semver, revision := p.revision + 1, updatedAt := now })

def deleteNPMDistTag (tag actor : String) (expectedRevision now : Int) (c : Catalog) : Except NPMError Catalog := do
  let tag := tagKey text tag
  let p ← lockNPMPackage text c
  requireNPMPermission text out actor npmPermissionLifecycle
  requireNPMRevision p expectedRevision
  ensureNPMTagChange text c tag ""
  require ((c.tags.find? tag).isSome) .versionNotFound
  let c := { c with tags := c.tags.delete (·.tag = tag) }
  pure (c.updatePackage fun p =>
    { p with latestVersion := latestOrChosen c semver, revision := p.revision + 1, updatedAt := now })

/-- `UPDATE npm_versions SET deprecated = ?` of a version that is not unpublished. -/
def deprecateVersion (version deprecated : String) (c : Catalog) : Except NPMError Catalog := do
  let version := versionKey text version
  require (published c version) .versionNotFound
  pure { c with versions := c.versions.update (fun v => if v.version = version then
    { v with deprecated := sanitized text deprecated 4000 } else v) fun v => by split <;> rfl }

def setNPMVersionDeprecated (version deprecated actor : String) (expectedRevision now : Int) (c : Catalog) :
    Except NPMError Catalog := do
  let p ← lockNPMPackage text c
  requireNPMPermission text out actor npmPermissionLifecycle
  requireNPMRevision p expectedRevision
  ensureMutable text c (versionKey text version) false
  let c ← deprecateVersion text version deprecated c
  pure (c.updatePackage fun p => { p with revision := p.revision + 1, updatedAt := now })

/-- A locked version that is stored. -/
def lockedVersion (c : Catalog) (version : String) : Bool := version ∈ c.locks && (c.versions.find? version).isSome

/-- Full packuments repeat unchanged version metadata; only actual changes may violate a version lock. -/
def ensureNPMPackumentLocks (c : Catalog) (deprecations tags : StringMap) : Except NPMError Unit := do
  require (∀ v ∈ c.versions.rows, lockedVersion c v.version →
    ∀ next ∈ deprecations.find? v.version, text.trimSpace next.2 = v.deprecated) .resourceLocked
  require (∀ t ∈ c.tags.rows, lockedVersion c t.version → StringMap.get tags t.tag = t.version) .resourceLocked
  require (∀ p ∈ tags.rows, lockedVersion c p.2 → npmTagVersion c p.1 = p.2) .resourceLocked

def updateNPMPackument (actor : String) (expectedRevision : Int) (deprecations tags : StringMap) (now : Int) (c : Catalog) :
    Except NPMError Catalog := do
  let p ← lockNPMPackage text c
  requireNPMPermission text out actor npmPermissionLifecycle
  requireNPMRevision p expectedRevision
  ensureNPMPackumentLocks text c deprecations tags
  let c ← deprecations.rows.foldlM (fun c (version, deprecated) => deprecateVersion text version deprecated c) c
  let c ← tags.rows.foldlM (fun c (tag, version) => do
    require (published c version) .versionNotFound
    upsertNPMTag text tag version now c) { c with tags := Table.empty }
  pure (c.updatePackage fun p =>
    { p with latestVersion := StringMap.get tags "latest", revision := p.revision + 1, updatedAt := now })

/-! ### Removals -/

def unpublishNPMVersion (version actor : String) (expectedRevision now : Int) (c : Catalog) :
    Except NPMError (Catalog × String) := do
  let version := versionKey text version
  let p ← lockNPMPackage text c
  requireNPMPermission text out actor npmPermissionLifecycle
  requireNPMRevision p expectedRevision
  ensureMutable text c version false
  let v ← orError (c.versions.find? version) .versionNotFound
  require (!v.unpublished) .versionNotFound
  let c := { c with
    versions := c.versions.update (fun v => if v.version = version then { v with unpublished := true } else v)
      fun v => by split <;> rfl
    tags := c.tags.delete (·.version = version) }
  let latest := latestNPMVersion c semver
  let c ← if latest = "" then pure c
    else do
      ensureNPMTagChange text c "latest" latest
      upsertNPMTag text "latest" latest now c
  pure (c.updatePackage fun p => { p with latestVersion := latest, revision := p.revision + 1, updatedAt := now },
    v.tarballPath)

/-- `UPDATE npm_packages SET archived = ?` -/
def setNPMPackageArchived (actor : String) (archived : Bool) (now : Int) (c : Catalog) : Except NPMError Catalog := do
  let _ ← lockNPMPackage text c
  requireNPMPermission text out actor npmPermissionOwner
  ensureMutable text c "" true
  pure (c.updatePackage fun p => { p with archived := archived, revision := p.revision + 1, updatedAt := now })

def deleteNPMPackage (actor : String) (expectedRevision now : Int) (c : Catalog) :
    Except NPMError (Catalog × List String) := do
  let p ← lockNPMPackage text c
  requireNPMPermission text out actor npmPermissionOwner
  requireNPMRevision p expectedRevision
  ensureMutable text c "" true
  let paths := (c.versions.rows.filter (!·.unpublished)).map (·.tarballPath)
  let c := { c with
    versions := c.versions.update (fun v => { v with unpublished := true }) fun _ => rfl
    tags := Table.empty }
  pure (c.updatePackage fun p =>
    { p with
      archived := true
      publishEnabled := false
      latestVersion := ""
      revision := p.revision + 1
      updatedAt := now }, paths)

end Calls

/-! ### Calls -/

inductive Call
  | publish (pkg : Publication) (version : NPMVersion) (tags : StringMap) (username : String)
  | rollback (version : String) (previous : NPMPackage) (previousTags : StringMap)
  | mirror (pkg : Publication) (versions : List NPMVersion) (tags : StringMap)
  | setTag (tag version actor : String) (expectedRevision now : Int)
  | deleteTag (tag actor : String) (expectedRevision now : Int)
  | setDeprecated (version deprecated actor : String) (expectedRevision now : Int)
  | packument (actor : String) (expectedRevision : Int) (deprecations tags : StringMap) (now : Int)
  | unpublish (version actor : String) (expectedRevision now : Int)
  | archive (actor : String) (archived : Bool) (now : Int)
  | delete (actor : String) (expectedRevision now : Int)

def exec (text : Text) (semver : Semver) (out : Outside) (c : Catalog) : Call → Except NPMError Catalog
  | .publish pkg version tags username => recordNPMPublication text out semver pkg version tags username c
  | .rollback version previous previousTags => rollbackNPMPublicationReview text version previous previousTags c
  | .mirror pkg versions tags => recordNPMMirrorPublication text semver pkg versions tags c
  | .setTag tag version actor expectedRevision now => setNPMDistTag text out semver tag version actor expectedRevision now c
  | .deleteTag tag actor expectedRevision now => deleteNPMDistTag text out semver tag actor expectedRevision now c
  | .setDeprecated version deprecated actor expectedRevision now =>
    setNPMVersionDeprecated text out version deprecated actor expectedRevision now c
  | .packument actor expectedRevision deprecations tags now =>
    updateNPMPackument text out actor expectedRevision deprecations tags now c
  | .unpublish version actor expectedRevision now =>
    (unpublishNPMVersion text out semver version actor expectedRevision now c).map Prod.fst
  | .archive actor archived now => setNPMPackageArchived text out actor archived now c
  | .delete actor expectedRevision now => (deleteNPMPackage text out actor expectedRevision now c).map Prod.fst

end Renop.Npm
