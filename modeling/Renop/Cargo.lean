import Renop.SqlTable
import Renop.SuperTeam

/-!
# The Cargo catalog

The tables of `cargo.go` and the calls that publish, yank and archive. Each call runs in one database
transaction, so it returns the new tables or an error that leaves them as they were; that includes a
statement the database itself refuses (`CargoError.database`).

The flags are stored as 0 and 1 and never as anything else, so they are booleans here. A version has
three: `yanked` is what the index shows, `adminYanked` says that an administrator yanked it and
`archiveYanked` that archiving the package did.
-/

namespace Renop.Cargo

open Sql

/-! ### Input strings -/

/-- The string functions of Go that depend on the Unicode tables. -/
structure Text where
  toLower : String → String
  trimSpace : String → String
  jsonValid : String → Bool
  /-- `json.Marshal` of an object. -/
  marshal : List (String × (String ⊕ Int)) → String

def sanitizeControlBytes (s : String) : String :=
  String.ofList (s.toList.filter fun c => (c.toNat ≥ 32 || c = '\t' || c = '\n' || c = '\r') && c.toNat ≠ 127)

/-- The longest prefix of whole characters that fits into `maxLen` bytes. -/
def truncateUTF8 : List Char → Nat → List Char
  | [], _ => []
  | c :: cs, maxLen => if c.utf8Size ≤ maxLen then c :: truncateUTF8 cs (maxLen - c.utf8Size) else []

def sanitizeInputString (s : String) (maxLen : Nat) : String :=
  let s := sanitizeControlBytes s
  if 0 < maxLen then String.ofList (truncateUTF8 s.toList maxLen) else s

example : sanitizeInputString "se\x00rde" 4 = "serd" := by decide +kernel

def maxTokenNameLen : Nat := 255

def maxPackageReadmeBytes : Nat := 512 * 1024

/-- `repository` and `normalized_name`, the key of a package. -/
abbrev Key := String × String

section Sanitize
variable (text : Text)

def sanitized (s : String) (maxLen : Nat) : String := sanitizeInputString (text.trimSpace s) maxLen

def sanitizeCargoKey (repository normalizedName : String) : Key :=
  (text.toLower (sanitized text repository 64), text.toLower (sanitized text normalizedName 64))

def sanitizeCargoUsername (username : String) : String := text.toLower (sanitized text username maxTokenNameLen)

def sanitizePackageReadme (readme : String) : String :=
  text.trimSpace (sanitizeInputString readme maxPackageReadmeBytes)

end Sanitize

/-! ### The tables -/

inductive CargoError
  | packageNotFound
  | versionNotFound
  | versionExists
  | permissionDenied
  | packageArchived
  | adminArchived
  | adminYanked
  | lastFullMember
  | ownerCannotLeave
  | memberExists
  | invitationExists
  | invitationInvalid
  /-- `core.ErrAccountDeleted` -/
  | accountDeleted
  /-- `core.ErrUserProfileNotFound` -/
  | profileNotFound
  /-- `core.ErrResourceLocked` -/
  | resourceLocked
  /-- `core.ErrReviewInvalidRequest` -/
  | reviewInvalidRequest
  /-- `core.ErrReviewResourceConflict` -/
  | reviewResourceConflict
  /-- An error made by `errors.New`. -/
  | invalid (reason : String)
  /-- A statement failed. -/
  | database
deriving DecidableEq, Repr

/-- A row of `cargo_packages`, and the package as a caller describes it. -/
structure CargoPackage where
  repository : String
  normalizedName : String
  name : String
  description : String
  readme : String
  repositoryURL : String
  homepage : String
  documentation : String
  superTeamPrefix : String
  archived : Bool
  adminArchived : Bool
  mirrored : Bool
  createdAt : Int
  updatedAt : Int
deriving DecidableEq, Repr

def CargoPackage.key (p : CargoPackage) : Key := (p.repository, p.normalizedName)

/-- A row of `cargo_versions`; `package` is the normalized name. -/
structure CargoVersion where
  repository : String
  package : String
  version : String
  description : String
  publisher : String
  size : Int
  checksum : String
  rustVersion : String
  license : String
  repositoryURL : String
  homepage : String
  documentation : String
  yanked : Bool
  adminYanked : Bool
  archiveYanked : Bool
  mirrored : Bool
  createdAt : Int
deriving DecidableEq, Repr

namespace CargoVersion

def key (v : CargoVersion) : Key := (v.repository, v.package)

def id (v : CargoVersion) : Key × String := (v.key, v.version)

end CargoVersion

/-- A row of `cargo_members`. -/
structure CargoMember where
  repository : String
  normalizedName : String
  username : String
  userID : String
  permissionLevel : Int
  addedAt : Int
deriving DecidableEq, Repr

namespace CargoMember

def key (m : CargoMember) : Key := (m.repository, m.normalizedName)

/-- `uq_cargo_members_user_id` -/
def id (m : CargoMember) : Key × String := (m.key, m.userID)

end CargoMember

structure CargoInvitation where
  id : String
  repository : String
  normalizedName : String
  package : String
  inviter : String
  recipient : String
  level : Int
  createdAt : Int
deriving DecidableEq, Repr

def CargoInvitation.key (i : CargoInvitation) : Key := (i.repository, i.normalizedName)

structure UserMessage where
  id : String
  recipient : String
  sender : String
  kind : String
  severity : String
  title : String
  body : String
  payload : String
  actionKind : String
  actionStatus : String
  createdAt : Int
  readAt : Int
  actedAt : Int
  expiresAt : Int
  dedupeKey : String
deriving DecidableEq, Repr

/-- A row of `user_profiles`. -/
structure Profile where
  userID : String
  username : String
deriving DecidableEq, Repr

structure DB where
  packages : Table CargoPackage.key
  versions : Table CargoVersion.id
  members : Table CargoMember.id
  invitations : Table CargoInvitation.id
  messages : Table UserMessage.id
  profiles : Table Profile.userID
  /-- `tokens.deleted_at > 0`, by account name. -/
  accountDeleted : String → Bool
  /-- `role_level` in `super_team_members`, by team prefix and user id. -/
  superTeamRole : String → String → Option Int
  /-- What `ensureResourceMutableQuery` answers for a package and a version. -/
  resourceLock : Key → String → Option CargoError

/-- No package yet. -/
def DB.initial (profiles : Table Profile.userID) (accountDeleted : String → Bool)
    (superTeamRole : String → String → Option Int) (resourceLock : Key → String → Option CargoError) : DB :=
  ⟨.empty, .empty, .empty, .empty, .empty, profiles, accountDeleted, superTeamRole, resourceLock⟩

/-! ### Accounts -/

section Accounts
variable (text : Text)

def DB.profileByName (db : DB) (username : String) : Option Profile :=
  db.profiles.rows.find? fun p => p.username = username

def userIDForUsername (db : DB) (username : String) : Except CargoError String := do
  let username := text.toLower (text.trimSpace username)
  require (username ≠ "") .profileNotFound
  let profile ← orError (db.profileByName username) .profileNotFound
  require (profile.userID ≠ "") .profileNotFound
  pure profile.userID

def userIDForUsernameTx (db : DB) (username : String) : Except CargoError String := do
  let username := text.toLower (text.trimSpace username)
  let profile ← orError (db.profileByName username) .profileNotFound
  require (db.accountDeleted profile.username = false) .profileNotFound
  pure profile.userID

/-- The id of an account; an account without a profile gets one, with the new id `newID`. -/
def ensureUserProfile (db : DB) (username newID : String) : Except CargoError (String × DB) := do
  require (db.accountDeleted username = false) .accountDeleted
  match userIDForUsername text db username with
  | .ok userID => pure (userID, db)
  | .error _ =>
    -- `username` is unique as well
    require (db.profileByName (text.toLower (text.trimSpace username)) = none) .database
    let profiles ← db.profiles.insert ⟨newID, text.toLower (text.trimSpace username)⟩ .database
    pure (newID, { db with profiles := profiles })

/-- Takes the account's row lock; deleted accounts are refused. -/
def lockAccountLoginMethods (db : DB) (userID : String) : Except CargoError Unit :=
  match db.profiles.find? userID with
  | some profile => require (db.accountDeleted profile.username = false) .accountDeleted
  | none => pure ()

end Accounts

def ensureResourceMutable (db : DB) (key : Key) (version : String) : Except CargoError Unit :=
  match db.resourceLock key version with
  | some e => .error e
  | none => pure ()

/-! ### Permissions -/

def cargoPermissionPublish : Int := 1

def cargoPermissionManage : Int := 3

def cargoPermissionOwner : Int := 4

def DB.member? (db : DB) (key : Key) (userID : String) : Option CargoMember := db.members.find? (key, userID)

def cargoEffectivePermission (db : DB) (key : Key) (userID : String) : Except CargoError (Int × Bool) := do
  let package ← orError (db.packages.find? key) .packageNotFound
  pure (effectiveBoundPermission ((db.member? key userID).map (·.permissionLevel))
    (db.superTeamRole package.superTeamPrefix userID))

/-! ### Publishing -/

def DB.version? (db : DB) (key : Key) (version : String) : Option CargoVersion := db.versions.find? (key, version)

/-- `UPDATE cargo_packages SET … WHERE repository = ? AND normalized_name = ?`; no statement sets the key. -/
def DB.updatePackage (db : DB) (key : Key) (f : CargoPackage → CargoPackage) : DB :=
  let packages := db.packages.update
    (fun p => if p.key = key then { f p with repository := p.repository, normalizedName := p.normalizedName } else p)
    fun p => by dsimp only; split <;> rfl
  { db with packages := packages }

/-- `UPDATE cargo_versions SET … WHERE …` -/
def DB.updateVersions (db : DB) (p : CargoVersion → Bool) (f : CargoVersion → CargoVersion) : DB :=
  let versions := db.versions.update
    (fun v => if p v then { f v with repository := v.repository, package := v.package, version := v.version } else v)
    fun v => by dsimp only; split <;> rfl
  { db with versions := versions }

/-- `INSERT INTO cargo_members`; the primary key has the username, a unique index the user id. -/
def DB.insertMember (db : DB) (m : CargoMember) : Except CargoError DB := do
  require (∀ other ∈ db.members.rows, other.key = m.key → other.username ≠ m.username) .database
  let members ← db.members.insert m .database
  pure { db with members := members }

section Publishing
variable (text : Text)

def sanitizedPackage (pkg : CargoPackage) : CargoPackage :=
  let key := sanitizeCargoKey text pkg.repository pkg.normalizedName
  { pkg with
    repository := key.1, normalizedName := key.2, name := sanitized text pkg.name 64
    description := sanitized text pkg.description 4000, readme := sanitizePackageReadme text pkg.readme
    repositoryURL := sanitized text pkg.repositoryURL 1024, homepage := sanitized text pkg.homepage 1024
    documentation := sanitized text pkg.documentation 1024 }

/-- The row that `RecordCargoPublication` inserts for a version of `p`. -/
def publishedVersion (p : CargoPackage) (version : CargoVersion) (versionName username : String) : CargoVersion :=
  { repository := p.repository, package := p.normalizedName, version := versionName, description := p.description
    publisher := username, size := version.size, checksum := sanitized text version.checksum 64
    rustVersion := sanitized text version.rustVersion 64, license := sanitized text version.license 255
    repositoryURL := sanitized text version.repositoryURL 1024, homepage := sanitized text version.homepage 1024
    documentation := sanitized text version.documentation 1024, yanked := false, adminYanked := false
    archiveYanked := false, mirrored := false, createdAt := version.createdAt }

/-- The row that `RecordCargoMirrorPublication` inserts. -/
def mirroredVersion (p : CargoPackage) (version : CargoVersion) (versionName : String) (createdAt : Int) : CargoVersion :=
  { repository := p.repository, package := p.normalizedName, version := versionName, description := p.description
    publisher := "", size := max version.size 0, checksum := "", rustVersion := "", license := ""
    repositoryURL := "", homepage := "", documentation := "", yanked := false, adminYanked := false
    archiveYanked := false, mirrored := true
    createdAt := if version.createdAt ≤ 0 then createdAt else version.createdAt }

/-- What the last statement of `RecordCargoPublication` makes of the stored package `q`. -/
def CargoPackage.describe (p q : CargoPackage) : CargoPackage :=
  { q with
    description := p.description, readme := p.readme
    repositoryURL := if p.repositoryURL ≠ "" then p.repositoryURL else q.repositoryURL
    homepage := if p.homepage ≠ "" then p.homepage else q.homepage
    documentation := if p.documentation ≠ "" then p.documentation else q.documentation
    updatedAt := p.updatedAt }

/-- A mirror only fills in texts that are missing. -/
def CargoPackage.describeMirrored (p : CargoPackage) (updatedAt : Int) (q : CargoPackage) : CargoPackage :=
  { q with
    mirrored := true
    description := if q.description = "" ∧ p.description ≠ "" then p.description else q.description
    readme := if q.readme = "" ∧ p.readme ≠ "" then p.readme else q.readme
    updatedAt := if updatedAt > q.updatedAt then updatedAt else q.updatedAt }

/-- The `switch` of `RecordCargoPublication`: a new package gets its owner, an old one asks for permission. -/
def joinCargoPackage (db : DB) (p : CargoPackage) (username userID : String) : Except CargoError DB :=
  match db.packages.find? p.key with
  | none => do
    let packages ← db.packages.insert
      { p with superTeamPrefix := "", archived := false, adminArchived := false, mirrored := false } .database
    { db with packages := packages }.insertMember
      ⟨p.repository, p.normalizedName, username, userID, cargoPermissionOwner, p.createdAt⟩
  | some stored => do
    require (stored.archived = false) .packageArchived
    require (stored.name = p.name) (.invalid "cargo crate name collides with an existing package")
    let permission ← cargoEffectivePermission db p.key userID
    require (permission.2 = true ∧ cargoPermissionPublish ≤ permission.1) .permissionDenied
    pure db

def recordCargoPublication (db : DB) (pkg : CargoPackage) (version : CargoVersion) (username newID : String) :
    Except CargoError DB := do
  let p := sanitizedPackage text pkg
  let username := sanitizeCargoUsername text username
  let versionName := sanitized text version.version 128
  require (p.repository ≠ "" ∧ p.normalizedName ≠ "" ∧ username ≠ "" ∧ p.name ≠ "" ∧ versionName ≠ "")
    (.invalid "cargo publication metadata is invalid")
  let (userID, db) ← (ensureUserProfile text db username newID).mapError fun _ => .permissionDenied
  lockAccountLoginMethods db userID
  ensureResourceMutable db p.key versionName
  let db ← joinCargoPackage db p username userID
  require (db.version? p.key versionName = none) .versionExists
  let versions ← db.versions.insert (publishedVersion text p version versionName username) .database
  pure ({ db with versions := versions }.updatePackage p.key p.describe)

/-- The package part of `RecordCargoMirrorPublication`. -/
def joinMirroredPackage (db : DB) (p : CargoPackage) (createdAt updatedAt : Int) : Except CargoError DB :=
  match db.packages.find? p.key with
  | none => do
    let packages ← db.packages.insert
      { p with
        repositoryURL := "", homepage := "", documentation := "", superTeamPrefix := "", archived := false
        adminArchived := false, mirrored := true, createdAt := createdAt, updatedAt := updatedAt } .database
    pure { db with packages := packages }
  | some stored => do
    require (stored.name = p.name) (.invalid "mirrored Cargo crate name collides with an existing package")
    pure (db.updatePackage p.key (p.describeMirrored updatedAt))

/-- A version fetched from an upstream; `now` is the clock. -/
def recordCargoMirrorPublication (db : DB) (pkg : CargoPackage) (version : CargoVersion) (now : Int) :
    Except CargoError DB := do
  let p := sanitizedPackage text pkg
  let versionName := sanitized text version.version 128
  let createdAt := if pkg.createdAt ≤ 0 then now else pkg.createdAt
  let updatedAt := max pkg.updatedAt createdAt
  require (p.repository ≠ "" ∧ p.normalizedName ≠ "" ∧ p.name ≠ "" ∧ versionName ≠ "")
    (.invalid "mirrored Cargo metadata is invalid")
  let db ← joinMirroredPackage db p createdAt updatedAt
  match db.version? p.key versionName with
  | none =>
    let versions ← db.versions.insert (mirroredVersion p version versionName createdAt) .database
    pure { db with versions := versions }
  | some _ =>
    pure (db.updateVersions (fun v => v.key = p.key && v.version = versionName) fun v => { v with
      mirrored := true, size := if version.size > v.size then version.size else v.size })

/-- Removes what a review approval recorded; `previous` is the package before it. -/
def rollbackCargoPublicationReview (db : DB) (repository normalizedName version : String)
    (previous : Option CargoPackage) : Except CargoError DB := do
  let key := sanitizeCargoKey text repository normalizedName
  let version := sanitized text version 128
  require (key.1 ≠ "" ∧ key.2 ≠ "" ∧ version ≠ "" ∧ ∀ p ∈ previous, p.key = key) .reviewInvalidRequest
  require (db.version? key version ≠ none) .versionNotFound
  let db := { db with versions := db.versions.delete fun v => v.key = key && v.version = version }
  match previous with
  | none => do
    require (∀ v ∈ db.versions.rows, v.key ≠ key) .reviewResourceConflict
    pure { db with members := db.members.delete fun m => m.key = key
                   packages := db.packages.delete fun p => p.key = key }
  | some p => pure (db.updatePackage key fun _ => p)

/-! ### Yanking and archiving -/

def setCargoVersionYanked (db : DB) (repository normalizedName version : String) (yanked administrator : Bool) :
    Except CargoError DB := do
  let key := sanitizeCargoKey text repository normalizedName
  let version := sanitized text version 128
  let package ← orError (db.packages.find? key) .versionNotFound
  let stored ← orError (db.version? key version) .versionNotFound
  require (yanked = true ∨ package.archived = false) .packageArchived
  require (yanked = true ∨ stored.adminYanked = false ∨ administrator = true) .adminYanked
  let adminValue := if administrator then yanked else stored.adminYanked
  pure (db.updateVersions (fun v => v.key = key && v.version = version) fun v => { v with
    yanked := yanked, adminYanked := adminValue })

def deleteCargoVersion (db : DB) (repository normalizedName version : String) : Except CargoError DB := do
  let key := sanitizeCargoKey text repository normalizedName
  let version := sanitized text version 128
  require (db.version? key version ≠ none) .versionNotFound
  let db := { db with versions := db.versions.delete fun v => v.key = key && v.version = version }
  pure (db.updatePackage key fun p => { p with mirrored := db.versions.rows.any fun v => v.key = key && v.mirrored })

/-- What `SetCargoPackageArchived` does to a version of the package. -/
def archiveVersion (archived : Bool) (v : CargoVersion) : CargoVersion :=
  if archived then
    { v with archiveYanked := if v.yanked = false then true else v.archiveYanked, yanked := true }
  else
    { v with yanked := if v.archiveYanked = true ∧ v.adminYanked = false then false else v.yanked, archiveYanked := false }

def setCargoPackageArchived (db : DB) (repository normalizedName : String) (archived administrator : Bool) :
    Except CargoError DB := do
  let key := sanitizeCargoKey text repository normalizedName
  let package ← orError (db.packages.find? key) .packageNotFound
  require (archived = true ∨ package.adminArchived = false ∨ administrator = true) .adminArchived
  let adminArchived := if administrator then archived else package.adminArchived
  pure ((db.updateVersions (fun v => v.key = key) (archiveVersion archived)).updatePackage key fun p => { p with
    archived := archived, adminArchived := adminArchived })

end Publishing

end Renop.Cargo
