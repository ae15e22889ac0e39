import Renop.Accounts

/-!
# The tables with user names

An account is known by its user id, and beside that some thirty columns hold copies of its name. A row is given by
these columns and by what else is in it. `renameTokenInTx` rewrites the columns one statement after the other, from a
list that is kept by hand; a payload of a review is a JSON text and in no statement. Names that only record who did
something (`super_teams.created_by_name`, `download_statistics.username`, `mail_jobs.actor`) and the password are left out.
-/

namespace Renop.AccountTables

open Sql
open Renop.Accounts
open Renop.SuperTeam (Text)
open Renop.Cargo (Key Profile sanitized maxTokenNameLen)

/-! ### Rows -/

inductive TableName
  | sessions | fidoDevices | gpgSignatures | gpgReleases | auditLogs | userMessages
  | mavenDomainMembers | mavenArtifacts | mavenVersions | mavenDomainInvitations
  | cargoMembers | cargoVersions | cargoInvitations
  | dockerMembers | dockerImages | dockerTags | dockerManifests | dockerInvitations
  | npmMembers | npmVersions | npmPackages | npmInvitations
  | reviewTasks | userGPGKeys
  /-- The payloads of crates and npm packages under review; the column is the publisher in the JSON text. -/
  | reviewTaskPayloads
deriving DecidableEq, Repr

inductive Column
  | username | uploader | operator | initiator | recipient | sender | publisher | inviter | requestedByName | decidedByName
deriving DecidableEq, Repr

structure MemberData where
  key : Key
  userID : String
  permissionLevel : Int
  addedAt : Int
deriving DecidableEq, Repr

structure ImageData where
  key : Key
  superTeamPrefix : String
deriving DecidableEq, Repr

structure TaskData where
  id : String
  kind : String
  requestedByID : String
  decidedByID : String
  status : String
deriving DecidableEq, Repr

structure GPGKeyData where
  fingerprint : String
  requestedID : String
  addedAt : Int
deriving DecidableEq, Repr

structure ReleaseData where
  id : String
  activeKey : Option String
  cleanupPending : Bool
  status : String
deriving DecidableEq, Repr

/-- The columns of a row that hold no names; where they are not looked into, as texts. -/
abbrev Data : TableName → Type
  | .mavenDomainMembers | .cargoMembers | .dockerMembers | .npmMembers => MemberData
  | .dockerImages => ImageData
  | .reviewTasks => TaskData
  | .userGPGKeys => GPGKeyData
  | .gpgReleases => ReleaseData
  | .reviewTaskPayloads => String
  | _ => List String

/-- The columns of a table that hold names. -/
def columns : TableName → List Column
  | .sessions | .fidoDevices | .mavenDomainMembers | .cargoMembers | .dockerMembers | .npmMembers | .userGPGKeys =>
    [.username]
  | .gpgSignatures | .gpgReleases => [.uploader]
  | .auditLogs => [.username, .operator, .initiator]
  | .userMessages => [.recipient, .sender]
  | .mavenDomainInvitations | .cargoInvitations | .dockerInvitations | .npmInvitations => [.inviter, .recipient]
  | .reviewTasks => [.requestedByName, .decidedByName]
  | .mavenArtifacts | .mavenVersions | .cargoVersions | .dockerImages | .dockerTags | .dockerManifests | .npmVersions
  | .npmPackages | .reviewTaskPayloads => [.publisher]

structure Row (t : TableName) where
  names : Column → String
  data : Data t

/-- The kinds of packages that have members. -/
inductive Kind
  | maven | cargo | docker | npm
deriving DecidableEq, Repr

/-- A row of `super_team_members`. -/
structure TeamMember where
  teamPrefix : String
  userID : String
  roleLevel : Int
deriving DecidableEq, Repr

/-- The database, as far as it refers to accounts. -/
structure Store extends AccountDB where
  rows : (t : TableName) → List (Row t)
  superTeamMembers : List TeamMember
  /-- `super_team_prefix` of the domains, crates and npm packages there are. -/
  binding : Kind → Key → Option String
  /-- `rename_window_started_at` and `rename_count` of a profile. -/
  renameWindow : String → Int × Nat

/-! ### Statements -/

/-- `UPDATE t SET c = new WHERE c = old` on one row. -/
def Row.update {t : TableName} (oldName newName : String) (u : TableName × Column) (r : Row t) : Row t :=
  if u.1 = t ∧ r.names u.2 = oldName then { r with names := Function.update r.names u.2 newName } else r

def Store.update (s : Store) (oldName newName : String) (u : TableName × Column) : Store :=
  { s with rows := fun t => (s.rows t).map (Row.update oldName newName u) }

/-- The list in `renameTokenInTx`. -/
def updates : List (TableName × Column) :=
  [(.sessions, .username), (.fidoDevices, .username), (.gpgSignatures, .uploader), (.gpgReleases, .uploader),
   (.auditLogs, .username), (.auditLogs, .operator), (.auditLogs, .initiator),
   (.userMessages, .recipient), (.userMessages, .sender),
   (.mavenDomainMembers, .username), (.mavenArtifacts, .publisher), (.mavenVersions, .publisher),
   (.mavenDomainInvitations, .inviter), (.mavenDomainInvitations, .recipient),
   (.cargoMembers, .username), (.cargoVersions, .publisher), (.cargoInvitations, .inviter), (.cargoInvitations, .recipient),
   (.dockerMembers, .username), (.dockerImages, .publisher), (.dockerTags, .publisher), (.dockerManifests, .publisher),
   (.dockerInvitations, .inviter), (.dockerInvitations, .recipient),
   (.npmMembers, .username), (.npmVersions, .publisher), (.npmPackages, .publisher), (.npmInvitations, .inviter),
   (.npmInvitations, .recipient), (.reviewTasks, .requestedByName), (.reviewTasks, .decidedByName)]

/-- An insert of ClickHouse replaces the row of the same key. -/
def insertGPGKey (keys : List (Row .userGPGKeys)) (row : Row .userGPGKeys) : List (Row .userGPGKeys) :=
  keys.filter (fun r => ¬ (r.names .username = row.names .username ∧ r.data.fingerprint = row.data.fingerprint)) ++ [row]

/-- Copies under the new name, then the old rows go. -/
def renamedGPGKeys (oldName newName : String) (keys : List (Row .userGPGKeys)) : List (Row .userGPGKeys) :=
  (((keys.filter fun r => r.names .username = oldName).map fun r =>
    { r with names := Function.update r.names .username newName }).foldl
    insertGPGKey keys).filter fun r => r.names .username ≠ oldName

def Store.setGPGKeys (s : Store) (keys : List (Row .userGPGKeys)) : Store :=
  { s with rows := fun t => match t with
    | .userGPGKeys => keys
    | t => s.rows t }

section Statements
variable (clickHouse : Bool) (refused : TableName × Column → Bool)

/-- One statement of the loop; `refused` is what a unique column says. -/
def execUpdate (oldName newName : String) (s : Store) (u : TableName × Column) : Except AccountError Store := do
  require (refused u = false) .database
  pure (s.update oldName newName u)

/-- The rows that `renameTokenInTx` changes beside `tokens`. -/
def renameRows (s : Store) (oldName newName : String) : Except AccountError Store :=
  if clickHouse then do
    require (refused (.userGPGKeys, .username) = false) .database
    updates.foldlM (execUpdate refused oldName newName) (s.setGPGKeys (renamedGPGKeys oldName newName (s.rows .userGPGKeys)))
  else (updates ++ [(TableName.userGPGKeys, Column.username)]).foldlM (execUpdate refused oldName newName) s

variable (text : Text)

def renameTokenInTx (s : Store) (oldName newName : String) (token : Token) (now : Int) : Except AccountError Store := do
  require (s.tokens.find? newName = none) .usernameExists
  let ban ← storedAccountBan text token now
  let tokens ← s.tokens.insert { token with name := newName, ban := ban, deletedAt := 0 } .database
  renameRows clickHouse refused { s with tokens := tokens.delete fun t => t.name = oldName } oldName newName

/-! ### The two calls -/

def Store.withAccounts (s : Store) (r : Except AccountError AccountDB) : Except AccountError Store :=
  r.map fun accounts => { s with toAccountDB := accounts }

/-- `RenameToken`; `token` is what the caller loaded. -/
def renameToken (s : Store) (oldName newName : String) (token : Token) (newID : String) (now : Int) :
    Except AccountError Store := do
  let lowerOld := text.toLower (sanitized text.toText oldName maxTokenNameLen)
  let lowerNew := text.toLower (sanitized text.toText newName maxTokenNameLen)
  require (lowerOld ≠ "" ∧ lowerNew ≠ "") (.invalid "token name is invalid")
  require (token.deletedAt ≤ 0) .accountDeleted
  if lowerOld = lowerNew then s.withAccounts (saveToken text s.toAccountDB { token with name := lowerNew } newID now)
  else
    let (_, current) ← currentAccount s.toAccountDB lowerOld
    let s ← renameTokenInTx clickHouse refused text s lowerOld lowerNew current now
    s.withAccounts (renameProfile s.toAccountDB lowerOld lowerNew)

def usernameChangeWindowMillis : Int := 24 * 60 * 60 * 1000

def maxUsernameChangesPerDay : Nat := 2

/-- The window of a rename at `changedAt`, unless there were too many. -/
def nextWindow (window : Int × Nat) (changedAt : Int) : Except AccountError (Int × Nat) := do
  let expired : Bool := window.1 ≤ 0 || changedAt < window.1 || usernameChangeWindowMillis ≤ changedAt - window.1
  let window := if expired then (changedAt, 0) else window
  require (window.2 < maxUsernameChangesPerDay) (.invalid "username change rate")
  pure (window.1, window.2 + 1)

/-- The profile of the call is written at its end: by its id, or as a new row. -/
def writeProfile (s : Store) (profile : Option Profile) (userID username : String) (window : Int × Nat) :
    Except AccountError Store := do
  let s := { s with renameWindow := Function.update s.renameWindow userID window }
  match profile with
  | none => s.withAccounts (insertProfile s.toAccountDB ⟨userID, username⟩)
  | some profile => s.withAccounts (renameProfile s.toAccountDB profile.username username)

/-- `UpdateUserProfile`; `nickname` is what `NormalizeNickname` makes of the nickname, and `permissions` what the account
shall have instead of its permissions. -/
def updateUserProfile (s : Store) (oldUsername newUsername : String) (nickname : Option String)
    (permissions : Option (List String)) (changedAt : Int) (newID : String) (now : Int) : Except AccountError Store := do
  let oldUsername := text.toLower (sanitized text.toText oldUsername maxTokenNameLen)
  let newUsername := text.toLower (sanitized text.toText newUsername maxTokenNameLen)
  require (oldUsername ≠ "" ∧ newUsername ≠ "" ∧ 0 < changedAt ∧ nickname.isSome = true ∧
    (oldUsername = newUsername ∨ normalizeUsername text newUsername = some newUsername))
      (.invalid "user profile update is invalid")
  let profile := profileByName s.toAccountDB oldUsername
  let userID := (profile.map (·.userID)).getD newID
  let window := (profile.map fun p => s.renameWindow p.userID).getD (0, 0)
  match profile with
  | none => pure ()
  | some p => lockAccountLoginMethods s.toAccountDB p.userID
  let current ← orError (s.tokens.find? oldUsername) .profileNotFound
  let token := { current with permissions := permissions.getD current.permissions }
  if oldUsername = newUsername then
    let s ← s.withAccounts (saveTokenInTx text s.toAccountDB oldUsername token now)
    writeProfile s profile userID newUsername window
  else
    let window ← nextWindow window changedAt
    let s ← renameTokenInTx clickHouse refused text s oldUsername newUsername token now
    writeProfile s profile userID newUsername window

end Statements

/-! ### Renaming -/

inductive RenameCall
  | renameToken (oldName newName : String) (token : Token) (newID : String) (now : Int)
  | updateUserProfile (oldUsername newUsername : String) (nickname : Option String) (permissions : Option (List String))
      (changedAt : Int) (newID : String) (now : Int)

namespace RenameCall

/-- The names that the call reads in its arguments. -/
def names (text : Text) : RenameCall → String × String
  | renameToken oldName newName .. | updateUserProfile oldName newName .. =>
    (text.toLower (sanitized text.toText oldName maxTokenNameLen),
      text.toLower (sanitized text.toText newName maxTokenNameLen))

def oldName (text : Text) (call : RenameCall) : String := (call.names text).1

def newName (text : Text) (call : RenameCall) : String := (call.names text).2

section Run
variable (clickHouse : Bool) (refused : TableName × Column → Bool) (text : Text)

def run (s : Store) : RenameCall → Except AccountError Store
  | renameToken oldName newName token newID now => AccountTables.renameToken clickHouse refused text s oldName newName token
    newID now
  | updateUserProfile oldName newName nickname permissions changedAt newID now =>
    AccountTables.updateUserProfile clickHouse refused text s oldName newName nickname permissions changedAt newID now

/-- What the call leaves; a transaction that fails is rolled back. -/
def after (s : Store) (call : RenameCall) : Store :=
  match call.run clickHouse refused text s with
  | .ok s' => s'
  | .error _ => s

end Run

end RenameCall

/-! ### What an account has -/

section Rights
variable (text : Text) (s : Store)

def Store.memberRows (kind : Kind) : List MemberData :=
  match kind with
  | .maven => (s.rows .mavenDomainMembers).map (·.data)
  | .cargo => (s.rows .cargoMembers).map (·.data)
  | .docker => (s.rows .dockerMembers).map (·.data)
  | .npm => (s.rows .npmMembers).map (·.data)

/-- `role_level` of a user in a team. -/
def Store.superTeamRole (teamPrefix userID : String) : Option Int :=
  (s.superTeamMembers.find? fun m => m.teamPrefix = teamPrefix ∧ m.userID = userID).map (·.roleLevel)

/-- The level of a user's own row. -/
def Store.explicitLevel (kind : Kind) (key : Key) (userID : String) : Option Int :=
  ((s.memberRows kind).find? fun m => m.key = key ∧ m.userID = userID).map (·.permissionLevel)

def Store.image (key : Key) : Option (Row .dockerImages) := (s.rows .dockerImages).find? fun r => r.data.key = key

/-- The team that a package is bound to; `none` without the package. -/
def Store.boundTeam (kind : Kind) (key : Key) : Option String :=
  if kind = .docker then (s.image key).map (·.data.superTeamPrefix) else s.binding kind key

/-- `mavenDomainEffectivePermissionTx`, `cargoEffectivePermissionTx`, `dockerEffectivePermissionTx` and
`npmEffectivePermissionTx` -/
def Store.effectivePermission (kind : Kind) (key : Key) (userID : String) : Option (Int × Bool) :=
  (s.boundTeam kind key).map fun team => effectiveBoundPermission (s.explicitLevel kind key userID)
    (s.superTeamRole team userID)

def dockerPermissionFull : Int := 4

/-- `GetDockerMemberLevel` for the user of that id and name. -/
def Store.dockerMemberLevel (key : Key) (p : Profile) : Int :=
  match s.image key, s.effectivePermission .docker key p.userID with
  | some image, some permission =>
    if permission.2 = false ∧ text.equalFold (image.names .publisher) p.username = true then dockerPermissionFull else
      permission.1
  | _, _ => 0

/-- Whose name it is. -/
inductive Holder
  | account (userID : String)
  | stray (name : String)
deriving DecidableEq, Repr

def Store.holder (name : String) : Holder :=
  match profileByName s.toAccountDB name with
  | some p => .account p.userID
  | none => .stray name

/-- A row with user ids in place of the names. -/
def Store.identify {t : TableName} (r : Row t) : List Holder × Data t :=
    ((columns t).map fun c => s.holder (r.names c), r.data)

/-- `RequestedBy` of a review task. -/
def Store.requestedBy (task : Row .reviewTasks) : String :=
  ((s.profiles.find? task.data.requestedByID).map (·.username)).getD (task.names .requestedByName)

/-- The comparison of publisher and requester in `cargoReviewPayload` and `validateNPMReviewPayload`. -/
def Store.publisherMatches (task : Row .reviewTasks) : Bool :=
  ((s.rows .reviewTaskPayloads).find? fun p => p.data = task.data.id).all fun p =>
    text.equalFold (p.names .publisher) (s.requestedBy task)

end Rights

end Renop.AccountTables
