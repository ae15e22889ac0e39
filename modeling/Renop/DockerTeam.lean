import Renop.Accounts
import Renop.Docker
import Renop.Roster

/-!
# Teams of Docker images

The images, members and invitations of `docker.go`, with the calls that create images, cache images of a mirror, read
the members, invite, add, change levels and remove. The owner of an image is kept twice: as the row of level L4 in
`docker_members`, by user id, and in the column `publisher` of the image, by name.

Two calls insert a row because of that column alone: reading the members (`listDockerMembers`), and inviting.

New profiles and messages get random ids. They are parameters, a function of the username they are for.
-/

namespace Renop.DockerTeam

open Sql
open Renop.Accounts
open Renop.SuperTeam (Text)
open Renop.Cargo (Key UserMessage sanitized maxTokenNameLen messageActionPending messageActionAccepted
  messageActionRejected messageActionCancelled)
open Renop.Docker (sanitizeDockerKey sanitizeDockerUsername)

/-! ### The tables -/

/-- A row of `docker_images`. -/
structure DockerImage where
  repository : String
  imageName : String
  publisher : String
  superTeamPrefix : String
  isPrivate : Bool
  pushEnabled : Bool
  createdAt : Int
deriving DecidableEq, Repr

def DockerImage.key (i : DockerImage) : Key := (i.repository, i.imageName)

structure DockerMember where
  repository : String
  imageName : String
  username : String
  userID : String
  permissionLevel : Int
  addedAt : Int
deriving DecidableEq, Repr

def DockerMember.key (m : DockerMember) : Key := (m.repository, m.imageName)

def memberFields : Roster.Fields DockerMember Key String where
  team := DockerMember.key
  user := DockerMember.userID
  level := DockerMember.permissionLevel
  setLevel l m := { m with permissionLevel := l }
  team_setLevel _ _ := rfl
  user_setLevel _ _ := rfl
  level_setLevel _ _ := rfl

structure DockerInvitation where
  id : String
  repository : String
  imageName : String
  inviter : String
  recipient : String
  level : Int
  createdAt : Int
deriving DecidableEq, Repr

def DockerInvitation.key (i : DockerInvitation) : Key := (i.repository, i.imageName)

inductive TeamError
  | imageNotFound
  | imageExists
  | invalidName
  | permissionDenied
  | memberExists
  | invitationExists
  | invitationInvalid
  | lastFullMember
  | ownerCannotLeave
  | bindingMismatch
  | bindingRequired
  | bindingPermission
  | resourceLocked
  /-- `core.ErrDockerManifestInvalid`, and what else refuses a manifest. -/
  | manifestInvalid
  | account (e : AccountError)
  /-- An error made by `errors.New`. -/
  | invalid (reason : String)
  /-- A statement failed. -/
  | database
deriving DecidableEq, Repr

structure DB extends AccountDB where
  images : Table DockerImage.key
  members : Table memberFields.key
  invitations : Table DockerInvitation.id
  messages : Table UserMessage.id
  /-- `role_level` in `super_team_members`, by team prefix and user id. -/
  superTeamRole : String → String → Option Int
  /-- What `ensureResourceMutableQuery` answers for an image; with `true` it asks for its versions as well. -/
  resourceLock : Key → Bool → Option TeamError

/-! ### Permissions -/

def dockerPermissionRead : Int := 0

def dockerPermissionTeam : Int := 3

def dockerPermissionOwner : Int := 4

/-- `core.DockerPermissionFull`, the same level. -/
def dockerPermissionFull : Int := 4

section Rows
variable (db : DB)

/-- The level of a user's own row. -/
def DB.level? (key : Key) (userID : String) : Option Int := Roster.level? db.members key userID

def ensureResourceMutable (key : Key) (allVersions : Bool) : Except TeamError Unit :=
  match db.resourceLock key allVersions with
  | some e => .error e
  | none => pure ()

def dockerEffectivePermission (key : Key) (userID : String) : Except TeamError (Int × Bool) := do
  require (userID ≠ "") .permissionDenied
  let image ← orError (db.images.find? key) .imageNotFound
  pure (effectiveBoundPermission (db.level? key userID) (db.superTeamRole image.superTeamPrefix userID))

def requireDockerMemberPermission (key : Key) (userID : String) (required : Int) : Except TeamError Unit := do
  let permission ← (dockerEffectivePermission db key userID).mapError fun
    | .imageNotFound => .permissionDenied
    | e => e
  require (permission.2 = true ∧ required ≤ permission.1) .permissionDenied

def lockDockerImageRow (key : Key) : Except TeamError Unit := require (db.images.find? key ≠ none) .imageNotFound

def lockDockerImageTeam (key : Key) : Except TeamError Unit := do
  lockDockerImageRow db key
  ensureResourceMutable db key false

def requireAnotherFullDockerMember (key : Key) (excludedUserID : String) : Except TeamError Unit :=
  require (∃ m ∈ db.members.rows, m.key = key ∧ m.permissionLevel = dockerPermissionOwner ∧
    m.userID ≠ excludedUserID)
    .lastFullMember

/-! ### Statements -/

/-- `INSERT INTO docker_members`; the primary key has the username, a unique index the user id. -/
def DB.insertMember (m : DockerMember) : Except TeamError DB := do
  require (∀ other ∈ db.members.rows, other.key = m.key → other.username ≠ m.username) .database
  let members ← db.members.insert m .database
  pure { db with members := members }

/-- `UPDATE docker_members SET permission_level = ? WHERE …` -/
def DB.setLevels (p : DockerMember → Bool) (level : Int) : DB := { db with members := Roster.setLevels db.members p level }

/-- Who has L4, but for some users, becomes a manager of the team. -/
def DB.demoteOwners (key : Key) (p : String → Bool) : DB :=
  db.setLevels (fun m => m.key = key && m.permissionLevel = dockerPermissionOwner && p m.userID) dockerPermissionTeam

def DB.deleteMembers (p : DockerMember → Bool) : DB := { db with members := db.members.delete p }

/-- `UPDATE docker_images SET publisher = ? WHERE repository = ? AND image_name = ?` -/
def DB.setPublisher (key : Key) (publisher : String) : DB :=
  let images := db.images.update (fun i => if i.key = key then { i with publisher := publisher } else i)
    fun i => by split <;> rfl
  { db with images := images }

/-- `INSERT INTO docker_invitations`; an image has one invitation for each recipient. -/
def DB.insertInvitation (i : DockerInvitation) : Except TeamError DB := do
  require (∀ other ∈ db.invitations.rows, other.key = i.key → other.recipient ≠ i.recipient) .database
  let invitations ← db.invitations.insert i .database
  pure { db with invitations := invitations }

def DB.insertMessage (m : UserMessage) : Except TeamError DB := do
  require (m.dedupeKey = "" ∨ ∀ other ∈ db.messages.rows, other.recipient = m.recipient →
    other.dedupeKey ≠ m.dedupeKey)
    .database
  let messages ← db.messages.insert m .database
  pure { db with messages := messages }

def DB.updateMessages (p : UserMessage → Bool) (status : String) (actedAt : Int) (read : Bool) : DB :=
  let messages := db.messages.update
    (fun m => if p m then
      { m with
        actionStatus := status, actedAt := actedAt, readAt := if read ∧ m.readAt = 0 then actedAt else m.readAt }
      else m) fun m => by split <;> rfl
  { db with messages := messages }

def DB.deleteMessages (p : UserMessage → Bool) : DB := { db with messages := db.messages.delete p }

def cancelDockerInvitations (p : DockerInvitation → Bool) (actedAt : Int) : DB :=
  let cancelled := (db.invitations.rows.filter p).map fun i => (i.id, i.recipient)
  let db := db.updateMessages (fun m => (m.id, m.recipient) ∈ cancelled && m.actionKind = "docker_image_invite" &&
    m.actionStatus = messageActionPending) messageActionCancelled actedAt false
  { db with invitations := db.invitations.delete p }

end Rows

section Calls
variable (text : Text)

def insertAcceptedMembershipMessage (db : DB) (id recipient sender actionKind title body payload : String) (now : Int) :
    Except TeamError DB :=
  if accountDeletedByUsername text db.toAccountDB recipient then
    pure db
  else
    db.insertMessage ⟨id, recipient, sender, actionKind, "info", title, body, payload, actionKind,
      messageActionAccepted, now, 0, now, now + 7 * 24 * 3600 * 1000, ""⟩

def insertTeamRemovalMessage (db : DB) (id recipient format : String) (key : Key) (now : Int) : Except TeamError DB :=
  if accountDeletedByUsername text db.toAccountDB recipient then
    pure db
  else
    let target := if key.1 ≠ "" then key.1 ++ " - " ++ key.2 else key.2
    db.insertMessage ⟨id, recipient, "", "package_team_removed", "warning", "Team membership removed",
      "You were removed from " ++ target ++ ".",
      text.marshal [("format", .inl format), ("repository", .inl key.1), ("package", .inl key.2)],
      "", "", now, 0, 0, 0, ""⟩

/-- `ensureUserProfile` runs before the transactions of the calls. -/
def ensureProfile (db : DB) (username newID : String) : Except AccountError (String × DB) := do
  let (userID, accounts) ← ensureUserProfile text db.toAccountDB username newID
  pure (userID, { db with toAccountDB := accounts })

/-- The ids of usernames; a profile that is missing is created. -/
def ensureProfiles (newID : String → String) : DB → List String → Except AccountError (List (String × String) × DB)
  | db, [] => pure ([], db)
  | db, username :: rest => do
    let (userID, db) ← ensureProfile text db username (newID username)
    let (ids, db) ← ensureProfiles newID db rest
    pure ((username, userID) :: ids, db)

def lockAccount (db : DB) (userID : String) : Except TeamError Unit :=
  (lockAccountLoginMethods db.toAccountDB userID).mapError .account

/-! ### Creating an image -/

/-- `requireSuperTeamRoleTx`, without the lock of the team. -/
def requireSuperTeamRole (db : DB) (superTeamPrefix userID : String) (required : Int) : Except TeamError Unit :=
  if superTeamPrefix = "" then pure ()
  else require ((db.superTeamRole superTeamPrefix userID).any (required ≤ ·) = true) .bindingPermission

def createDockerImageTx (db : DB) (key : Key) (owner ownerID superTeamPrefix : String) (isPrivate : Bool)
    (createdAt requiredTeamRole : Int) : Except TeamError DB := do
  ensureResourceMutable db key false
  lockAccount db ownerID
  requireSuperTeamRole db superTeamPrefix ownerID requiredTeamRole
  require (db.images.find? key = none) .imageExists
  let images ← db.images.insert ⟨key.1, key.2, owner, superTeamPrefix, isPrivate, true, createdAt⟩ .database
  DB.insertMember { db with images := images } ⟨key.1, key.2, owner, ownerID, dockerPermissionOwner, createdAt⟩

/-- `core.DockerImageSuperTeamPrefix` -/
def dockerImageSuperTeamPrefix (imageName : String) : Option String :=
  let imageName := text.toLower (Docker.trimSlash (text.trimSpace imageName))
  match Docker.cut ['/'] imageName.toList with
  | none | some ([], _) => none
  | some (namespaceName, _) => SuperTeam.normalizeSuperTeamPrefix text (String.ofList namespaceName)

def normalizeOptionalSuperTeamPrefix (superTeamPrefix : String) : Except TeamError String :=
  if superTeamPrefix = "" then pure ""
  else orError (SuperTeam.sanitizeSuperTeamPrefix text superTeamPrefix) .bindingMismatch

/-- A name with a namespace needs the global team of that name. -/
def requireNamespace (imageName superTeamPrefix : String) : Except TeamError Unit :=
  match dockerImageSuperTeamPrefix text imageName with
  | none => require ('/' ∉ imageName.toList) .bindingMismatch
  | some required => do
    require (superTeamPrefix ≠ "") .bindingRequired
    require (required = superTeamPrefix) .bindingMismatch

/-- `CreateDockerImage`, and `CreateDockerImageForTeam`, which enforces the namespace. -/
def createDockerImage (db : DB) (repository imageName owner superTeamPrefix : String) (isPrivate : Bool) (createdAt : Int)
    (enforceNamespace : Bool) (newID : String) : Except TeamError DB := do
  let key := sanitizeDockerKey text repository imageName
  let owner := sanitizeDockerUsername text owner
  let superTeamPrefix ← normalizeOptionalSuperTeamPrefix text superTeamPrefix
  cond enforceNamespace (requireNamespace text key.2 superTeamPrefix) (pure ())
  require (key.1 ≠ "" ∧ key.2 ≠ "" ∧ owner ≠ "" ∧ owner ≠ "guest" ∧ 0 < createdAt) .invalidName
  let (ownerID, db) ← (ensureProfile text db owner newID).mapError fun _ => .permissionDenied
  createDockerImageTx db key owner ownerID superTeamPrefix isPrivate createdAt SuperTeam.superTeamRoleManage

/-- The image of `putDockerManifestTx`. `refused` is what its other statements answer: they are about the manifest, its
tag, blobs and locks. -/
def putDockerManifestImage (db : DB) (repository imageName username : String) (allowMirrorCreate : Bool) (now : Int)
    (refused : Option TeamError) : Except TeamError DB := do
  let key := sanitizeDockerKey text repository imageName
  let username := sanitizeDockerUsername text username
  require (key.1 ≠ "" ∧ key.2 ≠ "" ∧ username ≠ "" ∧ 0 < now) .manifestInvalid
  let db ← match db.images.find? key with
    | none => do
      require (allowMirrorCreate = true) .imageNotFound
      let images ← db.images.insert ⟨key.1, key.2, username, "", false, false, now⟩ .database
      pure { db with images := images }
    | some i => do
      require (¬ (allowMirrorCreate = true ∧ i.pushEnabled = true)) .imageExists
      require (allowMirrorCreate = true ∨ i.pushEnabled = true) .imageNotFound
      pure (if i.publisher = "" then db.setPublisher key username else db)
  match refused with
  | some e => .error e
  | none => pure db

def putDockerManifest (db : DB) (repository imageName username : String) (now : Int) (refused : Option TeamError) :
    Except TeamError DB :=
  putDockerManifestImage text db repository imageName username false now refused

/-- `CacheDockerManifest`: mirror caching may create an unowned public image. -/
def cacheDockerManifest (db : DB) (repository imageName : String) (now : Int) (refused : Option TeamError) :
    Except TeamError DB :=
  putDockerManifestImage text db repository imageName "mirror" true now refused

def deleteDockerImage (db : DB) (repository imageName : String) (now : Int) : Except TeamError DB := do
  let key := sanitizeDockerKey text repository imageName
  lockDockerImageRow db key
  ensureResourceMutable db key true
  let db := cancelDockerInvitations db (fun i => i.key = key) now
  let db := db.deleteMembers fun m => m.key = key
  pure { db with images := db.images.delete fun i => i.key = key }

/-- `DeleteDockerRepository`; `locked` is what `EnsureRepositoryResourcesMutable` answers. -/
def deleteDockerRepository (db : DB) (repository : String) (now : Int) (locked : Bool) : Except TeamError DB := do
  let repository := (sanitizeDockerKey text repository "").1
  require (locked = false) .resourceLocked
  let db := cancelDockerInvitations db (fun i => i.repository = repository) now
  let db := db.deleteMembers fun m => m.repository = repository
  pure { db with images := db.images.delete fun i => i.repository = repository }

/-! ### Reading -/

/-- A row of the list, under the name that its user has now. -/
def DB.named (db : DB) (m : DockerMember) : DockerMember :=
  { m with username := ((db.profiles.find? m.userID).map (·.username)).getD m.username }

def DB.membersOf (db : DB) (key : Key) : List DockerMember :=
  ((db.members.rows.filter fun m => m.key = key).map db.named).insertionSort fun m n =>
    n.permissionLevel < m.permissionLevel ∨ n.permissionLevel = m.permissionLevel ∧ m.username ≤ n.username

/-- The publisher of an image has no row under its name. -/
def DB.publisherMissing (db : DB) (key : Key) (publisher : String) : Bool :=
  publisher ≠ "" && (db.membersOf key).all fun m => m.username ≠ publisher

/-- The end of `ListDockerMembers`: a publisher who is no member becomes one, with L4. -/
def restorePublisher (db : DB) (key : Key) (publisher : String) (createdAt : Int) (members : List DockerMember)
    (newID : String) : Except TeamError (List DockerMember × DB) :=
  match ensureProfile text db publisher newID with
  | .error .accountDeleted => pure (members, db)
  | .error e => .error (.account e)
  | .ok (userID, db) =>
    match lockAccountLoginMethods db.toAccountDB userID with
    | .error .accountDeleted => pure (members, db)
    | .error e => .error (.account e)
    | .ok _ =>
      match db.level? key userID with
      | some level => pure (⟨key.1, key.2, publisher, userID, level, createdAt⟩ :: members, db)
      | none => do
        let db ← db.insertMember ⟨key.1, key.2, publisher, userID, dockerPermissionFull, createdAt⟩
        pure (⟨key.1, key.2, publisher, userID, dockerPermissionFull, createdAt⟩ :: members, db)

def listDockerMembers (db : DB) (repository imageName : String) (now : Int) (newID : String) :
    Except TeamError (List DockerMember × DB) :=
  let key := sanitizeDockerKey text repository imageName
  let members := db.membersOf key
  match db.images.find? key with
  | none => pure (members, db)
  | some image =>
    if db.publisherMissing key image.publisher then
      restorePublisher text db key image.publisher (if image.createdAt = 0 then now else image.createdAt) members newID
    else pure (members, db)

/-- `GetDockerImageDetailsForViewer` without the tags and manifests: the image, under the name of its L4 member, and its
members. -/
def getDockerImageDetailsForViewer (db : DB) (repository imageName : String) (now : Int) (newID : String) :
    Except TeamError (Option (DockerImage × List DockerMember) × DB) :=
  match db.images.find? (sanitizeDockerKey text repository imageName) with
  | none => pure (none, db)
  | some image => do
    let (members, db) ← listDockerMembers text db repository imageName now newID
    let publisher := ((members.find? fun m => m.permissionLevel = dockerPermissionOwner).map (·.username)).getD
      image.publisher
    pure (some ({ image with publisher := publisher }, members), db)

/-! ### Inviting -/

/-- The checks of the first loop of `CreateDockerInvitations`. -/
def normalizeInvitation (pair : DockerInvitation × UserMessage) : Except TeamError (DockerInvitation × UserMessage) := do
  let (i, message) := pair
  let key := sanitizeDockerKey text i.repository i.imageName
  let i := { i with
    repository := key.1, imageName := key.2
    inviter := sanitizeDockerUsername text i.inviter, recipient := sanitizeDockerUsername text i.recipient }
  require (dockerPermissionRead ≤ i.level ∧ i.level ≤ dockerPermissionOwner)
    (.invalid "docker invitation permission level is invalid")
  require (i.id ≠ "" ∧ i.id = message.id ∧ i.recipient = text.toLower (text.trimSpace message.recipient))
    (.invalid "docker invitation message does not match its workflow record")
  let message ← (Cargo.normalizeMessage text.toText message).mapError fun
    | .invalid reason => .invalid reason
    | _ => .database
  pure (i, message)

/-- Whether a stored invitation still stands: its message is pending and its inviter has a row that may invite. -/
def invitationStands (db : DB) (i : DockerInvitation) (createdAt : Int) : Bool :=
  let message := db.messages.rows.find? fun m => m.id = i.id && m.recipient = i.recipient
  let inviterLevel := (profileByName db.toAccountDB i.inviter).bind fun profile => db.level? i.key profile.userID
  (message.map (·.actionStatus)).getD "" = messageActionPending && (message.map (·.expiresAt)).getD 0 > createdAt &&
    inviterLevel.getD 0 ≥ dockerPermissionTeam

/-- The level that the inviter may give. A publisher who is no member becomes one, with L4. -/
def requireInviter (db : DB) (first : DockerInvitation) (inviterID : String) : Except TeamError (Int × DB) := do
  let permission ← dockerEffectivePermission db first.key inviterID
  if permission.2 = false then
    let image ← orError (db.images.find? first.key) .permissionDenied
    require (image.publisher ≠ "" ∧ image.publisher = first.inviter) .permissionDenied
    let addedAt := if image.createdAt = 0 then first.createdAt else image.createdAt
    let db ← db.insertMember ⟨first.repository, first.imageName, first.inviter, inviterID, dockerPermissionOwner,
      addedAt⟩
    pure (dockerPermissionOwner, db)
  else
    require (dockerPermissionTeam ≤ permission.1) .permissionDenied
    pure (permission.1, db)

/-- One round of the second loop. -/
def createDockerInvitation (first : DockerInvitation) (inviterLevel : Int) (recipientIDs : List (String × String)) (db : DB)
    (pair : DockerInvitation × UserMessage) : Except TeamError DB := do
  let (i, message) := pair
  require (i.key = first.key ∧ i.inviter = first.inviter) (.invalid "docker invitation batch targets multiple images")
  require (i.level ≠ dockerPermissionOwner ∨ dockerPermissionOwner ≤ inviterLevel) .permissionDenied
  let recipientID := (recipientIDs.lookup i.recipient).getD ""
  require (db.level? i.key recipientID = none) .memberExists
  let existing := db.invitations.rows.find? fun other => other.key = i.key && other.recipient = i.recipient
  require (∀ other ∈ existing, invitationStands db other i.createdAt = false) .invitationExists
  let db := if existing.isSome then
      cancelDockerInvitations db (fun other => other.key = i.key && other.recipient = i.recipient) i.createdAt
    else db
  let db ← db.insertMessage message
  db.insertInvitation i

def createDockerInvitations (db : DB) (invitations : List (DockerInvitation × UserMessage)) (newID : String → String) :
    Except TeamError DB := do
  require (invitations ≠ [] ∧ invitations.length ≤ 20) (.invalid "docker invitation is missing")
  let invitations ← invitations.mapM (normalizeInvitation text)
  let (first, _) ← orError invitations.head? (.invalid "docker invitation is missing")
  let (inviterID, db) ← (ensureProfile text db first.inviter (newID first.inviter)).mapError fun _ => .permissionDenied
  let (recipientIDs, db) ← (ensureProfiles text newID db (invitations.map (·.1.recipient))).mapError fun _ =>
    .permissionDenied
  (inviterID :: recipientIDs.map Prod.snd).forM (lockAccount db)
  lockDockerImageTeam db first.key
  let (inviterLevel, db) ← requireInviter db first inviterID
  invitations.foldlM (createDockerInvitation first inviterLevel recipientIDs) db

/-- The `if accept` of `RespondDockerInvitation`. -/
def acceptDockerInvitation (db : DB) (i : DockerInvitation) (recipient : String) (actedAt : Int) : Except TeamError DB := do
  let inviterID ← (userIDForUsernameTx text db.toAccountDB i.inviter).mapError fun _ => .invitationInvalid
  let recipientID ← (userIDForUsernameTx text db.toAccountDB recipient).mapError fun _ => .invitationInvalid
  lockAccount db recipientID
  let permission ← dockerEffectivePermission db i.key inviterID
  require (permission.2 = true ∧ dockerPermissionTeam ≤ permission.1) .invitationInvalid
  require (i.level ≠ dockerPermissionOwner ∨ dockerPermissionOwner ≤ permission.1) .invitationInvalid
  require (db.level? i.key recipientID = none) .memberExists
  let db := if i.level = dockerPermissionOwner then
      (db.demoteOwners i.key (· ≠ recipientID)).setPublisher i.key recipient
    else db
  db.insertMember ⟨i.repository, i.imageName, recipient, recipientID, i.level, actedAt⟩

/-- The message of an invitation that can still be answered. -/
def answerable (id recipient : String) (actedAt : Int) (m : UserMessage) : Bool :=
  m.id = id && m.recipient = recipient && m.actionKind = "docker_image_invite" &&
    m.actionStatus = messageActionPending && (m.expiresAt = 0 || m.expiresAt > actedAt)

/-- The invitation that an answer is about. -/
def findInvitation (db : DB) (id recipient repository : String) : Option DockerInvitation :=
  db.invitations.rows.find? fun i => i.id = sanitized text.toText id 64 &&
    i.recipient = sanitizeDockerUsername text recipient && i.repository = (sanitizeDockerKey text repository "").1

def respondDockerInvitation (db : DB) (id recipient repository : String) (accept : Bool) (actedAt : Int) :
    Except TeamError DB := do
  let i ← orError (findInvitation text db id recipient repository) .invitationInvalid
  let id := sanitized text.toText id 64
  let recipient := sanitizeDockerUsername text recipient
  lockDockerImageTeam db i.key
  let db ← cond accept (acceptDockerInvitation text db i recipient actedAt) (pure db)
  require (db.messages.rows.countP (answerable id recipient actedAt) = 1) .invitationInvalid
  let db := db.updateMessages (answerable id recipient actedAt)
    (if accept then messageActionAccepted else messageActionRejected) actedAt true
  pure { db with invitations := db.invitations.delete fun i => i.id = id && i.recipient = recipient }

/-! ### Adding -/

/-- The first loop of `ForceAddDockerMembers`: distinct names and their ids. -/
def resolveMembers (newID : String → String) : DB → List String → List (String × String) →
    Except TeamError (List (String × String) × DB)
  | db, [], seen => pure (seen, db)
  | db, candidate :: rest, seen => do
    let username := sanitizeDockerUsername text candidate
    require (username ≠ "") (.invalid "docker member name is invalid")
    if username ∈ seen.map Prod.fst then
      resolveMembers newID db rest seen
    else
      let (userID, db) ← (ensureProfile text db username (newID username)).mapError fun _ => .account .profileNotFound
      resolveMembers newID db rest (seen ++ [(username, userID)])

def checkAbsent (db : DB) (key : Key) (user : String × String) : Except TeamError Unit := do
  lockAccount db user.2
  require (db.level? key user.2 = none) .memberExists

/-- One round of the last loop. -/
def forceAddDockerMember (key : Key) (actor : String) (level now : Int) (messageID : String → String) (db : DB)
    (user : String × String) : Except TeamError DB := do
  let db ← db.insertMember ⟨key.1, key.2, user.1, user.2, level, now⟩
  let db := cancelDockerInvitations db (fun i => i.key = key && i.recipient = user.1) now
  insertAcceptedMembershipMessage text db (messageID user.1) user.1 actor "docker_image_invite"
    "Docker container image membership added"
    (actor ++ " added you to collaborate on " ++ key.2 ++ " with L" ++ toString level ++ " permission.")
    (text.marshal [("repository", .inl key.1), ("image", .inl key.2), ("inviter", .inl actor), ("level", .inr level)]) now

def forceAddDockerMembers (db : DB) (repository imageName actor : String) (usernames : List String) (level now : Int)
    (newID messageID : String → String) : Except TeamError DB := do
  require (usernames ≠ [] ∧ usernames.length ≤ 20) (.invalid "docker member addition batch is invalid")
  require (dockerPermissionRead ≤ level ∧ level ≤ dockerPermissionOwner) (.invalid "docker permission level is invalid")
  let key := sanitizeDockerKey text repository imageName
  let actor := sanitizeDockerUsername text actor
  let (users, db) ← resolveMembers text newID db usernames []
  require (users ≠ [] ∧ (level ≠ dockerPermissionOwner ∨ users.length = 1))
    (.invalid "docker L4 ownership can only be assigned to one member at a time")
  lockDockerImageTeam db key
  users.forM (checkAbsent db key)
  let db := if level = dockerPermissionOwner then
      (db.demoteOwners key fun _ => true).setPublisher key ((users.head?.map Prod.fst).getD "")
    else db
  users.foldlM (forceAddDockerMember text key actor level now messageID) db

/-! ### Changing a level -/

/-- The id of the actor; the administrator form of a call has none. -/
def actorIDForUsername (db : DB) (actor : String) : Except TeamError String :=
  if actor ≠ "" then (userIDForUsername text db.toAccountDB actor).mapError fun _ => .permissionDenied else pure ""

/-- The effective level of the actor, who must be a manager of the team. -/
def requireActor (db : DB) (key : Key) (actor actorID : String) : Except TeamError Int :=
  if actor ≠ "" then do
    requireDockerMemberPermission db key actorID dockerPermissionTeam
    let permission ← dockerEffectivePermission db key actorID
    require (permission.2 = true) .permissionDenied
    pure permission.1
  else pure 0

/-- The last owner is not demoted. -/
def requireOwnerLeft (db : DB) (key : Key) (targetID : String) (current level : Int) : Except TeamError Unit :=
  if current = dockerPermissionOwner ∧ level < dockerPermissionOwner then requireAnotherFullDockerMember db key targetID
  else pure ()

/-- A new owner takes L4 from the old one: an actor exchanges levels with the target, and the administrator form demotes
whoever has L4. -/
def exchangeOwner (db : DB) (key : Key) (actor username actorID targetID : String) (actorLevel current level : Int) :
    Except TeamError DB :=
  if level = dockerPermissionOwner ∧ current ≠ dockerPermissionOwner then
    if actor ≠ "" then do
      require (actorLevel = dockerPermissionOwner ∧ actor ≠ username) .permissionDenied
      pure ((db.setLevels (fun m => m.key = key && m.userID = actorID) current).setPublisher key username)
    else pure ((db.demoteOwners key (· ≠ targetID)).setPublisher key username)
  else pure db

def setDockerMemberLevel (db : DB) (repository imageName actor username : String) (level : Int) : Except TeamError DB := do
  require (dockerPermissionRead ≤ level ∧ level ≤ dockerPermissionOwner) (.invalid "docker permission level is invalid")
  let key := sanitizeDockerKey text repository imageName
  let actor := sanitizeDockerUsername text actor
  let username := sanitizeDockerUsername text username
  let targetID ← (userIDForUsername text db.toAccountDB username).mapError fun _ => .imageNotFound
  let actorID ← actorIDForUsername text db actor
  lockAccount db targetID
  lockDockerImageTeam db key
  let actorLevel ← requireActor db key actor actorID
  let current ← orError (db.level? key targetID) .imageNotFound
  requireOwnerLeft db key targetID current level
  let db ← exchangeOwner db key actor username actorID targetID actorLevel current level
  pure (db.setLevels (fun m => m.key = key && m.userID = targetID) level)

/-! ### Removing -/

/-- The first loop of `removeTeamMembers`: distinct names and their ids. -/
def resolveRemoved (db : DB) : List String → List (String × String) → Except TeamError (List (String × String))
  | [], seen => pure seen
  | candidate :: rest, seen => do
    let username := sanitizeDockerUsername text candidate
    require (username ≠ "") (.invalid "docker member name is invalid")
    if username ∈ seen.map Prod.fst then
      resolveRemoved db rest seen
    else
      let userID ← (userIDForUsername text db.toAccountDB username).mapError fun _ => .imageNotFound
      resolveRemoved db rest (seen ++ [(username, userID)])

/-- What the actor of a removal may remove; the administrator form has no actor. -/
def checkRemover (db : DB) (key : Key) (actor actorID : String) (users : List (String × String)) : Except TeamError Unit :=
  if actor ≠ "" then do
    let permission ← dockerEffectivePermission db key actorID
    require (permission.2 = true) .permissionDenied
    users.forM fun user => do
      require (user.1 = actor ∨ dockerPermissionTeam ≤ permission.1) .permissionDenied
      require (user.1 ≠ actor ∨ permission.1 ≠ dockerPermissionOwner) .ownerCannotLeave
  else pure ()

def removeDockerMember (key : Key) (actor : String) (now : Int) (messageID : String → String) (db : DB)
    (user : String × String) : Except TeamError DB := do
  let db := db.deleteMembers fun m => m.key = key && m.userID = user.2
  if actor = "" ∨ user.1 ≠ actor then insertTeamRemovalMessage text db (messageID user.1) user.1 "docker" key now
  else pure db

/-- `removeTeamMembers` with `dockerTeamRemovalSpec`. -/
def removeDockerMembers (db : DB) (repository imageName actor : String) (usernames : List String) (now : Int)
    (messageID : String → String) : Except TeamError DB := do
  let key := sanitizeDockerKey text repository imageName
  let actor := sanitizeDockerUsername text actor
  require (usernames ≠ [] ∧ usernames.length ≤ 20) (.invalid "docker member removal batch is invalid")
  let users ← resolveRemoved text db usernames []
  let actorID ← actorIDForUsername text db actor
  lockDockerImageTeam db key
  checkRemover db key actor actorID users
  let levels ← users.mapM fun user => orError (db.level? key user.2) .imageNotFound
  let ownersRemoved := levels.count dockerPermissionOwner
  let ownerCount := db.members.rows.countP fun m => m.key = key && m.permissionLevel = dockerPermissionOwner
  require (ownersRemoved = 0 ∨ ownersRemoved < ownerCount) .lastFullMember
  users.foldlM (removeDockerMember text key actor now messageID) db

/-! ### Accounts -/

/-- The rows about Docker that `renameTokenInTx` changes. -/
def renameDocker (db : DB) (oldName newName : String) : DB :=
  let rename (name : String) : String := if name = oldName then newName else name
  { db with
    images := db.images.update (fun i => { i with publisher := rename i.publisher })
      fun i => show ({ i with publisher := rename i.publisher } : DockerImage).key = i.key from rfl
    members := db.members.update (fun m => { m with username := rename m.username })
      fun m => show memberFields.key { m with username := rename m.username } = memberFields.key m from rfl
    invitations := db.invitations.update
      (fun i => { i with inviter := rename i.inviter, recipient := rename i.recipient }) fun _ => rfl
    messages := db.messages.update (fun m => { m with sender := rename m.sender, recipient := rename m.recipient }) fun _ =>
      rfl }

/-- `RenameToken`; `token` is what the caller loaded, and `refused` what the statements about other tables answer. -/
def renameToken (db : DB) (oldName newName : String) (token : Token) (newID : String) (now : Int)
    (refused : Option AccountError) : Except TeamError DB := do
  let lowerOld := text.toLower (sanitized text.toText oldName maxTokenNameLen)
  let lowerNew := text.toLower (sanitized text.toText newName maxTokenNameLen)
  require (lowerOld ≠ "" ∧ lowerNew ≠ "") (.invalid "token name is invalid")
  require (token.deletedAt ≤ 0) (.account .accountDeleted)
  if lowerOld = lowerNew then
    let accounts ← (saveToken text db.toAccountDB { token with name := lowerNew } newID now).mapError .account
    pure { db with toAccountDB := accounts }
  else
    let accounts ← (renameAccount text db.toAccountDB lowerOld lowerNew now).mapError .account
    require (refused = none) (.account (refused.getD .database))
    -- the statements run over all tables; a username or recipient that is taken fails them
    require (∀ m ∈ db.members.rows, m.username = lowerOld → ∀ n ∈ db.members.rows, n.key = m.key →
      n.username ≠ lowerNew)
      .database
    require (∀ i ∈ db.invitations.rows, i.recipient = lowerOld → ∀ j ∈ db.invitations.rows, j.key = i.key →
      j.recipient ≠ lowerNew) .database
    pure { renameDocker db lowerOld lowerNew with toAccountDB := accounts }

/-- The level of the only owner of an image. -/
def soleOwner (db : DB) (userID : String) : Bool :=
  db.members.rows.any fun m => m.userID = userID && m.permissionLevel = dockerPermissionOwner &&
    db.members.rows.all fun other =>
      !(other.key = m.key && other.permissionLevel = dockerPermissionOwner && other.userID ≠ userID)

/-- `deleteToken`, for `DeleteToken` and `RetireAccount`. `refused` is what the tables of other formats answer, and the
plan of a retirement. -/
def deleteToken (db : DB) (name : String) (retire : Bool) (retiredAt now : Int) (refused : Option AccountError) :
    Except TeamError DB := do
  let lowerName := text.toLower (sanitized text.toText name maxTokenNameLen)
  require (retire = false ∨ 0 < retiredAt) (.account .retirementBusy)
  if lowerName = "" then pure db
  else
    let (profile, token) ← (currentAccount db.toAccountDB lowerName).mapError .account
    require (refused = none) (.account (refused.getD .database))
    require (retire = true ∨ soleOwner db profile.userID = false) (.invalid "user is the last L4 member of Docker images")
    -- `WHERE name = ? AND deleted_at = 0` changes one row
    require (retire = false ∨ token.deletedAt = 0) (.account .accountDeleted)
    let actedAt := if retire then retiredAt else now
    let db := cancelDockerInvitations db (fun i => i.recipient = lowerName || i.inviter = lowerName) actedAt
    let db := db.deleteMembers fun m => m.userID = profile.userID
    let db := db.deleteMessages fun m => m.recipient = lowerName
    pure { db with
      toAccountDB := dropAccount db.toAccountDB lowerName retire retiredAt
      superTeamRole := fun team userID => if userID = profile.userID then none else db.superTeamRole team userID }

end Calls

end Renop.DockerTeam
