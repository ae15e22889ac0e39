import Renop.Cargo

/-!
# Cargo package teams

Invitations, additions, level changes and removals of `cargo.go`, and `removeTeamMembers` of `team.go` with
the settings of Cargo. A package has at most one member of level L4, its owner; the others have levels L1
to L3, and a global team that the package is bound to gives its members a level without a row.

New profiles and messages get random ids. They are parameters, a function of the username they are for.
-/

namespace Renop.Cargo

open Sql

def messageActionPending : String := "pending"

def messageActionAccepted : String := "accepted"

def messageActionRejected : String := "rejected"

def messageActionCancelled : String := "cancelled"

/-! ### Messages -/

def DB.insertMessage (db : DB) (m : UserMessage) : Except CargoError DB := do
  require (m.dedupeKey = "" ∨ ∀ other ∈ db.messages.rows, other.recipient = m.recipient →
    other.dedupeKey ≠ m.dedupeKey)
    .database
  let messages ← db.messages.insert m .database
  pure { db with messages := messages }

def UserMessage.act (m : UserMessage) (status : String) (actedAt : Int) : UserMessage :=
  { m with actionStatus := status, actedAt := actedAt, readAt := if m.readAt = 0 then actedAt else m.readAt }

theorem id_act (p : UserMessage → Bool) (status : String) (actedAt : Int) (m : UserMessage) :
    (if p m then m.act status actedAt else m).id = m.id := by
  split <;> rfl

def DB.updateMessages (db : DB) (p : UserMessage → Bool) (status : String) (actedAt : Int) : DB :=
  let messages := db.messages.update (fun m => if p m then m.act status actedAt else m) (id_act p status actedAt)
  { db with messages := messages }

section Messages
variable (text : Text)

def normalizeMessage (m : UserMessage) : Except CargoError UserMessage := do
  let lowered (s : String) (maxLen : Nat) := text.toLower (sanitized text s maxLen)
  let m := { m with
    id := sanitized text m.id 64, recipient := lowered m.recipient maxTokenNameLen
    sender := lowered m.sender maxTokenNameLen, kind := lowered m.kind 64, severity := lowered m.severity 16
    title := sanitized text m.title 240, body := sanitized text m.body 8000, actionKind := lowered m.actionKind 64
    actionStatus := lowered m.actionStatus 16, dedupeKey := sanitized text m.dedupeKey 255 }
  require (m.id ≠ "" ∧ m.recipient ≠ "" ∧ m.kind ≠ "" ∧ m.title ≠ "" ∧ 0 < m.createdAt)
    (.invalid "message is missing required fields")
  let m := { m with severity := if m.severity = "" then "info" else m.severity }
  require (m.severity ∈ ["info", "success", "warning", "error"]) (.invalid "invalid message severity")
  let m := { m with payload := if m.payload = "" then "\x7b\x7d" else m.payload }
  require (text.jsonValid m.payload = true) (.invalid "message payload is invalid JSON")
  let status := if m.actionKind = "" then "" else if m.actionStatus = "" then messageActionPending else m.actionStatus
  pure { m with actionStatus := status }

/-- Whether `lockAccountByUsernameTx` says that the account is deleted. -/
def accountDeletedByUsername (db : DB) (username : String) : Bool :=
  match db.profileByName (text.toLower username) with
  | some profile => lockAccountLoginMethods db profile.userID = .error .accountDeleted
  | none => false

def insertAcceptedMembershipMessage (db : DB) (id recipient sender actionKind title body payload : String) (now : Int) :
    Except CargoError DB :=
  if accountDeletedByUsername text db recipient then
    pure db
  else
    db.insertMessage ⟨id, recipient, sender, actionKind, "info", title, body, payload, actionKind,
      messageActionAccepted, now, 0, now, now + 7 * 24 * 3600 * 1000, ""⟩

def insertTeamRemovalMessage (db : DB) (id recipient format : String) (key : Key) (now : Int) : Except CargoError DB :=
  if accountDeletedByUsername text db recipient then
    pure db
  else
    let target := if key.1 ≠ "" then key.1 ++ " - " ++ key.2 else key.2
    db.insertMessage ⟨id, recipient, "", "package_team_removed", "warning", "Team membership removed",
      "You were removed from " ++ target ++ ".",
      text.marshal [("format", .inl format), ("repository", .inl key.1), ("package", .inl key.2)],
      "", "", now, 0, 0, 0, ""⟩

end Messages

/-! ### Members and invitations -/

/-- `UPDATE cargo_members SET permission_level = ? WHERE …` -/
def DB.setLevels (db : DB) (p : CargoMember → Bool) (level : Int) : DB :=
  let members := db.members.update (fun m => if p m then { m with permissionLevel := level } else m)
    fun m => by split <;> rfl
  { db with members := members }

def DB.deleteMembers (db : DB) (p : CargoMember → Bool) : DB := { db with members := db.members.delete p }

/-- `INSERT INTO cargo_invitations`; a package has one invitation for each recipient. -/
def DB.insertInvitation (db : DB) (i : CargoInvitation) : Except CargoError DB := do
  require (∀ other ∈ db.invitations.rows, other.key = i.key → other.recipient ≠ i.recipient) .database
  let invitations ← db.invitations.insert i .database
  pure { db with invitations := invitations }

def cancelCargoInvitations (db : DB) (p : CargoInvitation → Bool) (actedAt : Int) : DB :=
  let ids := (db.invitations.rows.filter p).map (·.id)
  let db := db.updateMessages (fun m => m.id ∈ ids && m.actionStatus = messageActionPending)
    messageActionCancelled actedAt
  { db with invitations := db.invitations.delete p }

def lockCargoPackageTeam (db : DB) (key : Key) : Except CargoError Unit := do
  ensureResourceMutable db key ""
  require (db.packages.find? key ≠ none) .packageNotFound

def requireCargoMemberPermission (db : DB) (key : Key) (userID : String) (required : Int) : Except CargoError Unit := do
  require (userID ≠ "") .permissionDenied
  let permission ← (cargoEffectivePermission db key userID).mapError fun
    | .packageNotFound => .permissionDenied
    | e => e
  require (permission.2 = true ∧ required ≤ permission.1) .permissionDenied

def requireAnotherFullCargoMember (db : DB) (key : Key) (excludedUserID : String) : Except CargoError Unit :=
  require (∃ m ∈ db.members.rows, m.key = key ∧ m.permissionLevel = cargoPermissionOwner ∧
    m.userID ≠ excludedUserID)
    .lastFullMember

section Calls
variable (text : Text)

/-- The ids of usernames; a profile that is missing is created. -/
def ensureUserProfiles (newID : String → String) : DB → List String → Except CargoError (List (String × String) × DB)
  | db, [] => pure ([], db)
  | db, username :: rest => do
    let (userID, db) ← ensureUserProfile text db username (newID username)
    let (ids, db) ← ensureUserProfiles newID db rest
    pure ((username, userID) :: ids, db)

def lockAccounts (db : DB) : List String → Except CargoError Unit
  | [] => pure ()
  | userID :: rest => do
    lockAccountLoginMethods db userID
    lockAccounts db rest

/-! ### Inviting -/

/-- The checks of the first loop of `CreateCargoInvitations`. -/
def normalizeInvitation (pair : CargoInvitation × UserMessage) : Except CargoError (CargoInvitation × UserMessage) := do
  let (i, message) := pair
  let key := sanitizeCargoKey text i.repository i.normalizedName
  let i := { i with
    repository := key.1, normalizedName := key.2, package := sanitized text i.package 64
    inviter := sanitizeCargoUsername text i.inviter, recipient := sanitizeCargoUsername text i.recipient }
  require (cargoPermissionPublish ≤ i.level ∧ i.level ≤ cargoPermissionOwner)
    (.invalid "cargo invitation permission level is invalid")
  require (i.id ≠ "" ∧ i.id = message.id ∧ i.recipient = text.toLower (text.trimSpace message.recipient))
    (.invalid "cargo invitation message does not match its workflow record")
  let message ← normalizeMessage text message
  pure (i, message)

/-- Whether a stored invitation still stands: its message is pending and its inviter has a row that may invite. -/
def invitationStands (db : DB) (i : CargoInvitation) (createdAt : Int) : Bool :=
  let message := db.messages.rows.find? fun m => m.id = i.id && m.recipient = i.recipient
  let inviterLevel := ((db.profileByName i.inviter).bind fun profile => db.member? i.key profile.userID).map
    (·.permissionLevel)
  (message.map (·.actionStatus)).getD "" = messageActionPending && (message.map (·.expiresAt)).getD 0 > createdAt &&
    inviterLevel.getD 0 ≥ cargoPermissionManage

/-- One round of the second loop. -/
def createCargoInvitation (first : CargoInvitation) (inviterLevel : Int) (recipientIDs : List (String × String)) (db : DB)
    (pair : CargoInvitation × UserMessage) : Except CargoError DB := do
  let (i, message) := pair
  require (i.key = first.key ∧ i.inviter = first.inviter) (.invalid "cargo invitation batch targets multiple packages")
  require (i.level ≠ cargoPermissionOwner ∨ cargoPermissionOwner ≤ inviterLevel) .permissionDenied
  let recipientID := (recipientIDs.lookup i.recipient).getD ""
  require (db.member? i.key recipientID = none) .memberExists
  let existing := db.invitations.rows.find? fun other => other.key = i.key && other.recipient = i.recipient
  require (∀ other ∈ existing, invitationStands db other i.createdAt = false) .invitationExists
  let db := if existing.isSome then
      cancelCargoInvitations db (fun other => other.key = i.key && other.recipient = i.recipient) i.createdAt
    else db
  let db ← db.insertMessage message
  db.insertInvitation i

def createCargoInvitations (db : DB) (invitations : List (CargoInvitation × UserMessage)) (newID : String → String) :
    Except CargoError DB := do
  require (invitations ≠ [] ∧ invitations.length ≤ 20) (.invalid "cargo invitation is missing")
  let invitations ← invitations.mapM (normalizeInvitation text)
  let (first, _) ← orError invitations.head? (.invalid "cargo invitation is missing")
  let (inviterID, db) ← (ensureUserProfile text db first.inviter (newID first.inviter)).mapError fun _ => .permissionDenied
  let (recipientIDs, db) ← (ensureUserProfiles text newID db (invitations.map (·.1.recipient))).mapError
    fun _ => .permissionDenied
  lockAccounts db (inviterID :: recipientIDs.map Prod.snd)
  lockCargoPackageTeam db first.key
  let permission ← cargoEffectivePermission db first.key inviterID
  require (permission.2 = true ∧ cargoPermissionManage ≤ permission.1) .permissionDenied
  invitations.foldlM (createCargoInvitation first permission.1 recipientIDs) db

/-- The `if accept` of `RespondCargoInvitation`. -/
def acceptCargoInvitation (db : DB) (i : CargoInvitation) (recipient : String) (actedAt : Int) : Except CargoError DB := do
  let inviterID ← (userIDForUsernameTx text db i.inviter).mapError fun _ => .invitationInvalid
  let recipientID ← (userIDForUsernameTx text db recipient).mapError fun _ => .invitationInvalid
  lockAccountLoginMethods db recipientID
  let permission ← (cargoEffectivePermission db i.key inviterID).mapError fun _ => .invitationInvalid
  require (permission.2 = true ∧ cargoPermissionManage ≤ permission.1) .invitationInvalid
  require (i.level ≠ cargoPermissionOwner ∨ cargoPermissionOwner ≤ permission.1) .invitationInvalid
  require (db.member? i.key recipientID = none) .memberExists
  let db := if i.level = cargoPermissionOwner then
      db.setLevels (fun m => m.key = i.key && m.permissionLevel = cargoPermissionOwner && m.userID ≠ recipientID)
        cargoPermissionManage
    else db
  db.insertMember ⟨i.repository, i.normalizedName, recipient, recipientID, i.level, actedAt⟩

def respondCargoInvitation (db : DB) (id recipient repository : String) (accept : Bool) (actedAt : Int) :
    Except CargoError DB := do
  let id := sanitized text id 64
  let recipient := sanitizeCargoUsername text recipient
  let repository := (sanitizeCargoKey text repository "").1
  let i ← orError (db.invitations.rows.find? fun i => i.id = id && i.recipient = recipient && i.repository = repository)
    .invitationInvalid
  lockCargoPackageTeam db i.key
  let db ← cond accept (acceptCargoInvitation text db i recipient actedAt) (pure db)
  let pending (m : UserMessage) : Bool :=
    m.id = id && m.recipient = recipient && m.actionKind = "cargo_package_invite" &&
      m.actionStatus = messageActionPending && (m.expiresAt = 0 || m.expiresAt > actedAt)
  require (db.messages.rows.countP pending = 1) .invitationInvalid
  let db := db.updateMessages pending (if accept then messageActionAccepted else messageActionRejected) actedAt
  pure { db with invitations := db.invitations.delete fun i => i.id = id && i.recipient = recipient }

/-! ### Adding -/

/-- The first loop of `ForceAddCargoMembers`: distinct names and their ids. -/
def resolveMembers (newID : String → String) : DB → List String → List (String × String) →
    Except CargoError (List (String × String) × DB)
  | db, [], seen => pure (seen, db)
  | db, candidate :: rest, seen => do
    let username := sanitizeCargoUsername text candidate
    require (username ≠ "") (.invalid "cargo member name is invalid")
    if username ∈ seen.map Prod.fst then
      resolveMembers newID db rest seen
    else
      let (userID, db) ← (ensureUserProfile text db username (newID username)).mapError fun _ => .profileNotFound
      resolveMembers newID db rest (seen ++ [(username, userID)])

def checkAbsent (db : DB) (key : Key) (user : String × String) : Except CargoError Unit := do
  lockAccountLoginMethods db user.2
  require (db.member? key user.2 = none) .memberExists

/-- One round of the last loop. -/
def forceAddCargoMember (key : Key) (packageName actor : String) (level now : Int) (messageID : String → String) (db : DB)
    (user : String × String) : Except CargoError DB := do
  let db ← db.insertMember ⟨key.1, key.2, user.1, user.2, level, now⟩
  let db := cancelCargoInvitations db (fun i => i.key = key && i.recipient = user.1) now
  insertAcceptedMembershipMessage text db (messageID user.1) user.1 actor "cargo_package_invite"
    "Cargo crate package membership added"
    (actor ++ " added you to collaborate on " ++ packageName ++ " with L" ++ toString level ++ " permission.")
    (text.marshal [("repository", .inl key.1), ("package", .inl packageName), ("inviter", .inl actor),
      ("level", .inr level)]) now

def forceAddCargoMembers (db : DB) (repository normalizedName packageName actor : String) (usernames : List String)
    (level now : Int) (newID messageID : String → String) : Except CargoError DB := do
  require (usernames ≠ [] ∧ usernames.length ≤ 20) (.invalid "cargo member addition batch is invalid")
  require (cargoPermissionPublish ≤ level ∧ level ≤ cargoPermissionOwner) (.invalid "cargo permission level is invalid")
  let key := sanitizeCargoKey text repository normalizedName
  let packageName := sanitized text packageName 64
  let actor := sanitizeCargoUsername text actor
  let (users, db) ← resolveMembers text newID db usernames []
  require (users ≠ [] ∧ (level ≠ cargoPermissionOwner ∨ users.length = 1))
    (.invalid "cargo L4 ownership can only be assigned to one member at a time")
  lockCargoPackageTeam db key
  users.forM (checkAbsent db key)
  let db := if level = cargoPermissionOwner then
      db.setLevels (fun m => m.key = key && m.permissionLevel = cargoPermissionOwner) cargoPermissionManage
    else db
  users.foldlM (forceAddCargoMember text key packageName actor level now messageID) db

/-! ### Changing a level -/

/-- The id of the actor; the administrator form of a call has none. -/
def actorIDForUsername (db : DB) (actor : String) : Except CargoError String :=
  if actor ≠ "" then (userIDForUsername text db actor).mapError fun _ => .permissionDenied else pure ""

/-- The effective level of the actor, who must be a manager. -/
def requireActor (db : DB) (key : Key) (actor actorID : String) : Except CargoError Int :=
  if actor ≠ "" then do
    requireCargoMemberPermission db key actorID cargoPermissionManage
    let permission ← (cargoEffectivePermission db key actorID).mapError fun _ => .permissionDenied
    require (permission.2 = true) .permissionDenied
    pure permission.1
  else pure 0

/-- The last owner is not demoted. -/
def requireOwnerLeft (db : DB) (key : Key) (targetID : String) (current level : Int) : Except CargoError Unit :=
  if current = cargoPermissionOwner ∧ level < cargoPermissionOwner then
    requireAnotherFullCargoMember db key targetID
  else pure ()

/-- A new owner takes L4 from the old one: an actor exchanges levels with the target, and the administrator form demotes
whoever has L4. -/
def exchangeOwner (db : DB) (key : Key) (actor username actorID targetID : String) (actorLevel current level : Int) :
    Except CargoError DB :=
  if level = cargoPermissionOwner ∧ current ≠ cargoPermissionOwner then
    if actor ≠ "" then do
      require (actorLevel = cargoPermissionOwner ∧ actor ≠ username) .permissionDenied
      pure (db.setLevels (fun m => m.key = key && m.userID = actorID) current)
    else
      pure (db.setLevels (fun m => m.key = key && m.permissionLevel = cargoPermissionOwner && m.userID ≠ targetID)
        cargoPermissionManage)
  else pure db

def setCargoMemberLevel (db : DB) (repository normalizedName actor username : String) (level : Int) :
    Except CargoError DB := do
  require (cargoPermissionPublish ≤ level ∧ level ≤ cargoPermissionOwner) (.invalid "cargo permission level is invalid")
  let key := sanitizeCargoKey text repository normalizedName
  let actor := sanitizeCargoUsername text actor
  let username := sanitizeCargoUsername text username
  let targetID ← (userIDForUsername text db username).mapError fun _ => .packageNotFound
  let actorID ← actorIDForUsername text db actor
  lockAccountLoginMethods db targetID
  lockCargoPackageTeam db key
  let actorLevel ← requireActor db key actor actorID
  let target ← orError (db.member? key targetID) .packageNotFound
  requireOwnerLeft db key targetID target.permissionLevel level
  let db ← exchangeOwner db key actor username actorID targetID actorLevel target.permissionLevel level
  pure (db.setLevels (fun m => m.key = key && m.userID = targetID) level)

/-! ### Removing -/

/-- The first loop of `removeTeamMembers`: distinct names and their ids. -/
def resolveRemoved (db : DB) : List String → List (String × String) → Except CargoError (List (String × String))
  | [], seen => pure seen
  | candidate :: rest, seen => do
    let username := sanitizeCargoUsername text candidate
    require (username ≠ "") (.invalid "cargo member name is invalid")
    if username ∈ seen.map Prod.fst then
      resolveRemoved db rest seen
    else
      let userID ← (userIDForUsername text db username).mapError fun _ => .packageNotFound
      resolveRemoved db rest (seen ++ [(username, userID)])

/-- What the actor of a removal may remove; the administrator form has no actor. -/
def checkRemover (db : DB) (key : Key) (actor actorID : String) (users : List (String × String)) :
    Except CargoError Unit :=
  if actor ≠ "" then do
    let permission ← cargoEffectivePermission db key actorID
    require (permission.2 = true) .permissionDenied
    users.forM fun user => do
      require (user.1 = actor ∨ cargoPermissionManage ≤ permission.1) .permissionDenied
      require (user.1 ≠ actor ∨ permission.1 ≠ cargoPermissionOwner) .ownerCannotLeave
  else pure ()

def removeCargoMember (key : Key) (actor : String) (now : Int) (messageID : String → String) (db : DB)
    (user : String × String) : Except CargoError DB := do
  let db := db.deleteMembers fun m => m.key = key && m.userID = user.2
  if actor = "" ∨ user.1 ≠ actor then
    insertTeamRemovalMessage text db (messageID user.1) user.1 "cargo" key now
  else pure db

/-- `removeTeamMembers` with `cargoTeamRemovalSpec`. -/
def removeCargoMembers (db : DB) (repository normalizedName actor : String) (usernames : List String) (now : Int)
    (messageID : String → String) : Except CargoError DB := do
  let key := sanitizeCargoKey text repository normalizedName
  let actor := sanitizeCargoUsername text actor
  require (usernames ≠ [] ∧ usernames.length ≤ 20) (.invalid "cargo member removal batch is invalid")
  let users ← resolveRemoved text db usernames []
  let actorID ← actorIDForUsername text db actor
  lockCargoPackageTeam db key
  checkRemover db key actor actorID users
  let levels ← users.mapM fun user => do
    let member ← orError (db.member? key user.2) .packageNotFound
    pure member.permissionLevel
  let ownersRemoved := levels.count cargoPermissionOwner
  let ownerCount := db.members.rows.countP fun m => m.key = key && m.permissionLevel = cargoPermissionOwner
  require (ownersRemoved = 0 ∨ ownersRemoved < ownerCount) .lastFullMember
  users.foldlM (removeCargoMember text key actor now messageID) db

end Calls

end Renop.Cargo
