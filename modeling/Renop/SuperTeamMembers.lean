import Renop.CargoTeam

/-!
# Members of global teams

`super_team.go`: creating and deleting global teams, inviting, adding and removing members, and their levels T1 to
T4. Every call holds `superTeamMutationLock` and runs in one transaction, so a run is a sequence of calls. What the
calls only read (accounts, locks, bindings and limits) is `Outside`, and may change between two of them.

`addMembers` is the handler of `routes.go`, the only caller of `ForceAddSuperTeamMembers`.
-/

namespace Renop.SuperTeam

open Sql
open Renop.Cargo (Profile UserMessage id_act maxTokenNameLen messageActionPending messageActionAccepted messageActionRejected
  messageActionCancelled)

structure PublicLinks where
  website : String
  gitHub : String
  discord : String
  customName : String
  customURL : String
deriving DecidableEq, Repr

/-- The functions of Go that depend on the Unicode tables, and the URL rules of public links. -/
structure Text extends Cargo.Text where
  equalFold : String → String → Bool
  isControl : Char → Bool
  normalizePublicLinks : PublicLinks → Option PublicLinks

def superTeamRoleRead : Int := 1

def superTeamRoleManage : Int := 3

def superTeamRoleOwner : Int := 4

def maxSuperTeamMutationMembers : Nat := 20

def maxSuperTeamLimit : Int := 1000

inductive SuperTeamError
  | notFound
  | exists
  | permissionDenied
  | memberExists
  | invitationExists
  | invitationInvalid
  | lastOwner
  | ownerCannotLeave
  | createLimit
  | joinLimit
  | notEmpty
  /-- `core.ErrAccountDeleted` -/
  | accountDeleted
  /-- `core.ErrUserProfileNotFound` -/
  | profileNotFound
  /-- `core.ErrResourceLocked` -/
  | resourceLocked
  /-- `fiber.ErrBadRequest` -/
  | badRequest
  /-- An error made by `errors.New`. -/
  | invalid (reason : String)
  /-- A statement failed. -/
  | database
deriving DecidableEq, Repr

/-! ### The tables -/

/-- A row of `super_teams`, and the team as a caller describes it; `createdBy` is a user id. -/
structure Team where
  teamPrefix : String
  name : String
  description : String
  links : PublicLinks
  createdBy : String
  createdByName : String
  createdAt : Int
  updatedAt : Int
deriving DecidableEq, Repr

/-- A row of `super_team_members`. -/
structure Member where
  teamPrefix : String
  userID : String
  roleLevel : Int
  addedAt : Int
deriving DecidableEq, Repr

def Member.id (m : Member) : String × String := (m.teamPrefix, m.userID)

/-- A row of `super_team_invitations`. -/
structure Invitation where
  id : String
  teamPrefix : String
  inviterID : String
  recipientID : String
  roleLevel : Int
  createdAt : Int
  expiresAt : Int
deriving DecidableEq, Repr

/-- A row of `user_super_team_limits`; a negative limit is not set. -/
structure LimitOverride where
  userID : String
  createLimit : Int
  joinLimit : Int
deriving DecidableEq, Repr

/-- What the calls only read. -/
structure Outside where
  profiles : Table Profile.userID
  /-- Whether the token of an account, found by its name, is deleted. -/
  token : String → Option Bool
  limits : Table LimitOverride.userID
  /-- Whether a lock of a team, found by its prefix, is set. -/
  locked : String → Bool
  /-- Whether packages, domains or pending reviews belong to a team. -/
  bound : String → Bool

structure DB where
  teams : Table Team.teamPrefix
  members : Table Member.id
  invitations : Table Invitation.id
  messages : Table UserMessage.id
  outside : Outside

def DB.initial (outside : Outside) : DB := ⟨.empty, .empty, .empty, .empty, outside⟩

/-- The level of a user in a team. -/
def DB.level? (db : DB) (pre userID : String) : Option Int := (db.members.find? (pre, userID)).map (·.roleLevel)

/-! ### Input -/

section Input
variable (text : Text)

def normalizeSuperTeamPrefix (pre : String) : Option String :=
  let pre := text.toLower (text.trimSpace pre)
  if pre.utf8ByteSize < 2 ∨ 64 < pre.utf8ByteSize then none
  else if pre.toList.zipIdx.all fun (c, i) =>
      ('a' ≤ c && c ≤ 'z') || ('0' ≤ c && c ≤ '9') || ((c = '-' || c = '_') && 0 < i && i + 1 < pre.utf8ByteSize)
    then some pre
  else none

def sanitizeSuperTeamPrefix (pre : String) : Option String :=
  normalizeSuperTeamPrefix text (Cargo.sanitized text.toText pre 64)

def normalizeSuperTeamText (value : String) (maxRunes : Nat) (allowEmpty : Bool) : Option String :=
  let value := text.trimSpace value
  if !allowEmpty ∧ value = "" ∨ maxRunes < value.length ∨ value.toList.any text.isControl then none else some value

def normalizeSuperTeam (team : Team) : Option Team := do
  let pre ← sanitizeSuperTeamPrefix text team.teamPrefix
  let name ← normalizeSuperTeamText text team.name 80 false
  let description ← normalizeSuperTeamText text team.description 512 true
  let links ← text.normalizePublicLinks team.links
  pure { team with teamPrefix := pre, name := name, description := description, links := links }

/-- The id of an account that has a token which is not deleted. -/
def userIDForExistingAccount (db : DB) (username : String) (e : SuperTeamError) : Except SuperTeamError String := do
  let username := text.toLower (text.trimSpace username)
  require (username ≠ "") e
  require (db.outside.token (text.toLower (Cargo.sanitized text.toText username maxTokenNameLen)) = some false) e
  let profile ← orError (db.outside.profiles.rows.find? fun p => p.username = username) e
  require (profile.userID ≠ "") e
  pure profile.userID

end Input

def lockAccountLoginMethods (db : DB) (userID : String) : Except SuperTeamError Unit :=
  match db.outside.profiles.find? userID with
  | some profile => require (db.outside.token profile.username ≠ some true) .accountDeleted
  | none => pure ()

def ensureSuperTeamMutable (db : DB) (pre : String) : Except SuperTeamError Unit :=
  require (db.outside.locked pre = false) .resourceLocked

def effectiveSuperTeamLimits (db : DB) (userID : String) (globalCreateLimit globalJoinLimit : Int) :
    Except SuperTeamError (Int × Int) := do
  require (1 ≤ globalCreateLimit ∧ globalCreateLimit ≤ maxSuperTeamLimit ∧ 1 ≤ globalJoinLimit ∧
    globalJoinLimit ≤ maxSuperTeamLimit) (.invalid "global team limits are invalid")
  match db.outside.limits.find? userID with
  | none => pure (globalCreateLimit, globalJoinLimit)
  | some l =>
    pure (if 0 ≤ l.createLimit then l.createLimit else globalCreateLimit,
      if 0 ≤ l.joinLimit then l.joinLimit else globalJoinLimit)

/-- The number of teams that a user created, and of those that the user is in. -/
def superTeamUsage (db : DB) (userID : String) : Int × Int :=
  (db.teams.rows.countP fun t => t.createdBy = userID, db.members.rows.countP fun m => m.userID = userID)

/-! ### Statements -/

def DB.insertMember (db : DB) (m : Member) : Except SuperTeamError DB := do
  let members ← db.members.insert m .database
  pure { db with members := members }

def DB.setLevel (db : DB) (pre userID : String) (level : Int) : DB :=
  let members := db.members.update (fun m => if m.id = (pre, userID) then { m with roleLevel := level } else m)
    fun m => by split <;> rfl
  { db with members := members }

def DB.deleteMembers (db : DB) (p : Member → Bool) : DB := { db with members := db.members.delete p }

def DB.insertMessage (db : DB) (m : UserMessage) : Except SuperTeamError DB := do
  require (m.dedupeKey = "" ∨ ∀ other ∈ db.messages.rows, other.recipient = m.recipient →
    other.dedupeKey ≠ m.dedupeKey)
    .database
  let messages ← db.messages.insert m .database
  pure { db with messages := messages }

def DB.updateMessages (db : DB) (p : UserMessage → Bool) (status : String) (actedAt : Int) : DB :=
  let messages := db.messages.update (fun m => if p m then m.act status actedAt else m) (id_act p status actedAt)
  { db with messages := messages }

/-- A team has one invitation for each recipient. -/
def DB.insertInvitation (db : DB) (i : Invitation) : Except SuperTeamError DB := do
  require (∀ other ∈ db.invitations.rows, other.teamPrefix = i.teamPrefix → other.recipientID ≠ i.recipientID)
    .database
  let invitations ← db.invitations.insert i .database
  pure { db with invitations := invitations }

def cancelSuperTeamInvitations (db : DB) (p : Invitation → Bool) (actedAt : Int) : DB :=
  let ids := (db.invitations.rows.filter p).map (·.id)
  let db := db.updateMessages (fun m => m.id ∈ ids && m.actionStatus = messageActionPending)
    messageActionCancelled actedAt
  { db with invitations := db.invitations.delete p }

def requireAnotherSuperTeamOwner (db : DB) (pre excludedUserID : String) : Except SuperTeamError Unit :=
  require (∃ m ∈ db.members.rows, m.teamPrefix = pre ∧ m.roleLevel = superTeamRoleOwner ∧ m.userID ≠ excludedUserID)
    .lastOwner

section Calls
variable (text : Text)

/-! ### Teams -/

def createSuperTeam (db : DB) (team : Team) (owner : String) (globalCreateLimit globalJoinLimit : Int) :
    Except SuperTeamError DB := do
  let team ← orError (normalizeSuperTeam text team) .permissionDenied
  require (0 < team.createdAt) .permissionDenied
  let ownerID ← userIDForExistingAccount text db owner .permissionDenied
  lockAccountLoginMethods db ownerID
  require (db.teams.find? team.teamPrefix = none) .exists
  let limits ← effectiveSuperTeamLimits db ownerID globalCreateLimit globalJoinLimit
  require ((superTeamUsage db ownerID).1 < limits.1) .createLimit
  require ((superTeamUsage db ownerID).2 < limits.2) .joinLimit
  let teams ← db.teams.insert { team with
    createdBy := ownerID, createdByName := text.toLower (text.trimSpace owner), updatedAt := team.createdAt } .database
  DB.insertMember { db with teams := teams } ⟨team.teamPrefix, ownerID, superTeamRoleOwner, team.createdAt⟩

def deleteSuperTeam (db : DB) (pre actor : String) (administrator : Bool) (actedAt : Int) : Except SuperTeamError DB := do
  let pre ← orError (sanitizeSuperTeamPrefix text pre) .notFound
  require (0 < actedAt) .notFound
  let actorID ← userIDForExistingAccount text db actor .permissionDenied
  ensureSuperTeamMutable db pre
  require (db.teams.find? pre ≠ none) .notFound
  require (administrator = true ∨ superTeamRoleOwner ≤ (db.level? pre actorID).getD 0) .permissionDenied
  require (db.outside.bound pre = false) .notEmpty
  let db := cancelSuperTeamInvitations db (fun i => i.teamPrefix = pre) actedAt
  let db := db.deleteMembers fun m => m.teamPrefix = pre
  pure { db with teams := db.teams.delete fun t => t.teamPrefix = pre }

/-! ### Inviting -/

/-- `core.SuperTeamInvitation`; inviter and recipient are names. -/
structure InvitationRequest where
  id : String
  teamPrefix : String
  inviter : String
  recipient : String
  level : Int
  createdAt : Int
  expiresAt : Int
deriving DecidableEq, Repr

/-- The first loop of `CreateSuperTeamInvitations`: the ids of the recipients and the messages to insert. -/
def checkInvitations (db : DB) (pre inviter inviterID : String) :
    List (InvitationRequest × UserMessage) → List String →
      Except SuperTeamError (List (InvitationRequest × UserMessage × String))
  | [], _ => pure []
  | (i, message) :: rest, seen => do
    require (i.teamPrefix = pre ∧ text.equalFold i.inviter inviter = true ∧ superTeamRoleRead ≤ i.level ∧
      i.level ≤ superTeamRoleOwner ∧ i.id ≠ "" ∧ i.id = message.id ∧ i.createdAt < i.expiresAt)
      (.invalid "global team invitation is invalid")
    let recipientID ← userIDForExistingAccount text db i.recipient .profileNotFound
    require (recipientID ≠ inviterID) (.invalid "global team invitation recipient is invalid")
    require (recipientID ∉ seen) (.invalid "global team invitation recipient is duplicated")
    require (text.equalFold message.recipient i.recipient = true)
      (.invalid "global team invitation message does not match its workflow record")
    let message ← (Cargo.normalizeMessage text.toText message).mapError fun _ =>
      .invalid "global team invitation message does not match its workflow record"
    let rest ← checkInvitations db pre inviter inviterID rest (recipientID :: seen)
    pure ((i, message, recipientID) :: rest)

def lockAccounts (db : DB) : List String → Except SuperTeamError Unit
  | [] => pure ()
  | userID :: rest => do
    lockAccountLoginMethods db userID
    lockAccounts db rest

/-- One round of the second loop. -/
def createSuperTeamInvitation (pre inviterID : String) (inviterLevel : Int) (db : DB)
    (item : InvitationRequest × UserMessage × String) : Except SuperTeamError DB := do
  let (i, message, recipientID) := item
  require (i.level < superTeamRoleManage ∨ superTeamRoleOwner ≤ inviterLevel) .permissionDenied
  require (db.level? pre recipientID = none) .memberExists
  let existing := db.invitations.rows.find? fun other => other.teamPrefix = pre && other.recipientID = recipientID
  require (∀ other ∈ existing, other.expiresAt ≤ i.createdAt) .invitationExists
  let db := if existing.isSome then
      cancelSuperTeamInvitations db (fun other => other.teamPrefix = pre && other.recipientID = recipientID) i.createdAt
    else db
  let db ← db.insertMessage message
  db.insertInvitation ⟨i.id, pre, inviterID, recipientID, i.level, i.createdAt, i.expiresAt⟩

def createSuperTeamInvitations (db : DB) (invitations : List (InvitationRequest × UserMessage)) :
    Except SuperTeamError DB := do
  require (invitations.length ≤ maxSuperTeamMutationMembers) (.invalid "global team invitation batch is invalid")
  let (first, _) ← orError invitations.head? (.invalid "global team invitation batch is invalid")
  let pre ← orError (sanitizeSuperTeamPrefix text first.teamPrefix) .notFound
  let inviterID ← userIDForExistingAccount text db first.inviter .permissionDenied
  let items ← checkInvitations text db pre first.inviter inviterID invitations []
  ensureSuperTeamMutable db pre
  lockAccounts db (inviterID :: items.map fun item => item.2.2)
  let inviterLevel ← orError (db.level? pre inviterID) .permissionDenied
  require (superTeamRoleManage ≤ inviterLevel) .permissionDenied
  items.foldlM (createSuperTeamInvitation pre inviterID inviterLevel) db

/-- The `if accept` of `RespondSuperTeamInvitation`. -/
def acceptSuperTeamInvitation (db : DB) (i : Invitation) (globalJoinLimit actedAt : Int) : Except SuperTeamError DB := do
  ensureSuperTeamMutable db i.teamPrefix
  let inviterLevel ← orError (db.level? i.teamPrefix i.inviterID) .invitationInvalid
  require (superTeamRoleManage ≤ inviterLevel) .invitationInvalid
  require (i.roleLevel < superTeamRoleManage ∨ superTeamRoleOwner ≤ inviterLevel) .invitationInvalid
  require (db.level? i.teamPrefix i.recipientID = none) .memberExists
  let limits ← effectiveSuperTeamLimits db i.recipientID 1 globalJoinLimit
  require ((superTeamUsage db i.recipientID).2 < limits.2) .joinLimit
  db.insertMember ⟨i.teamPrefix, i.recipientID, i.roleLevel, actedAt⟩

def respondSuperTeamInvitation (db : DB) (id recipient : String) (accept : Bool) (globalJoinLimit actedAt : Int) :
    Except SuperTeamError DB := do
  require (id ≠ "" ∧ 0 < actedAt ∧ 1 ≤ globalJoinLimit ∧ globalJoinLimit ≤ maxSuperTeamLimit) .invitationInvalid
  let recipientID ← userIDForExistingAccount text db recipient .invitationInvalid
  lockAccountLoginMethods db recipientID
  let i ← orError (db.invitations.rows.find? fun i => i.id = id && i.recipientID = recipientID) .invitationInvalid
  require (actedAt < i.expiresAt) .invitationInvalid
  let db ← cond accept (acceptSuperTeamInvitation db i globalJoinLimit actedAt) (pure db)
  let pending (m : UserMessage) : Bool :=
    m.id = id && m.recipient = text.toLower (text.trimSpace recipient) && m.actionKind = "super_team_invite" &&
      m.actionStatus = messageActionPending && (m.expiresAt = 0 || m.expiresAt > actedAt)
  require (db.messages.rows.countP pending = 1) .invitationInvalid
  let db := db.updateMessages pending (if accept then messageActionAccepted else messageActionRejected) actedAt
  pure { db with invitations := db.invitations.delete fun i => i.id = id && i.recipientID = recipientID }

/-! ### Adding -/

/-- The first loop of `ForceAddSuperTeamMembers`: names and ids, each id once. -/
def resolveCandidates (db : DB) : List String → List String → Except SuperTeamError (List (String × String))
  | [], _ => pure []
  | rawUsername :: rest, seen => do
    let username := text.toLower (text.trimSpace rawUsername)
    let userID ← userIDForExistingAccount text db username .profileNotFound
    if userID ∈ seen then resolveCandidates db rest seen
    else
      let rest ← resolveCandidates db rest (userID :: seen)
      pure ((username, userID) :: rest)

/-- `insertAcceptedMembershipMessage`; `id` is the random id of the message. -/
def insertMembershipMessage (db : DB) (id recipient actor pre teamName : String) (level actedAt : Int) :
    Except SuperTeamError DB :=
  if db.outside.token recipient = some true then pure db
  else
    db.insertMessage ⟨id, recipient, actor, "super_team_invite", "info", "Global team membership added",
      "You were added to global team " ++ teamName ++ " with T" ++ toString level ++ " permission.",
      text.marshal [("prefix", .inl pre), ("inviter", .inl actor), ("level", .inr level)], "super_team_invite",
      messageActionAccepted, actedAt, 0, actedAt, actedAt + 7 * 24 * 3600 * 1000, ""⟩

/-- One round of the second loop. -/
def addSuperTeamMember (pre actor teamName : String) (level globalCreateLimit globalJoinLimit actedAt : Int)
    (messageID : String → String) (db : DB) (target : String × String) : Except SuperTeamError DB := do
  let (username, userID) := target
  lockAccountLoginMethods db userID
  require (db.level? pre userID = none) .memberExists
  let limits ← effectiveSuperTeamLimits db userID globalCreateLimit globalJoinLimit
  require ((superTeamUsage db userID).2 < limits.2) .joinLimit
  let db ← db.insertMember ⟨pre, userID, level, actedAt⟩
  let db := cancelSuperTeamInvitations db (fun i => i.teamPrefix = pre && i.recipientID = userID) actedAt
  if text.equalFold actor username then pure db
  else insertMembershipMessage text db (messageID username) username actor pre teamName level actedAt

def forceAddSuperTeamMembers (db : DB) (pre actor : String) (usernames : List String)
    (level globalCreateLimit globalJoinLimit actedAt : Int) (messageID : String → String) : Except SuperTeamError DB := do
  let pre ← orError (sanitizeSuperTeamPrefix text pre) (.invalid "global team member addition is invalid")
  require (usernames ≠ [] ∧ usernames.length ≤ maxSuperTeamMutationMembers ∧ superTeamRoleRead ≤ level ∧
    level ≤ superTeamRoleOwner ∧ 0 < actedAt) (.invalid "global team member addition is invalid")
  let actor := text.toLower (text.trimSpace actor)
  let candidates ← resolveCandidates text db usernames []
  require (candidates ≠ []) (.invalid "global team member addition is empty")
  ensureSuperTeamMutable db pre
  let team ← orError (db.teams.find? pre) .notFound
  candidates.foldlM (addSuperTeamMember text pre actor team.name level globalCreateLimit globalJoinLimit actedAt messageID) db

/-- The caller of a route. -/
structure User where
  username : String
  manager : Bool

/-- The invitations that `addMembers` writes for a user who is no manager. -/
def invitationBatch (db : DB) (user : User) (pre : String) (level now : Int) (newID : String → String) :
    List String → List String → Except SuperTeamError (List (InvitationRequest × UserMessage))
  | [], _ => pure []
  | candidate :: rest, seen => do
    let recipient := text.toLower (text.trimSpace candidate)
    require (recipient ≠ "" ∧ recipient ≠ text.toLower user.username ∧ recipient.utf8ByteSize ≤ 255) .badRequest
    if recipient ∈ seen then invitationBatch db user pre level now newID rest seen
    else
      require (db.outside.token recipient ≠ none) .profileNotFound
      let expiresAt := now + 7 * 24 * 3600 * 1000
      let invitation := ⟨newID recipient, pre, user.username, recipient, level, now, expiresAt⟩
      let message := ⟨newID recipient, recipient, user.username, "super_team_invite", "info", "Global team invitation",
        "You were invited to global team " ++ pre ++ " with T" ++ toString level ++ " permission.",
        text.marshal [("prefix", .inl pre), ("inviter", .inl user.username), ("level", .inr level)],
        "super_team_invite", messageActionPending, now, 0, 0, expiresAt, "super-team:" ++ pre ++ ":" ++ recipient⟩
      let rest ← invitationBatch db user pre level now newID rest (recipient :: seen)
      pure ((invitation, message) :: rest)

/-- The route that adds members: a manager adds them, another member invites them. -/
def addMembers (db : DB) (user : User) (pre : String) (users : List String)
    (level globalCreateLimit globalJoinLimit now : Int) (newID : String → String) : Except SuperTeamError DB := do
  require (users ≠ [] ∧ users.length ≤ maxSuperTeamMutationMembers ∧ superTeamRoleRead ≤ level ∧
    level ≤ superTeamRoleOwner)
    .badRequest
  let pre ← orError (normalizeSuperTeamPrefix text pre) .notFound
  if user.manager then
    forceAddSuperTeamMembers text db pre user.username users level globalCreateLimit globalJoinLimit now newID
  else
    let userID ← userIDForExistingAccount text db user.username .permissionDenied
    let roleLevel ← orError (db.level? pre userID) .permissionDenied
    require (superTeamRoleManage ≤ roleLevel ∧ (level < superTeamRoleManage ∨ superTeamRoleOwner ≤ roleLevel))
      .permissionDenied
    let invitations ← invitationBatch text db user pre level now newID users []
    require (invitations ≠ []) .badRequest
    createSuperTeamInvitations text db invitations

/-! ### Levels and removals -/

def setSuperTeamMemberLevel (db : DB) (pre actor target : String) (level : Int) (administrator : Bool) :
    Except SuperTeamError DB := do
  let pre ← orError (sanitizeSuperTeamPrefix text pre) (.invalid "global team member update is invalid")
  require (superTeamRoleRead ≤ level ∧ level ≤ superTeamRoleOwner) (.invalid "global team member update is invalid")
  let actorID ← userIDForExistingAccount text db actor .permissionDenied
  let targetID ← userIDForExistingAccount text db target .notFound
  ensureSuperTeamMutable db pre
  lockAccountLoginMethods db targetID
  let actorLevel ← cond administrator (pure superTeamRoleOwner) (orError (db.level? pre actorID) .permissionDenied)
  require (superTeamRoleManage ≤ actorLevel) .permissionDenied
  let current ← orError (db.level? pre targetID) .notFound
  require (administrator = true ∨ superTeamRoleOwner ≤ actorLevel ∨
    current < superTeamRoleManage ∧ level < superTeamRoleManage) .permissionDenied
  cond (current = superTeamRoleOwner && level < superTeamRoleOwner) (requireAnotherSuperTeamOwner db pre targetID) (pure ())
  pure (db.setLevel pre targetID level)

def removeSuperTeamMember (db : DB) (pre actor target : String) (administrator : Bool) (actedAt : Int) :
    Except SuperTeamError DB := do
  let pre ← orError (sanitizeSuperTeamPrefix text pre) .notFound
  require (0 < actedAt) .notFound
  let actorID ← userIDForExistingAccount text db actor .permissionDenied
  let targetID ← userIDForExistingAccount text db target .notFound
  ensureSuperTeamMutable db pre
  let actorLevel ← cond administrator (pure superTeamRoleOwner) (orError (db.level? pre actorID) .permissionDenied)
  let targetLevel ← orError (db.level? pre targetID) .notFound
  require (¬ (actorID = targetID ∧ targetLevel = superTeamRoleOwner)) .ownerCannotLeave
  require (actorID = targetID ∨ administrator = true ∨ superTeamRoleManage ≤ actorLevel ∧
    (superTeamRoleOwner ≤ actorLevel ∨ targetLevel < superTeamRoleManage)) .permissionDenied
  cond (targetLevel = superTeamRoleOwner) (requireAnotherSuperTeamOwner db pre targetID) (pure ())
  let db := db.deleteMembers fun m => m.id = (pre, targetID)
  pure (cancelSuperTeamInvitations db (fun i => i.teamPrefix = pre && i.recipientID = targetID) actedAt)

end Calls

end Renop.SuperTeam
