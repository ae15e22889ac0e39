import Renop.SuperTeamMembers

/-!
# Accounts

Rows of `tokens` and `user_profiles`, and the calls of `tokens.go`, `profiles.go` and `account_ban.go` that create,
rename, ban and remove accounts. An account has a name, which it may change and which others may take later, and a
user id, which stays. Retiring an account keeps its rows, so its name stays reserved.
-/

namespace Renop.Accounts

open Sql
open Renop.SuperTeam (Text)
open Renop.Cargo (Profile sanitized maxTokenNameLen)

inductive AccountError
  /-- `core.ErrUserProfileNotFound` -/
  | profileNotFound
  | accountDeleted
  | usernameExists
  | banInvalid
  | banProtected
  | retirementBusy
  /-- An error made by `errors.New`. -/
  | invalid (reason : String)
  /-- A statement failed. -/
  | database
deriving DecidableEq, Repr

/-- `core.AccountBan`; without an end it is permanent. -/
structure Ban where
  reason : String
  createdAt : Int
  expiresAt : Option Int
deriving DecidableEq, Repr

def Ban.isActive (ban : Ban) (now : Int) : Bool := 0 < ban.createdAt && ban.expiresAt.all (now < ·)

/-- A row of `tokens`. -/
structure Token where
  name : String
  permissions : List String
  ban : Option Ban
  deletedAt : Int
deriving DecidableEq, Repr

structure AccountDB where
  tokens : Table Token.name
  profiles : Table Profile.userID

/-! ### Finding an account -/

section Find
variable (text : Text) (db : AccountDB)

def profileByName (username : String) : Option Profile := db.profiles.rows.find? fun p => p.username = username

/-- `GetTokenByName` -/
def getTokenByName (name : String) : Option Token :=
  let name := sanitized text.toText name maxTokenNameLen
  if name = "" then none else db.tokens.find? (text.toLower name)

def userIDForUsername (username : String) : Except AccountError String := do
  let username := text.toLower (text.trimSpace username)
  require (username ≠ "") .profileNotFound
  let profile ← orError (profileByName db username) .profileNotFound
  require (profile.userID ≠ "") .profileNotFound
  pure profile.userID

/-- `token.deleted_at > 0` of the account with the name. -/
def accountDeleted (username : String) : Bool := (db.tokens.find? username).any fun t => 0 < t.deletedAt

def userIDForUsernameTx (username : String) : Except AccountError String := do
  let username := text.toLower (text.trimSpace username)
  let profile ← orError (profileByName db username) .profileNotFound
  require (accountDeleted db profile.username = false) .profileNotFound
  pure profile.userID

/-- Takes the account's row lock; deleted accounts are refused. -/
def lockAccountLoginMethods (userID : String) : Except AccountError Unit :=
  match db.profiles.find? userID with
  | some profile => require (accountDeleted db profile.username = false) .accountDeleted
  | none => pure ()

/-- Whether `lockAccountByUsernameTx` says that the account is deleted. -/
def accountDeletedByUsername (username : String) : Bool :=
  match profileByName db (text.toLower username) with
  | some profile => lockAccountLoginMethods db profile.userID = .error .accountDeleted
  | none => false

/-- `INSERT INTO user_profiles`; the name is unique as well. -/
def insertProfile (profile : Profile) : Except AccountError AccountDB := do
  require (profileByName db profile.username = none) .database
  let profiles ← db.profiles.insert profile .database
  pure { db with profiles := profiles }

/-- The id of an account; an account without a profile gets one, with the new id `newID`. -/
def ensureUserProfile (username newID : String) : Except AccountError (String × AccountDB) := do
  require ((getTokenByName text db username).all (fun t => t.deletedAt ≤ 0) = true) .accountDeleted
  match userIDForUsername text db username with
  | .ok userID => pure (userID, db)
  | .error _ =>
    let db ← insertProfile db ⟨newID, text.toLower (text.trimSpace username)⟩
    pure (newID, db)

end Find

/-! ### Changing an account -/

section Change
variable (text : Text) (db : AccountDB)

/-- Roles that are not banned. -/
def protectedAccountRole (permissions : List String) : Bool :=
  permissions.any fun permission =>
    let permission := text.toLower (text.trimSpace permission)
    permission ∈ ["manager", "admin", "m", "access-token:manager"] || "canmoderate:".toList.isPrefixOf permission.toList

def normalizeAccountBanReason (reason : String) : Option String :=
  let reason := text.trimSpace reason
  if reason = "" ∨ reason.toList.length > 512 ∨ reason.toList.any text.isControl = true then none else some reason

def checkBan (ban : Ban) : Except AccountError Ban := do
  let reason ← orError (normalizeAccountBanReason text ban.reason) .banInvalid
  require (0 < ban.createdAt ∧ ∀ e ∈ ban.expiresAt, ban.createdAt < e) .banInvalid
  pure { ban with reason := reason }

/-- The ban that a row keeps. -/
def storedAccountBan (token : Token) (now : Int) : Except AccountError (Option Ban) := do
  require (¬ (token.ban.any (·.isActive now) = true ∧ protectedAccountRole text token.permissions = true)) .banProtected
  token.ban.mapM (checkBan text)

/-- `UpsertTokenQuery`: a row that exists keeps `deleted_at`. -/
def upsertToken (token : Token) : Except AccountError AccountDB :=
  match db.tokens.find? token.name with
  | some _ =>
    let tokens := db.tokens.update
      (fun t => if t.name = token.name then { t with permissions := token.permissions, ban := token.ban } else t)
      fun t => by split <;> rfl
    pure { db with tokens := tokens }
  | none => do
    let tokens ← db.tokens.insert { token with deletedAt := 0 } .database
    pure { db with tokens := tokens }

def saveTokenInTx (name : String) (token : Token) (now : Int) : Except AccountError AccountDB := do
  let ban ← storedAccountBan text token now
  upsertToken db { token with name := name, ban := ban }

/-- `SaveToken` -/
def saveToken (token : Token) (newID : String) (now : Int) : Except AccountError AccountDB := do
  let name := text.toLower (sanitized text.toText token.name maxTokenNameLen)
  if name = "" then pure db
  else
    let db ← match profileByName db name with
      | none => insertProfile db ⟨newID, name⟩
      | some profile => do
        lockAccountLoginMethods db profile.userID
        pure db
    saveTokenInTx text db name token now

/-- `NormalizeUsername` -/
def normalizeUsername (username : String) : Option String :=
  let username := text.trimSpace username
  if username.utf8ByteSize < 4 ∨ username.utf8ByteSize > 18 ∨
      username.toList.any (fun c => !(c.isAlphanum || c = '_')) = true then none
  else some (text.toLower username)

/-- `CreateToken`; the nickname is one that `NormalizeNickname` takes. -/
def createToken (token : Token) (newID : String) (now : Int) : Except AccountError AccountDB := do
  let name ← orError (normalizeUsername text token.name) (.invalid "token name is invalid")
  let ban ← storedAccountBan text token now
  require (db.tokens.find? name = none) .usernameExists
  let tokens ← db.tokens.insert { token with name := name, ban := ban, deletedAt := 0 } .database
  insertProfile { db with tokens := tokens } ⟨newID, name⟩

/-- The account that a call finds by a name in lower case. -/
def currentAccount (name : String) : Except AccountError (Profile × Token) := do
  let profile ← orError (profileByName db name) .profileNotFound
  lockAccountLoginMethods db profile.userID
  let token ← orError (db.tokens.find? name) .profileNotFound
  require (token.deletedAt ≤ 0) .accountDeleted
  pure (profile, token)

/-- `SetAccountBan`; without a ban it clears the one there is. -/
def setAccountBan (username : String) (ban : Option Ban) (now : Int) : Except AccountError AccountDB := do
  let username := text.toLower (sanitized text.toText username maxTokenNameLen)
  require (username ≠ "") .profileNotFound
  let ban ← ban.mapM (checkBan text)
  let (_, token) ← currentAccount db username
  saveTokenInTx text db username { token with ban := ban } now

theorem userID_rename (p : Profile) (oldName newName : String) :
    (if p.username = oldName then { p with username := newName } else p).userID = p.userID := by
  split <;> rfl

/-- `UPDATE user_profiles SET username = ? WHERE username = ?` -/
def renameProfile (oldName newName : String) : Except AccountError AccountDB := do
  require (oldName = newName ∨ profileByName db newName = none) .database
  let profiles := db.profiles.update (fun p => if p.username = oldName then { p with username := newName } else p)
    fun p => userID_rename p oldName newName
  pure { db with profiles := profiles }

/-- The rows of `tokens` and `user_profiles` that `RenameToken` changes, for two different names. -/
def renameAccount (oldName newName : String) (now : Int) : Except AccountError AccountDB := do
  let (_, token) ← currentAccount db oldName
  require (db.tokens.find? newName = none) .usernameExists
  let ban ← storedAccountBan text token now
  let tokens ← db.tokens.insert { token with name := newName, ban := ban, deletedAt := 0 } .database
  renameProfile { db with tokens := tokens.delete fun t => t.name = oldName } oldName newName

/-- The end of `deleteToken`: a retired account keeps its rows, without permissions. -/
def dropAccount (name : String) (retire : Bool) (retiredAt : Int) : AccountDB :=
  if retire then
    let tokens := db.tokens.update
      (fun t => if t.name = name ∧ t.deletedAt = 0 then { t with permissions := [], ban := none, deletedAt :=
        retiredAt } else t)
      fun t => by split <;> rfl
    { db with tokens := tokens }
  else
    { tokens := db.tokens.delete fun t => t.name = name, profiles := db.profiles.delete fun p => p.username = name }

end Change

/-! ### What the statements leave -/

theorem insertProfile_ok {accounts accounts' : AccountDB} {profile : Profile}
    (h : insertProfile accounts profile = .ok accounts') :
    profileByName accounts profile.username = none ∧ (∀ q ∈ accounts.profiles.rows, q.userID ≠ profile.userID) ∧
      accounts'.profiles.rows = accounts.profiles.rows ++ [profile] ∧ accounts'.tokens = accounts.tokens := by
  obtain ⟨hnew, h⟩ := require_bind_ok.1 h
  obtain ⟨profiles, hins, h⟩ := bind_ok.1 h
  cases h
  obtain ⟨hid, hrows⟩ := Table.insert_ok hins
  exact ⟨hnew, hid, hrows, rfl⟩

theorem upsertToken_profiles {a a' : AccountDB} {t : Token} (h : upsertToken a t = .ok a') : a'.profiles = a.profiles := by
  unfold upsertToken at h
  split at h
  · cases h
    rfl
  · obtain ⟨tokens, -, h⟩ := bind_ok.1 h
    cases h
    rfl

theorem find?_upsertToken {a a' : AccountDB} {t : Token} (h : upsertToken a t = .ok a') (name : String) :
    (a'.tokens.find? name).isSome = true ↔ name = t.name ∨ (a.tokens.find? name).isSome = true := by
  unfold upsertToken at h
  split at h
  · rename_i row hrow
    cases h
    rw [Table.find?_update, Option.isSome_map]
    refine ⟨.inr, ?_⟩
    rintro (rfl | hname)
    · rw [hrow]
      rfl
    · exact hname
  · obtain ⟨tokens, hinsert, h⟩ := bind_ok.1 h
    cases h
    show (tokens.find? name).isSome = true ↔ _
    rw [Table.find?_insert hinsert]
    by_cases hname : name = t.name
    · simp [hname]
    · simp [hname]

end Renop.Accounts
