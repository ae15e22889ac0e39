import Renop.AccountSecurity

/-!
# Password resets by email

`password_reset.go`: a code is stored with what the account was when it was issued, and used only while the account is
still that. Beside it the calls that change what an account is: its addresses (`email_verification.go`,
`account_emails.go`), its name (`tokens.go`, `profiles.go`), and its removal (`tokens.go`, `account_retirement.go`).
-/

namespace Renop.AccountSecurity

open Sql
open Renop.Cargo (Profile sanitizeInputString sanitized maxTokenNameLen)

/-- `mail.MaxPendingJobs` -/
def maxPendingResets : Nat := 2048

def minuteMillis : Int := 60 * 1000

/-- What the call reads of a `mail.Job`. -/
structure MailJob where
  scene : String
  ticketHash : String
  recipient : String
  createdAt : Int
  expiresAt : Int
deriving DecidableEq, Repr

/-- The answer of `passwordResetIdentityTx`; without an account all of it is empty. -/
structure ResetIdentity where
  userID : String
  username : String
  credentialHash : String
  updatedAt : Int
deriving DecidableEq, Repr

def ResetIdentity.empty : ResetIdentity := ⟨"", "", "", 0⟩

section Reset
variable (env : Env) (db : DB)

def passwordResetIdentity (email : String) : ResetIdentity :=
  match db.emails.find? email with
  | none => .empty
  | some address =>
    match lockAccountLoginMethods db address.userID, db.security.find? address.userID, db.profiles.find? address.userID with
    | .ok _, some row, some p =>
      match db.tokens.find? p.username with
      | some token =>
        if token.deletedAt = 0 then ⟨address.userID, p.username, env.sha256 token.encryptedSecret,
          row.updatedAt⟩ else .empty
      | none => .empty
    | _, _, _ => .empty

/-- `queueMail` is what `queueMailJobTx` answers: whether a job was made. -/
def queueEmailPasswordReset (job : MailJob) (codeHash ip : String) (queueMail : Except SecurityError Bool) :
    Except SecurityError (Bool × DB) := do
  require (job.scene = "password_reset" ∧ validSelectorHash codeHash = true ∧ job.ticketHash ≠ "" ∧ ip ≠ "" ∧
    job.expiresAt - job.createdAt ≤ 10 * minuteMillis) .emailCodeInvalid
  let email ← orError ((normalizeEmail env job.recipient).filter (· ≠ "")) .emailCodeInvalid
  let identity := passwordResetIdentity env db email
  let created ← queueMail
  if created = false then pure (false, db)
  else
    require ((db.resets.find? email).all (fun r => r.createdAt + minuteMillis ≤ job.createdAt) = true) .rateLimited
    let kept := db.resets.delete fun r => r.email = email || r.expiresAt ≤ job.createdAt
    require (kept.rows.length < maxPendingResets) .queueFull
    let resets ← kept.insert ⟨email, identity.userID, codeHash, identity.credentialHash, identity.updatedAt, 0,
      job.createdAt, job.expiresAt⟩ .database
    pure (true, { db with resets := resets })

/-- A wrong guess is counted, and the answer is `none`: `ErrEmailCodeInvalid`. -/
def resetPasswordWithEmailCode (email codeHash passwordHash : String) (updatedAt : Int) :
    Except SecurityError (Option String × DB) := do
  let email ← orError ((normalizeEmail env email).filter (· ≠ "")) .emailCodeInvalid
  require (validSelectorHash codeHash = true ∧ validPasswordHash passwordHash = true ∧ 0 < updatedAt) .emailCodeInvalid
  let reset ← orError (db.resets.find? email) .emailCodeInvalid
  require (updatedAt < reset.expiresAt ∧ reset.attempts < 5) .emailCodeInvalid
  if codeHash ≠ reset.codeHash ∨ reset.userID = "" then
    let resets := db.resets.update (fun r => if r.email = email then { r with attempts := r.attempts + 1 } else r)
      fun r => by split <;> rfl
    pure (none, { db with resets := resets })
  else
    let identity := passwordResetIdentity env db email
    require (identity.userID = reset.userID ∧ identity.credentialHash = reset.credentialHash ∧
      identity.updatedAt = reset.securityUpdatedAt) .emailCodeInvalid
    let db ← resetAccountPassword db reset.userID identity.username passwordHash updatedAt
    pure (some identity.username, { db with resets := db.resets.delete fun r => r.email = email })

end Reset

/-! ### Email addresses -/

section Emails
variable (env : Env) (db : DB)

def updateAccountEmail (username email : String) (updatedAt : Int) : Except SecurityError DB := do
  let username := env.toLower (env.trimSpace username)
  let email ← orError (normalizeEmail env email) (.invalid "email address is invalid")
  let userID ← userIDForExistingAccount env db username
  lockAccountLoginMethods db userID
  updateAccountEmailTx env db userID email updatedAt

def DB.deleteEmailChange (userID : String) : DB := { db with emailChanges := db.emailChanges.delete fun c =>
    c.userID = userID }

/-- The address that a confirmed change is about becomes a second address, or the address. -/
def applyEmailChange (userID email : String) (isAlias : Bool) (now : Int) : Except SecurityError DB :=
  if isAlias then do
    let (_, db) ← reserveAccountEmails env db userID [⟨email, true⟩] true
    touchAccountSecurity db userID now
  else updateAccountEmailTx env db userID email now

/-- A wrong guess is counted, and the answer is `false`. -/
def confirmAccountEmailChange (username session email codeHash : String) (now clock : Int) :
    Except SecurityError (Bool × DB) := do
  let email ← orError ((normalizeEmail env email).filter (· ≠ "")) .emailCodeInvalid
  require (validSelectorHash codeHash = true ∧ 0 < now) .emailCodeInvalid
  let account ← accountEmailSession env db (env.toLower username) session clock
  let change ← orError (db.emailChanges.find? account.userID) .emailCodeInvalid
  require (now < change.expiresAt ∧ change.attempts < 5 ∧ change.email = email ∧ change.snapshot = account.snapshot ∧
    change.sessionHash = env.sha256 session) .emailCodeInvalid
  if codeHash ≠ change.codeHash then
    let emailChanges := db.emailChanges.update
      (fun c => if c.userID = account.userID then { c with attempts := c.attempts + 1 } else c) fun c => by split <;> rfl
    pure (false, { db with emailChanges := emailChanges })
  else
    let db ← applyEmailChange env db account.userID email change.isAlias now
    pure (true, db.deleteEmailChange account.userID)

def updateAccountEmailFromSession (username session email snapshot : String) (now clock : Int)
    (providerEmails : List ProviderEmail) : Except SecurityError DB := do
  let email ← orError ((normalizeEmail env email).filter (· ≠ "")) .emailCodeInvalid
  require (validSelectorHash snapshot = true ∧ 0 < now) .emailCodeInvalid
  let account ← accountEmailSession env db (env.toLower username) session clock
  require (account.snapshot = snapshot) .emailCodeInvalid
  let (_, db) ← reserveAccountEmails env db account.userID providerEmails true
  let db ← updateAccountEmailTx env db account.userID email now
  pure (db.deleteEmailChange account.userID)

def deleteAccountEmailAlias (username session email : String) (now clock : Int) : Except SecurityError DB := do
  let email ← orError ((normalizeEmail env email).filter (· ≠ "")) .emailCodeInvalid
  require (0 < now) .emailCodeInvalid
  let account ← accountEmailSession env db (env.toLower username) session clock
  let primary := ((db.security.find? account.userID).bind (·.email)).getD ""
  require (email ≠ primary) .primaryEmail
  let db := { db with emails := db.emails.delete fun a => a.userID = account.userID && a.email = email }
  touchAccountSecurity db account.userID now

end Emails

/-! ### Names and removal -/

section Accounts
variable (env : Env) (db : DB)

theorem names_rename {t : Table Profile.userID} (h : (t.rows.map Profile.username).Nodup) {oldName newName : String}
    (hnew : ∀ p ∈ t.rows, p.username ≠ newName) :
    ((t.rows.map fun p => if p.username = oldName then { p with username := newName } else p).map
      Profile.username).Nodup := by
  rw [List.map_map]
  refine List.Nodup.map_on (fun p hp q hq heq => ?_) (List.Nodup.of_map _ h)
  have hinj : p.username = q.username → p = q := fun hname => List.inj_on_of_nodup_map h hp hq hname
  simp only [Function.comp_apply] at heq
  split at heq
  · rename_i hold
    split at heq
    · rename_i hold'
      exact hinj (hold.trans hold'.symm)
    · exact absurd heq.symm (hnew q hq)
  · split at heq
    · exact absurd heq (hnew p hp)
    · exact hinj heq

/-- `UPDATE user_profiles SET username = ? WHERE username = ?` -/
def renameProfile (oldName newName : String) : Except SecurityError Profiles :=
  if h : ∀ p ∈ db.profiles.rows, p.username ≠ newName then
    .ok {
      toTable := db.profiles.update (fun p => if p.username = oldName then { p with username := newName } else p)
        fun p => by split <;> rfl
      names := names_rename db.profiles.names h }
  else .error .database

/-- The sessions and passkeys move with the token. `refused` is what the ban and the statements about other tables answer. -/
def renameTokenInTx (oldName newName : String) (token : TokenRow) (refused : Option SecurityError) :
    Except SecurityError DB := do
  require (db.tokens.find? newName = none) (.invalid "username already exists")
  require (refused = none) (refused.getD .database)
  let tokens ← (db.tokens.delete fun t => t.name = oldName).insert { token with name := newName, deletedAt := 0 } .database
  let rename (name : String) : String := if name = oldName then newName else name
  pure { db with
    tokens := tokens
    fidoDevices := db.fidoDevices.update (fun d => { d with username := rename d.username }) fun _ => rfl
    sessions := db.sessions.update (fun s => { s with username := rename s.username }) fun _ => rfl }

/-- The account takes another name, with the token row of the caller. -/
def renameAccount (oldName newName : String) (token : TokenRow) (refused : Option SecurityError) :
    Except SecurityError DB := do
  let db ← renameTokenInTx db oldName newName token refused
  let profiles ← renameProfile db oldName newName
  pure { db with profiles := profiles }

def tokenName (name : String) : String := env.toLower (sanitized env.toText name maxTokenNameLen)

/-- `RenameToken` to another name. -/
def renameToken (oldName newName : String) (refused : Option SecurityError) : Except SecurityError DB := do
  let lowerOld := tokenName env oldName
  let lowerNew := tokenName env newName
  require (lowerOld ≠ "" ∧ lowerNew ≠ "" ∧ lowerOld ≠ lowerNew) (.invalid "token name is invalid")
  let p ← orError (profileByName db lowerOld) .userProfileNotFound
  lockAccountLoginMethods db p.userID
  let token ← orError (db.tokens.find? lowerOld) .userProfileNotFound
  require (token.deletedAt ≤ 0) .accountDeleted
  renameAccount db lowerOld lowerNew token refused

/-- `UpdateUserProfile` of an account that has its profile; `password` is the new hash when `changes.Password` is set, and
`refused` also the answer to the new name, the nickname and the number of renames. The security row is not touched. -/
def updateUserProfile (oldName newName : String) (password : Option String) (refused : Option SecurityError) :
    Except SecurityError DB := do
  let lowerOld := tokenName env oldName
  let lowerNew := tokenName env newName
  require (lowerOld ≠ "" ∧ lowerNew ≠ "") (.invalid "user profile update is invalid")
  let p ← orError (profileByName db lowerOld) .userProfileNotFound
  lockAccountLoginMethods db p.userID
  let current ← orError (db.tokens.find? lowerOld) .userProfileNotFound
  let token := { current with encryptedSecret := password.getD current.encryptedSecret }
  if lowerOld = lowerNew then
    require (refused = none) (refused.getD .database)
    pure (db.setSecret lowerOld token.encryptedSecret)
  else renameAccount db lowerOld lowerNew token refused

/-- `DELETE FROM user_profiles WHERE username = ?` -/
def dropProfile (name : String) : Profiles where
  toTable := db.profiles.delete fun p => p.username = name
  names := (db.profiles.names.sublist (List.filter_sublist.map _))

/-- `deleteToken`. `refused` is what the tables of other subsystems answer, and the plan of a retirement; `actedAt` is the
time of the call, or the time of the retirement. -/
def deleteToken (name : String) (retire : Bool) (actedAt : Int) (refused : Option SecurityError) :
    Except SecurityError DB := do
  let lowerName := env.toLower (sanitized env.toText name maxTokenNameLen)
  require (retire = false ∨ 0 < actedAt) (.invalid "account retirement is busy")
  if lowerName = "" then pure db
  else
    let p ← orError (profileByName db lowerName) .userProfileNotFound
    lockAccountLoginMethods db p.userID
    let token ← orError (db.tokens.find? lowerName) .userProfileNotFound
    require (token.deletedAt ≤ 0 ∧ (retire = false ∨ token.deletedAt = 0)) .accountDeleted
    require (refused = none) (refused.getD .database)
    let db := { db with
      githubIdentities := db.githubIdentities.delete fun i => i.userID = p.userID
      oauthIdentities := db.oauthIdentities.delete fun i => i.userID = p.userID
      recoveryCodes := db.recoveryCodes.delete fun c => c.userID = p.userID
      emailChanges := db.emailChanges.delete fun c => c.userID = p.userID
      mfa := db.mfa.delete fun m => m.userID = p.userID
      fidoDevices := db.fidoDevices.delete fun d => d.username = lowerName
      sessions := db.sessions.delete fun s => s.username = lowerName }
    if retire then
      pure { db with
        tokens := db.tokens.update
          (fun t => if t.name = lowerName ∧ t.deletedAt = 0 then
            { t with encryptedSecret := "", expiresAt := none, bannedAt := 0, bannedUntil := none, deletedAt := actedAt }
            else t) fun t => by split <;> rfl
        security := db.security.update
          (fun row => if row.userID = p.userID then { row with passwordLoginEnabled := false, updatedAt := actedAt } else row)
          fun row => by split <;> rfl }
    else
      pure { db with
        tokens := db.tokens.delete fun t => t.name = lowerName
        profiles := dropProfile db lowerName
        security := db.security.delete fun row => row.userID = p.userID
        emails := db.emails.delete fun a => a.userID = p.userID }

def releaseRetiredAccountEmail (username : String) (releasedAt : Int) : Except SecurityError DB := do
  let username := env.toLower (env.trimSpace username)
  require (username ≠ "" ∧ 0 < releasedAt) (.invalid "account is not retired")
  let token ← orError (db.tokens.find? username) (.invalid "account is not retired")
  let p ← orError (profileByName db username) (.invalid "account is not retired")
  require (0 < token.deletedAt) (.invalid "account is not retired")
  pure { db with
    emails := db.emails.delete fun a => a.userID = p.userID
    security := db.security.update
      (fun row => if row.userID = p.userID then
        { row with email := none, passwordLoginEnabled := false, updatedAt := releasedAt } else row)
      fun row => by split <;> rfl }

end Accounts

end Renop.AccountSecurity
