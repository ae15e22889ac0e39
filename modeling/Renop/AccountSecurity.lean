import Mathlib.Data.List.Infix
import Renop.Cargo

/-!
# Login methods and security state of accounts

The tables behind a login: password, password policy, passkeys, linked identities, second factors, email addresses and
sessions, with the calls of `account_security.go`, `fido.go`, `github.go`, `oauth.go`, `mfa.go` and `recovery_codes.go`
that change them. A call is one transaction; the user id of a name is read from the table.

Some calls ask whether another login method remains before they take one away, each in its own way.
-/

namespace Renop.AccountSecurity

open Sql
open Renop.Cargo (Profile sanitizeInputString sanitized maxTokenNameLen)

/-- What the code uses of the Unicode tables, `idna.Lookup.ToASCII`, and the hex digest of SHA-256. -/
structure Env extends Cargo.Text where
  toASCII : String → Option String
  sha256 : String → String

inductive SecurityError
  | userProfileNotFound
  | accountDeleted
  | passwordNotConfigured
  | lastLoginMethod
  | emailAlreadyExists
  | emailCodeInvalid
  | emailVerificationRequired
  | accountEmailLimit
  | primaryEmail
  | mfaInvalid
  | githubIdentityNotFound
  | githubIdentityLinked
  | oauthIdentityNotFound
  | oauthIdentityLinked
  | recoveryCodesInvalid
  | registrationInvalid
  | rateLimited
  | queueFull
  /-- An error made by `errors.New`. -/
  | invalid (reason : String)
  /-- A statement failed. -/
  | database
deriving DecidableEq, Repr

/-! ### The tables -/

/-- A row of `tokens`; an end that is not set is `none`. -/
structure TokenRow where
  name : String
  encryptedSecret : String
  expiresAt : Option Int
  bannedAt : Int
  bannedUntil : Option Int
  deletedAt : Int
deriving DecidableEq, Repr

/-- A row of `user_account_security`. -/
structure SecurityRow where
  userID : String
  email : Option String
  passwordLoginEnabled : Bool
  updatedAt : Int
deriving DecidableEq, Repr

structure FidoDevice where
  id : String
  username : String
  credentialID : String
deriving DecidableEq, Repr

structure GitHubIdentity where
  githubUserID : Int
  userID : String
  githubLogin : String
  authorizedAt : Int
deriving DecidableEq, Repr

structure OAuthRow where
  identityHash : String
  providerID : String
  userID : String
  login : String
  authorizedAt : Int
deriving DecidableEq, Repr

/-- A row of `user_mfa`. -/
structure MFARow where
  userID : String
  secret : String
  revision : String
  passkeyEnabled : Bool
  lastStep : Int
  windowStart : Int
  failures : Int
deriving DecidableEq, Repr

structure Session where
  sessionToken : String
  username : String
deriving DecidableEq, Repr

structure RecoveryCode where
  userID : String
  selectorHash : String
  usedAt : Int
deriving DecidableEq, Repr

def RecoveryCode.key (c : RecoveryCode) : String × String := (c.userID, c.selectorHash)

/-- A row of `user_email_addresses`. -/
structure EmailAddress where
  email : String
  userID : String
  retained : Bool
deriving DecidableEq, Repr

/-- A row of `user_password_resets`. -/
structure PasswordReset where
  email : String
  userID : String
  codeHash : String
  credentialHash : String
  securityUpdatedAt : Int
  attempts : Int
  createdAt : Int
  expiresAt : Int
deriving DecidableEq, Repr

/-- A row of `user_email_changes`. -/
structure EmailChange where
  userID : String
  email : String
  codeHash : String
  snapshot : String
  sessionHash : String
  attempts : Int
  createdAt : Int
  expiresAt : Int
  isAlias : Bool
deriving DecidableEq, Repr

/-- `user_profiles`, where names are unique as well. -/
structure Profiles extends Table Profile.userID where
  names : (rows.map Profile.username).Nodup

structure DB where
  tokens : Table TokenRow.name
  profiles : Profiles
  security : Table SecurityRow.userID
  fidoDevices : Table FidoDevice.id
  githubIdentities : Table GitHubIdentity.githubUserID
  oauthIdentities : Table OAuthRow.identityHash
  mfa : Table MFARow.userID
  sessions : Table Session.sessionToken
  recoveryCodes : Table RecoveryCode.key
  emails : Table EmailAddress.email
  resets : Table PasswordReset.email
  emailChanges : Table EmailChange.userID

/-! ### Finding an account -/

section Find
variable (env : Env) (db : DB)

def profileByName (username : String) : Option Profile := db.profiles.rows.find? fun p => p.username = username

/-- `lockAccountLoginMethodsTx`: deleted accounts are refused. -/
def lockAccountLoginMethods (userID : String) : Except SecurityError Unit :=
  match (db.profiles.find? userID).bind fun p => db.tokens.find? p.username with
  | some token => require (token.deletedAt ≤ 0) .accountDeleted
  | none => pure ()

def lockAccountByUsername (username : String) : Except SecurityError Unit :=
  match profileByName db (env.toLower username) with
  | some p => lockAccountLoginMethods db p.userID
  | none => pure ()

/-- `GetTokenByName`, without its cache. -/
def getTokenByName (name : String) : Option TokenRow :=
  let name := sanitized env.toText name maxTokenNameLen
  if name = "" then none else db.tokens.find? (env.toLower name)

/-- `userIDForExistingAccount`, without its caches. -/
def userIDForExistingAccount (username : String) : Except SecurityError String := do
  let username := env.toLower (env.trimSpace username)
  require (username ≠ "") .userProfileNotFound
  let token ← orError (getTokenByName env db username) .userProfileNotFound
  require (token.deletedAt ≤ 0) .userProfileNotFound
  let p ← orError (profileByName db username) .userProfileNotFound
  require (p.userID ≠ "") .userProfileNotFound
  pure p.userID

/-- `COALESCE(security.password_login_enabled, 1)` -/
def DB.passwordLoginEnabled (userID : String) : Bool := ((db.security.find? userID).map (·.passwordLoginEnabled)).getD true

/-- `COALESCE(security.updated_at, 0)` -/
def DB.securityUpdatedAt (userID : String) : Int := ((db.security.find? userID).map (·.updatedAt)).getD 0

/-- The password hash of the account with a user id. -/
def DB.encryptedSecret? (userID : String) : Option String :=
  ((db.profiles.find? userID).bind fun p => db.tokens.find? p.username).map (·.encryptedSecret)

def DB.githubIdentity? (userID : String) : Option GitHubIdentity :=
  db.githubIdentities.rows.find? fun i => i.userID = userID

def DB.fidoCount (username : String) : Nat := db.fidoDevices.rows.countP fun d => d.username = username

def DB.fidoCountExcept (username deviceID : String) : Nat :=
  db.fidoDevices.rows.countP fun d => d.username = username && d.id ≠ deviceID

end Find

/-! ### Which login methods remain -/

section Remaining
variable (db : DB)

def passkeySecondFactor (userID : String) : Bool := ((db.mfa.find? userID).map (·.passkeyEnabled)).getD false

def hasOAuthLogin (userID excludedProvider : String) : Bool :=
  0 < db.oauthIdentities.rows.countP fun i => i.userID = userID && i.providerID ≠ excludedProvider

def githubCount (userID : String) : Nat := db.githubIdentities.rows.countP fun i => i.userID = userID

def hasExternalLogin (userID username : String) : Bool :=
  hasOAuthLogin db userID "" ||
    ((0 < db.fidoCount username && !passkeySecondFactor db userID) || 0 < githubCount db userID)

/-- The account's password can be used; an account without a token is an error. -/
def passwordUsable (userID : String) : Except SecurityError Bool := do
  let encryptedSecret ← orError (db.encryptedSecret? userID) .database
  pure (db.passwordLoginEnabled userID && encryptedSecret ≠ "")

def hasLoginWithoutFido (userID username excludedDeviceID : String) : Except SecurityError Bool :=
  if passkeySecondFactor db userID then pure (0 < db.fidoCountExcept username excludedDeviceID)
  else if hasOAuthLogin db userID "" then pure true
  else do
    let password ← passwordUsable db userID
    pure (password || 0 < githubCount db userID || 0 < db.fidoCountExcept username excludedDeviceID)

def hasLoginWithoutGitHub (userID username : String) : Except SecurityError Bool :=
  if hasOAuthLogin db userID "" then pure true
  else do
    let password ← passwordUsable db userID
    pure (password || (0 < db.fidoCount username && !passkeySecondFactor db userID))

/-- The token is joined by its name as well. -/
def hasPrimaryWithoutFido (userID username : String) : Except SecurityError Bool :=
  if hasOAuthLogin db userID "" then pure true
  else do
    require ((db.profiles.find? userID).map (·.username) = some username) .database
    let password ← passwordUsable db userID
    pure (password || 0 < githubCount db userID)

end Remaining

/-! ### The security row -/

section Security
variable (db : DB)

/-- The row with the policy; a missing one is created. -/
def ensureAccountSecurity (userID : String) (updatedAt : Int) : Except SecurityError DB :=
  match db.security.find? userID with
  | some _ => pure db
  | none => do
    let security ← db.security.insert ⟨userID, none, true, updatedAt⟩ .database
    pure { db with security := security }

/-- `CASE WHEN updated_at >= ? THEN updated_at + 1 ELSE ? END` -/
def nextUpdatedAt (updatedAt now : Int) : Int := if updatedAt ≥ now then updatedAt + 1 else now

/-- `UPDATE user_account_security`, with the next revision. -/
def DB.updateSecurity (userID : String) (now : Int) (f : SecurityRow → SecurityRow)
    (hf : ∀ row, (f row).userID = row.userID) : DB :=
  let security := db.security.update
    (fun row => if row.userID = userID then { f row with updatedAt := nextUpdatedAt row.updatedAt now } else row)
    fun row => by
      split
      · exact hf row
      · rfl
  { db with security := security }

def touchAccountSecurity (userID : String) (now : Int) : Except SecurityError DB := do
  let db ← ensureAccountSecurity db userID now
  pure (db.updateSecurity userID now id fun _ => rfl)

/-- The policy is set, under a new revision. -/
def setPolicy (userID : String) (enabled : Bool) (now : Int) : Except SecurityError DB := do
  let db ← ensureAccountSecurity db userID now
  pure (db.updateSecurity userID now (fun row => { row with passwordLoginEnabled := enabled }) fun _ => rfl)

/-- `UPDATE tokens SET encrypted_secret = ? WHERE name = ?` -/
def DB.setSecret (name passwordHash : String) : DB :=
  let tokens := db.tokens.update (fun t => if t.name = name then { t with encryptedSecret := passwordHash } else t)
    fun t => by split <;> rfl
  { db with tokens := tokens }

end Security

section Password
variable (env : Env) (db : DB)

def setPasswordLoginEnabled (username : String) (enabled : Bool) (updatedAt : Int) : Except SecurityError DB := do
  let username := env.toLower (env.trimSpace username)
  let userID ← userIDForExistingAccount env db username
  lockAccountLoginMethods db userID
  let token ← orError (db.tokens.find? username) .database
  require (¬ (enabled = true ∧ token.encryptedSecret = "")) .passwordNotConfigured
  require (enabled = true ∨ hasExternalLogin db userID username = true) .lastLoginMethod
  setPolicy db userID enabled updatedAt

def validPasswordHash (passwordHash : String) : Bool := passwordHash ≠ "" && passwordHash.utf8ByteSize ≤ 255

def setAccountPassword (username passwordHash : String) (updatedAt : Int) : Except SecurityError DB := do
  let username := env.toLower (env.trimSpace username)
  require (validPasswordHash passwordHash = true) (.invalid "password hash is invalid")
  let userID ← userIDForExistingAccount env db username
  lockAccountLoginMethods db userID
  require (db.tokens.find? username ≠ none) .userProfileNotFound
  setPolicy (db.setSecret username passwordHash) userID true updatedAt

end Password

/-! ### Second factors -/

/-- `core.MFAState` -/
structure MFAState where
  userID : String
  passwordHash : String
  passwordLoginEnabled : Bool
  secret : String
  revision : String
  passkey : Bool
  githubID : Int
  snapshot : String
deriving DecidableEq, Repr

section MFA
variable (env : Env) (db : DB)

def mfaStateQuery (username : String) : Except SecurityError MFAState := do
  let username := env.toLower username
  let p ← orError (profileByName db username) .userProfileNotFound
  let token ← orError (db.tokens.find? username) .userProfileNotFound
  require (token.deletedAt ≤ 0) .accountDeleted
  let enabled := db.passwordLoginEnabled p.userID
  let mfa := db.mfa.find? p.userID
  let revision := (mfa.map (·.revision)).getD ""
  let identity := (db.githubIdentity? p.userID).map (·.githubUserID)
  let fields := [p.userID, token.encryptedSecret, toString (if enabled then 1 else 0),
    toString (db.securityUpdatedAt p.userID), (identity.map toString).getD "", revision, toString token.bannedAt,
    toString (token.bannedUntil.getD 0), toString (token.expiresAt.getD 0)]
  pure {
    userID := p.userID, passwordHash := token.encryptedSecret, passwordLoginEnabled := enabled
    secret := (mfa.map (·.secret)).getD "", revision, passkey := passkeySecondFactor db p.userID
    githubID := identity.getD 0, snapshot := env.sha256 ("\x00".intercalate fields) }

/-- `revision` is the `uuid.NewString()` of the call. -/
def updateMFA (username snapshot secret : String) (passkey : Bool) (lastStep : Int) (keepSession revision : String) :
    Except SecurityError DB := do
  require (secret.utf8ByteSize ≤ 1024 ∧ snapshot.utf8ByteSize = 64) .mfaInvalid
  let username := env.toLower username
  lockAccountByUsername env db username
  let current ← mfaStateQuery env db username
  require (current.snapshot = snapshot) .mfaInvalid
  require (db.sessions.rows.countP (fun s => s.sessionToken = keepSession && s.username = username) = 1) .mfaInvalid
  let primary ← cond passkey (hasPrimaryWithoutFido db current.userID username) (pure true)
  require (passkey = true → 0 < db.fidoCount username ∧ primary = true) .lastLoginMethod
  let mfa ← (db.mfa.delete fun m => m.userID = current.userID).insert
    ⟨current.userID, secret, revision, passkey, lastStep, 0, 0⟩ .database
  pure { db with
    mfa := mfa
    sessions := db.sessions.delete fun s => s.username = username && s.sessionToken ≠ keepSession }

/-- The account behind a session that is not banned, expired or deleted. -/
def accountEmailSession (username session : String) (now : Int) : Except SecurityError MFAState := do
  require (session ≠ "") .emailCodeInvalid
  lockAccountByUsername env db username
  let live (t : TokenRow) : Bool := t.deletedAt = 0 && t.expiresAt.all (now < ·) &&
    (t.bannedAt = 0 || t.bannedUntil.any fun u => 0 < u && u ≤ now)
  require (db.sessions.rows.countP (fun s => s.sessionToken = session && s.username = username &&
    (db.tokens.find? s.username).any live) = 1) .emailCodeInvalid
  mfaStateQuery env db username

end MFA

/-! ### Passkeys -/

section Fido
variable (env : Env) (db : DB)

def saveFidoDevice (device : FidoDevice) : Except SecurityError DB := do
  let username := sanitizeInputString device.username 255
  let id := sanitizeInputString device.id 255
  if username = "" ∨ id = "" then pure db
  else
    let lowerName := env.toLower username
    lockAccountByUsername env db lowerName
    let fidoDevices ← db.fidoDevices.insert ⟨id, lowerName, device.credentialID⟩ .database
    pure { db with fidoDevices := fidoDevices }

def DB.deleteFido (username deviceID : String) : DB :=
  { db with fidoDevices := db.fidoDevices.delete fun d => d.username = username && d.id = deviceID }

def deleteFidoDevice (username deviceID : String) : Except SecurityError DB := do
  let username := sanitizeInputString username 255
  let deviceID := sanitizeInputString deviceID 255
  if username = "" ∨ deviceID = "" then pure db
  else
    let lowerName := env.toLower username
    match profileByName db lowerName with
    | none => pure (db.deleteFido lowerName deviceID)
    | some p => do
      lockAccountLoginMethods db p.userID
      if db.fidoDevices.rows.countP (fun d => d.username = lowerName && d.id = deviceID) = 0 then pure db
      else
        let hasAlternate ← hasLoginWithoutFido db p.userID lowerName deviceID
        require (hasAlternate = true) .lastLoginMethod
        pure (db.deleteFido lowerName deviceID)

end Fido

/-! ### Email addresses -/

structure ProviderEmail where
  email : String
  verified : Bool
deriving DecidableEq, Repr

def maxAccountEmails : Nat := 128

def maxEmailLength : Nat := 254

section Emails
variable (env : Env) (db : DB)

def localCharacter (c : Char) : Bool :=
  'a' ≤ c && c ≤ 'z' || 'A' ≤ c && c ≤ 'Z' || '0' ≤ c && c ≤ '9' || c ∈ "!#$%&'*+-/=?^_`\x7b|\x7d~.".toList

def domainLabel (label : List Char) : Bool :=
  label ≠ [] && label.length ≤ 63 && label.head? ≠ some '-' && label.getLast? ≠ some '-' &&
    label.all fun c => 'a' ≤ c && c ≤ 'z' || '0' ≤ c && c ≤ '9' || c = '-'

/-- `strings.TrimSuffix(s, ".")` -/
def trimDot (s : String) : String :=
  if s.toList.getLast? = some '.' then String.ofList s.toList.dropLast else s

/-- `core.NormalizeEmail`; `none` is an invalid address. -/
def normalizeEmail (value : String) : Option String :=
  let value := env.trimSpace value
  if value = "" then some ""
  else if value.utf8ByteSize > maxEmailLength ∨ value.toList.count '@' ≠ 1 then none
  else
    let localPart := value.toList.takeWhile (· ≠ '@')
    let domain := String.ofList (value.toList.dropWhile (· ≠ '@')).tail
    if localPart = [] ∨ 64 < (String.ofList localPart).utf8ByteSize ∨ domain = "" then none
    else if localPart.head? = some '.' ∨ localPart.getLast? = some '.' ∨ ['.', '.'] <:+: localPart then none
    else if localPart.all localCharacter = false then none
    else match env.toASCII (trimDot (env.toLower domain)) with
      | none => none
      | some asciiDomain =>
        if asciiDomain = "" ∨ 253 < asciiDomain.utf8ByteSize then none
        else if (asciiDomain.toList.splitOn '.').all domainLabel = false then none
        else
          let normalized := env.toLower (String.ofList localPart) ++ "@" ++ asciiDomain
          if normalized.utf8ByteSize ≤ maxEmailLength then some normalized else none

/-- The addresses of the proofs, each once, in order, with whether one of its proofs is verified. -/
def collectEmails : List ProviderEmail → Except SecurityError (List (String × Bool))
  | [] => pure []
  | proof :: rest => do
    let email ← orError ((normalizeEmail env proof.email).filter (· ≠ "")) .emailCodeInvalid
    let others ← collectEmails rest
    let verified := proof.verified || (others.lookup email).getD false
    pure ((email, verified) :: others.filter fun e => e.1 ≠ email)

/-- One address: a new one is inserted, and one that the account has may become retained. -/
def reserveEmail (userID : String) (retained : Bool) (emails : Table EmailAddress.email) (e : String × Bool) :
    Except SecurityError (Table EmailAddress.email) :=
  match emails.find? e.1 with
  | some address => do
    require (address.userID = userID) .emailAlreadyExists
    pure (emails.update (fun a => if a.email = e.1 ∧ retained = true then { a with retained := true } else a)
      fun a => by split <;> rfl)
  | none => do
    require (e.2 = true) .emailVerificationRequired
    emails.insert ⟨e.1, userID, retained⟩ .emailAlreadyExists

/-- `reserveAccountEmailsTx`; the answer says whether a row changed. -/
def reserveAccountEmails (userID : String) (proofs : List ProviderEmail) (retained : Bool) :
    Except SecurityError (Bool × DB) := do
  if proofs = [] then pure (false, db)
  else
    require (proofs.length ≤ maxAccountEmails) .accountEmailLimit
    let collected ← collectEmails env proofs
    let emails ← (collected.mergeSort fun a b => a.1 ≤ b.1).foldlM (reserveEmail userID retained) db.emails
    require (emails.rows.countP (fun a => a.userID = userID) ≤ maxAccountEmails) .accountEmailLimit
    pure (emails.rows ≠ db.emails.rows, { db with emails := emails })

def updateAccountEmailTx (userID email : String) (updatedAt : Int) : Except SecurityError DB := do
  let db := { db with emails := db.emails.delete fun a => a.userID = userID && !a.retained && a.email ≠ email }
  let (_, db) ← cond (email ≠ "") (reserveAccountEmails env db userID [⟨email, true⟩] false) (pure (false, db))
  let db ← ensureAccountSecurity db userID updatedAt
  let value := if email = "" then none else some email
  require (∀ row ∈ db.security.rows, row.userID ≠ userID → row.email = none ∨ row.email ≠ value)
    .emailAlreadyExists
  pure (db.updateSecurity userID updatedAt (fun row => { row with email := value }) fun _ => rfl)

end Emails

/-! ### Linked identities -/

structure GitHubPrincipal where
  kind : String
  githubID : Int
  login : String
deriving DecidableEq, Repr

def githubPrincipalUser : String := "user"

def githubPrincipalOrganization : String := "organization"

def maxGitHubPrincipals : Nat := 1001

/-- `core.OAuthIdentity` -/
structure OAuthIdentity where
  providerID : String
  subject : String
  authority : String
  login : String
  namespaces : List String
  emails : List ProviderEmail
deriving DecidableEq, Repr

section Identities
variable (env : Env) (db : DB)

def validPrincipal (p : GitHubPrincipal) : Bool :=
  (env.toLower (env.trimSpace p.kind) = githubPrincipalUser || env.toLower (env.trimSpace p.kind) =
    githubPrincipalOrganization) && 0 < p.githubID && env.toLower (sanitized env.toText p.login 39) ≠ ""

/-- A new identity is inserted, and one that is bound is refreshed. -/
def bindGitHub (userID : String) (githubUserID : Int) (githubLogin : String) (authorizedAt : Int) (linked : Bool) :
    Except SecurityError DB :=
  if linked then
    let githubIdentities := db.githubIdentities.update
      (fun i => if i.githubUserID = githubUserID ∧ i.userID = userID then
        { i with githubLogin := githubLogin, authorizedAt := authorizedAt } else i) fun i => by split <;> rfl
    pure { db with githubIdentities := githubIdentities }
  else do
    let githubIdentities ← db.githubIdentities.insert ⟨githubUserID, userID, githubLogin, authorizedAt⟩
      .githubIdentityLinked
    pure { db with githubIdentities := githubIdentities }

/-- `storeGitHubIdentityTx`, without the table of principals. -/
def storeGitHubIdentity (userID : String) (githubUserID : Int) (githubLogin : String) (principals : List GitHubPrincipal)
    (authorizedAt : Int) (emails : List ProviderEmail) : Except SecurityError DB := do
  let userID := sanitized env.toText userID 36
  let githubLogin := env.toLower (sanitized env.toText githubLogin 39)
  require (userID ≠ "" ∧ 0 < githubUserID ∧ githubLogin ≠ "" ∧ 0 < authorizedAt ∧ principals ≠ [] ∧
    principals.length ≤ maxGitHubPrincipals) (.invalid "GitHub identity payload is invalid")
  require (db.profiles.find? userID ≠ none) .userProfileNotFound
  lockAccountLoginMethods db userID
  let linked := db.githubIdentities.find? githubUserID
  require (linked.all (fun i => i.userID = userID) = true) .githubIdentityLinked
  require ((db.githubIdentity? userID).all (fun i => i.githubUserID = githubUserID) = true) .githubIdentityLinked
  let (changed, db) ← reserveAccountEmails env db userID emails true
  let db ← cond changed (touchAccountSecurity db userID authorizedAt) (pure db)
  let db ← bindGitHub db userID githubUserID githubLogin authorizedAt linked.isSome
  require (principals.all (validPrincipal env) = true) (.invalid "GitHub principal payload is invalid")
  pure db

def linkGitHubIdentity (username session snapshot : String) (githubUserID : Int) (githubLogin : String)
    (principals : List GitHubPrincipal) (authorizedAt now : Int) (emails : List ProviderEmail) : Except SecurityError DB := do
  let account ← accountEmailSession env db (env.toLower username) session now
  require (snapshot ≠ "" ∧ account.snapshot = snapshot) .mfaInvalid
  storeGitHubIdentity env db account.userID githubUserID githubLogin principals authorizedAt emails

def deleteGitHubIdentity (username : String) : Except SecurityError DB := do
  let username := env.toLower (sanitized env.toText username maxTokenNameLen)
  require (username ≠ "") .githubIdentityNotFound
  let p ← orError (profileByName db username) .githubIdentityNotFound
  require (db.githubIdentity? p.userID ≠ none) .githubIdentityNotFound
  lockAccountLoginMethods db p.userID
  let hasAlternate ← hasLoginWithoutGitHub db p.userID username
  require (hasAlternate = true) .lastLoginMethod
  pure { db with githubIdentities := db.githubIdentities.delete fun i => i.userID = p.userID }

def OAuthIdentity.key (i : OAuthIdentity) : String :=
  env.sha256 (i.providerID ++ "\x00" ++ i.authority ++ "\x00" ++ i.subject)

def hexDigit (c : Char) : Bool := '0' ≤ c && c ≤ '9' || 'a' ≤ c && c ≤ 'f'

/-- `hex.DecodeString` takes both cases, and an even number of digits. -/
def hexString (s : String) : Bool := s.toList.length % 2 = 0 && s.toList.all fun c => hexDigit c || 'A' ≤ c && c ≤ 'F'

def OAuthIdentity.valid (i : OAuthIdentity) : Bool :=
  i.providerID ≠ "" && i.providerID ≠ "github" && i.providerID.utf8ByteSize ≤ 32 && i.authority.utf8ByteSize = 64 &&
  i.subject ≠ "" && i.subject.utf8ByteSize ≤ 255 && i.login.utf8ByteSize ≤ 255 &&
  (i.subject ++ i.login).toList.all (fun c => c ≠ '\x00' && c ≠ '\r' && c ≠ '\n') &&
  i.providerID.toList.all (fun c => 'a' ≤ c && c ≤ 'z' || '0' ≤ c && c ≤ '9' || c = '-' || c = '_') &&
  i.namespaces.length ≤ 1001 && i.emails.length ≤ maxAccountEmails &&
  i.emails.all (fun e => e.email ≠ "" && normalizeEmail env e.email = some e.email) &&
  i.namespaces.all (fun n => n ≠ "" && n.utf8ByteSize ≤ 63 &&
    n.toList.all fun c => c ≠ '\x00' && c ≠ '\r' && c ≠ '\n' && c ≠ '/' && c ≠ '.') &&
  hexString i.authority

def storeOAuthIdentity (userID : String) (identity : OAuthIdentity) (now : Int) : Except SecurityError DB := do
  require (identity.valid env = true ∧ userID ≠ "" ∧ 0 < now) .registrationInvalid
  lockAccountLoginMethods db userID
  let linked := db.oauthIdentities.find? (identity.key env)
  require (linked.all (fun i => i.userID = userID) = true) .oauthIdentityLinked
  let bound := db.oauthIdentities.rows.find? fun i => i.userID = userID && i.providerID = identity.providerID
  require (bound.all (fun i => i.identityHash = identity.key env) = true) .oauthIdentityLinked
  let (_, db) ← reserveAccountEmails env db userID identity.emails true
  if linked.isSome then do
    let db ← touchAccountSecurity db userID now
    let oauthIdentities := db.oauthIdentities.update
      (fun i => if i.identityHash = identity.key env ∧ i.userID = userID then
        { i with login := identity.login, authorizedAt := now } else i) fun i => by split <;> rfl
    pure { db with oauthIdentities := oauthIdentities }
  else do
    require (db.oauthIdentities.rows.countP (fun i => i.userID = userID) < 32) .oauthIdentityLinked
    let oauthIdentities ← db.oauthIdentities.insert ⟨identity.key env, identity.providerID, userID, identity.login, now⟩
      .oauthIdentityLinked
    touchAccountSecurity { db with oauthIdentities := oauthIdentities } userID now

def linkOAuthIdentity (username session snapshot : String) (identity : OAuthIdentity) (now clock : Int) :
    Except SecurityError DB := do
  let account ← accountEmailSession env db (env.toLower username) session clock
  require (snapshot ≠ "" ∧ account.snapshot = snapshot) .mfaInvalid
  storeOAuthIdentity env db account.userID identity now

/-- The passkeys are counted under the name as it was given. -/
def deleteOAuthIdentity (username session provider : String) (now clock : Int) : Except SecurityError DB := do
  let account ← accountEmailSession env db (env.toLower username) session clock
  require (∃ i ∈ db.oauthIdentities.rows, i.userID = account.userID ∧ i.providerID = provider) .oauthIdentityNotFound
  let other := hasOAuthLogin db account.userID provider
  require (other = true ∨ account.githubID ≠ 0 ∨ (account.passwordHash ≠ "" ∧ account.passwordLoginEnabled = true)
    ∨ (account.passkey = false ∧ 0 < db.fidoCount username)) .lastLoginMethod
  let db := { db with
    oauthIdentities := db.oauthIdentities.delete fun i => i.userID = account.userID && i.providerID = provider }
  touchAccountSecurity db account.userID now

end Identities

/-! ### Recovery codes -/

def recoveryCodesRequired : Nat := 4

section Recovery
variable (env : Env) (db : DB)

def validSelectorHash (value : String) : Bool := value.utf8ByteSize = 64 && value.toList.all hexDigit

/-- `resetAccountPasswordTx`: a new password, password login, and no session. -/
def resetAccountPassword (userID username passwordHash : String) (updatedAt : Int) : Except SecurityError DB := do
  require (db.tokens.find? username ≠ none) .recoveryCodesInvalid
  let db ← setPolicy (db.setSecret username passwordHash) userID true updatedAt
  pure { db with sessions := db.sessions.delete fun s => s.username = username }

/-- `accountIdentity`: an account is named by an address or by its name. -/
def accountIdentity (identifier : String) : Except SecurityError Profile :=
  let identifier := env.toLower (env.trimSpace identifier)
  if '@' ∈ identifier.toList then do
    let email ← orError ((normalizeEmail env identifier).filter (· ≠ "")) .recoveryCodesInvalid
    let address ← orError (db.emails.find? email) .recoveryCodesInvalid
    orError (db.profiles.find? address.userID) .recoveryCodesInvalid
  else do
    let identifier := env.toLower (sanitizeInputString identifier maxTokenNameLen)
    require (identifier ≠ "" ∧ identifier.toList.all (fun c => c ≠ '\x00' && c ≠ '\r' && c ≠ '\n') = true)
      .recoveryCodesInvalid
    orError (profileByName db identifier) .recoveryCodesInvalid

def resetPasswordWithRecoveryCodes (identifier : String) (selectorHashes : List String) (passwordHash : String)
    (updatedAt : Int) : Except SecurityError (String × DB) := do
  require (validPasswordHash passwordHash = true) .recoveryCodesInvalid
  require (selectorHashes.length = recoveryCodesRequired ∧ selectorHashes.all validSelectorHash = true ∧
    selectorHashes.Nodup) .recoveryCodesInvalid
  let p ← accountIdentity env db identifier
  let username := env.toLower p.username
  lockAccountLoginMethods db p.userID
  let chosen (c : RecoveryCode) : Bool := c.userID = p.userID && c.usedAt = 0 && c.selectorHash ∈ selectorHashes
  require (db.recoveryCodes.rows.countP chosen = recoveryCodesRequired) .recoveryCodesInvalid
  let recoveryCodes := db.recoveryCodes.update (fun c => if chosen c then { c with usedAt := updatedAt } else c)
    fun c => by split <;> rfl
  let db ← resetAccountPassword { db with recoveryCodes := recoveryCodes } p.userID username passwordHash updatedAt
  pure (username, { db with mfa := db.mfa.delete fun m => m.userID = p.userID })

end Recovery

end Renop.AccountSecurity
