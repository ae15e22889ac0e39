import Renop.AccountRights

/-!
# Accounts that come and go

An account ends with `DeleteToken`, and then its name is free, or with `RetireAccount`, and then the name stays reserved.
Rows that are found by a user id cannot come to an account that takes the name later; rows that are found by the name
can. A run is any sequence of the calls here: all other operations are `ensureUserProfile` and writes of rows.
-/

namespace Renop.AccountTables

open Sql
open Renop.Accounts
open Renop.SuperTeam (Text)
open Renop.Cargo (Key Profile sanitized maxTokenNameLen)

/-- A row of `user_api_tokens`. -/
structure APIToken where
  userID : String
  secretHash : String
deriving DecidableEq, Repr

/-- A row of `super_team_invitations`. -/
structure TeamInvitation where
  inviterID : String
  recipientID : String
deriving DecidableEq, Repr

/-- The database with the tables that hold user ids only. -/
structure Site extends Store where
  apiTokens : List APIToken
  teamInvitations : List TeamInvitation

/-- `MavenPermissionOwner`, `CargoPermissionOwner`, `DockerPermissionOwner`, `NPMPermissionOwner` -/
def packagePermissionOwner : Int := 4

namespace Site

def empty : Site where
  tokens := .empty
  profiles := .empty
  rows _ := []
  superTeamMembers := []
  binding _ _ := none
  renameWindow _ := (0, 0)
  apiTokens := []
  teamInvitations := []

section Calls
variable (text : Text) (hash : String → String) (s : Site)

def withStore (r : Except AccountError Store) : Except AccountError Site := r.map fun store => { s with toStore := store }

/-- `migrateLegacySecretsTx` -/
def migrateLegacySecrets (userID : String) (secrets : List String) : Site :=
  { s with apiTokens := secrets.foldl (fun tokens secret =>
      if secret = "" ∨ tokens.any (fun t => t.secretHash = hash secret) = true then tokens else tokens ++
        [⟨userID, hash secret⟩]) s.apiTokens }

/-- `CreateToken`; `secrets` are the legacy secrets that the caller hands over. -/
def createToken (token : Token) (secrets : List String) (newID : String) (now : Int) : Except AccountError Site := do
  let s ← s.withStore (s.withAccounts (Accounts.createToken text s.toAccountDB token newID now))
  pure (s.migrateLegacySecrets hash newID secrets)

/-- What a deletion leaves of a table. -/
def keptRows (name userID : String) : (t : TableName) → List (Row t)
  | .mavenDomainInvitations => (s.rows .mavenDomainInvitations).filter fun r =>
    ¬ (r.names .recipient = name ∨ r.names .inviter = name)
  | .cargoInvitations => (s.rows .cargoInvitations).filter fun r => ¬ (r.names .recipient = name ∨ r.names .inviter = name)
  | .dockerInvitations => (s.rows .dockerInvitations).filter fun r =>
      ¬ (r.names .recipient = name ∨ r.names .inviter = name)
  | .npmInvitations => (s.rows .npmInvitations).filter fun r => ¬ (r.names .recipient = name ∨ r.names .inviter = name)
  | .mavenDomainMembers => (s.rows .mavenDomainMembers).filter fun r => r.data.userID ≠ userID
  | .cargoMembers => (s.rows .cargoMembers).filter fun r => r.data.userID ≠ userID
  | .dockerMembers => (s.rows .dockerMembers).filter fun r => r.data.userID ≠ userID
  | .npmMembers => (s.rows .npmMembers).filter fun r => r.data.userID ≠ userID
  | .fidoDevices => (s.rows .fidoDevices).filter fun r => r.names .username ≠ name
  | .userGPGKeys => (s.rows .userGPGKeys).filter fun r => r.names .username ≠ name
  | .sessions => (s.rows .sessions).filter fun r => r.names .username ≠ name
  | .userMessages => (s.rows .userMessages).filter fun r => r.names .recipient ≠ name
  | .gpgReleases =>
    ((s.rows .gpgReleases).filter fun r => ¬ (r.names .uploader = name ∧ r.data.activeKey = none ∧
      r.data.cleanupPending = false)).map fun r =>
      if r.names .uploader = name ∧ r.data.activeKey ≠ none then { r with data :=
        { r.data with cleanupPending := true, status := "failed" } }
      else r
  | .reviewTasks => (s.rows .reviewTasks).map fun r =>
    if r.data.requestedByID = userID ∧ r.data.status = "pending" ∧ r.data.kind = "super_team_transfer" then
      ⟨Function.update r.names .decidedByName name, { r.data with decidedByID := userID, status := "cancelled" }⟩
    else r
  | t => s.rows t

/-- A package is left without its last owner when the account goes. -/
def solePackageOwner (kind : Kind) (userID : String) : Bool :=
  (s.memberRows kind).any fun m => m.userID = userID && m.permissionLevel = packagePermissionOwner &&
    !(s.memberRows kind).any fun other =>
      other.key = m.key && other.permissionLevel = packagePermissionOwner && other.userID ≠ userID

def soleSuperTeamOwner (userID : String) : Bool :=
  s.superTeamMembers.any fun m => m.userID = userID && m.roleLevel = SuperTeam.superTeamRoleOwner &&
    !s.superTeamMembers.any fun other =>
      other.teamPrefix = m.teamPrefix && other.roleLevel = SuperTeam.superTeamRoleOwner && other.userID ≠ userID

def soleOwner (userID : String) : Bool :=
  s.solePackageOwner .maven userID || s.solePackageOwner .cargo userID || s.solePackageOwner .docker userID ||
    s.solePackageOwner .npm userID || s.soleSuperTeamOwner userID

/-- `DeleteToken` and `RetireAccount`; `eligible` is what the plan of a retirement says. -/
def deleteToken (name : String) (retire : Bool) (retiredAt : Int) (eligible : Bool) : Except AccountError Site := do
  require (¬ (retire = true ∧ retiredAt ≤ 0)) .retirementBusy
  if sanitized text.toText name maxTokenNameLen = "" then pure s
  else
    let name := text.toLower (sanitized text.toText name maxTokenNameLen)
    let (profile, token) ← currentAccount s.toAccountDB name
    require (retire = true → eligible = true) .retirementBusy
    require (retire = true ∨ s.soleOwner profile.userID = false) (.invalid "cannot delete token")
    require (retire = true → token.deletedAt = 0) .accountDeleted
    pure { s with
      toAccountDB := dropAccount s.toAccountDB name retire retiredAt
      rows := s.keptRows name profile.userID
      superTeamMembers := s.superTeamMembers.filter fun m => m.userID ≠ profile.userID
      apiTokens := s.apiTokens.filter fun t => t.userID ≠ profile.userID
      teamInvitations := s.teamInvitations.filter fun i =>
        ¬ (i.inviterID = profile.userID ∨ i.recipientID = profile.userID) }

end Calls

end Site

inductive SiteCall
  | createToken (token : Token) (secrets : List String) (newID : String) (now : Int)
  | saveToken (token : Token) (newID : String) (now : Int)
  | rename (call : RenameCall) (clickHouse : Bool) (refused : TableName × Column → Bool)
  | deleteToken (name : String) (retire : Bool) (retiredAt : Int) (eligible : Bool)
  /-- An operation looks up the id of a user, who gets one with that. -/
  | ensureUserProfile (username newID : String)
  /-- And it writes rows: the tables are then those of `written`, but for the accounts. -/
  | write (written : Site)

namespace SiteCall

section Run
variable (text : Text) (hash : String → String)

def run (s : Site) : SiteCall → Except AccountError Site
  | createToken token secrets newID now => s.createToken text hash token secrets newID now
  | saveToken token newID now => s.withStore (s.withAccounts (Accounts.saveToken text s.toAccountDB token newID now))
  | rename call clickHouse refused => s.withStore (call.run clickHouse refused text s.toStore)
  | deleteToken name retire retiredAt eligible => s.deleteToken text name retire retiredAt eligible
  | ensureUserProfile username newID =>
    s.withStore (s.withAccounts ((Accounts.ensureUserProfile text s.toAccountDB username newID).map (·.2)))
  | write written => pure { written with toAccountDB := s.toAccountDB }

/-- A call that fails is rolled back. -/
def after (s : Site) (call : SiteCall) : Site :=
  match call.run text hash s with
  | .ok s' => s'
  | .error _ => s

end Run

end SiteCall

/-- The states of a run, one call after the other. -/
def Site.afterAll (text : Text) (hash : String → String) (s : Site) (calls : List SiteCall) : Site :=
  calls.foldl (fun s call => call.after text hash s) s

/-! ### What a new account has -/

def dockerPermissionRead : Int := 0

/-- A name that `NormalizeUsername` gives. -/
def Nameable (text : Text) (name : String) : Prop := ∃ raw, normalizeUsername text raw = some name

/-- The columns through which a name gives what is an account's. -/
def claims : List (TableName × Column) :=
  [(.sessions, .username), (.fidoDevices, .username), (.userGPGKeys, .username), (.mavenDomainInvitations, .recipient),
   (.cargoInvitations, .recipient), (.dockerInvitations, .recipient), (.npmInvitations, .recipient)]

/-- What a call must not do. -/
def SiteCall.Orderly (text : Text) (s : Site) : SiteCall → Prop
  | createToken .. | saveToken .. => True
  -- The account's images must not be left with a publisher that is a free name but for case, nor others with the old name.
  | rename call _ _ =>
    ∀ r ∈ s.rows .dockerImages, ∀ name, Nameable text name → name ≠ call.newName text →
      name = call.oldName text ∨ r.names .publisher = call.oldName text ∧ s.tokens.find? name = none →
      text.equalFold (relabel (call.oldName text) (call.newName text) (r.names .publisher)) name = false
  -- No image may have the name of the account for its publisher; the last owner of a package is not deleted.
  | deleteToken name retire _ _ =>
    retire = false → Nameable text (text.toLower (sanitized text.toText name maxTokenNameLen)) →
      (∀ p, profileByName s.toAccountDB (text.toLower (sanitized text.toText name maxTokenNameLen)) = some p →
        s.soleOwner p.userID = false) →
      ∀ r ∈ s.rows .dockerImages, text.equalFold (r.names .publisher)
        (text.toLower (sanitized text.toText name maxTokenNameLen)) = false
  -- The name of nobody must not be looked up.
  | ensureUserProfile username _ =>
    Nameable text (text.toLower (text.trimSpace username)) →
      s.tokens.find? (text.toLower (text.trimSpace username)) ≠ none
  -- No new row may claim anything for a free name.
  | write written => ∀ name, Nameable text name → s.tokens.find? name = none →
    (∀ u ∈ claims, ∀ r ∈ written.rows u.1, r ∉ s.rows u.1 → r.names u.2 ≠ name) ∧
    ∀ r ∈ written.rows .dockerImages, r ∉ s.rows .dockerImages → text.equalFold (r.names .publisher) name = false

end Renop.AccountTables
