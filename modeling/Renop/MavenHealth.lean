import Mathlib.Data.List.Infix
import Renop.SqlTable
import Renop.SuperTeam

/-!
# The security lock of a Maven domain

A health check reads the row of a domain, probes its registry or provider for as long as it takes, and then records
the outcome by an update that compares eight columns with the row it read. A bad outcome locks the domain, reserves it
until a release time and rotates its verification code; an owner who proves control by the new code redeems it.

The module follows one domain, so the statements' `domain = ?` is left out. What the calls ask of other tables is an
`Outside`; the names of a request are taken as the sanitizers leave them.
-/

namespace Renop.MavenHealth

open Sql

inductive HealthError
  | invalid
  | verificationFailed
  | permissionDenied
  | domainNotFound
  | rateLimit
  | resourceLocked
  | domainLocked
  | domainExists
  | domainClosed
  | reviewPending
  | claimReviewInvalid
  | bindingPermission
  | ownershipLimit
deriving DecidableEq, Repr

inductive VerificationType
  | dns
  | github
  | gitlab
  | legacy
  | mirror
deriving DecidableEq, Repr

/-- The statuses of a check; `unset` is the empty column. -/
inductive HealthStatus
  | unset
  | active
  | unavailable
  | hold
  | expired
  | prohibited
deriving DecidableEq, Repr

inductive ClaimStatus
  | unset
  | awaitingVerification
  | pending
  | rejected
deriving DecidableEq, Repr

structure MavenDomainHealth where
  providerType : String := ""
  providerID : String := ""
  status : HealthStatus := .unset
  checkedAt : Int := 0
  nextCheckAt : Int := 0
  expiresAt : Int := 0
  lockedAt : Int := 0
  releaseAt : Int := 0
  lockReason : HealthStatus := .unset
deriving DecidableEq, Repr

structure MavenDomain where
  verificationType : VerificationType
  verificationHost : String
  verificationCode : String
  superTeamPrefix : String := ""
  verified : Bool := false
  createdAt : Int
  verifiedAt : Int := 0
  lastCheckAt : Int := 0
  closedAt : Int := 0
  releaseAt : Int := 0
  claimStatus : ClaimStatus := .unset
  claimVerifiedAt : Int := 0
  health : MavenDomainHealth := {}
deriving DecidableEq, Repr

/-- A row of `maven_domain_members`. -/
structure MavenMember where
  userID : String
  permissionLevel : Int
deriving DecidableEq, Repr

structure State where
  domain : Option MavenDomain
  members : Table MavenMember.userID
  /-- The role of a user in a super team. -/
  teamRole : String → String → Option Int
  /-- `accountEmailSessionTx`: the account of a live session. -/
  account : String → String → Option String
  userIDForUsername : String → Option String

/-- What other tables say while a call runs. -/
structure Outside where
  /-- `ensureMavenDomainAncestorMutableTx` finds a lock. -/
  ancestorLocked : Bool
  /-- A lock of the domain besides the one of its health. -/
  otherLocks : Bool
  /-- The other domains the owner has. -/
  owned : Nat
  /-- `hasPendingMavenDomainReviewTx` -/
  reviewPending : Bool
  /-- `requireSuperTeamRoleTx` accepts a role of manager. -/
  managesTeam : String → String → Bool
  isManager : String → Bool

def mavenPermissionOwner : Int := 4

def mavenDomainReleaseLockMillis : Int := 31 * 24 * 60 * 60 * 1000

def maxMavenDomainsPerOwner : Nat := 64

/-! ### Permissions and locks -/

def validMavenProviderIdentity (verificationType : VerificationType) (health : MavenDomainHealth) : Bool :=
  if verificationType ≠ .github ∧ verificationType ≠ .gitlab then true
  else if health.providerType ≠ "user" ∧ health.providerType ≠ "organization" then false
  else health.providerID.toNat?.any fun id => 0 < id && id < 2 ^ 63 && toString id = health.providerID

def mavenDomainEffectivePermission (s : State) (userID : String) : Except HealthError (Int × Bool) := do
  require (userID ≠ "") .permissionDenied
  let d ← orError s.domain .domainNotFound
  pure (effectiveBoundPermission ((s.members.find? userID).map (·.permissionLevel)) (s.teamRole d.superTeamPrefix userID))

def requireMavenMemberPermission (s : State) (userID : String) (required : Int) : Except HealthError Unit := do
  let (level, member) ← (mavenDomainEffectivePermission s userID).mapError fun _ => .permissionDenied
  require (member ∧ required ≤ level) .permissionDenied

/-- `ensureMavenDomainMutableQuery`: the lock of the health is one of the domain's locks. -/
def MavenDomain.mutable (d : MavenDomain) (out : Outside) : Bool := !out.otherLocks && !(0 < d.health.lockedAt)

def lockMavenDomainRow (s : State) : Except HealthError MavenDomain := orError s.domain .domainNotFound

def lockMavenDomain (out : Outside) (s : State) : Except HealthError MavenDomain := do
  let d ← lockMavenDomainRow s
  require (d.mutable out) .resourceLocked
  pure d

/-! ### Health checks -/

/-- The condition of `ListMavenDomainHealthChecks`. -/
def MavenDomain.due (d : MavenDomain) (now : Int) : Bool :=
  d.closedAt = 0 && (d.verified || 0 < d.health.lockedAt) &&
    (d.verificationType = .dns || d.verificationType = .github || d.verificationType = .gitlab) &&
    d.health.nextCheckAt ≤ now

def listMavenDomainHealthChecks (s : State) (now : Int) : Option MavenDomain := s.domain.filter (·.due now)

/-- The outcome locks a domain that was not locked when it was read. -/
def locks (expected : MavenDomain) (health : MavenDomainHealth) : Bool :=
  expected.health.lockedAt = 0 && health.status ≠ .active && health.status ≠ .unavailable

/-- The row is the one that was read, as far as the update compares them. -/
def unmoved (expected d : MavenDomain) : Bool :=
  d.verificationCode = expected.verificationCode && d.createdAt = expected.createdAt && d.closedAt = 0 &&
    d.health.checkedAt = expected.health.checkedAt && d.health.lockedAt = expected.health.lockedAt &&
    d.health.providerID = expected.health.providerID && d.health.providerType = expected.health.providerType

/-- The columns `RecordMavenDomainHealth` sets. -/
def recorded (expected : MavenDomain) (health : MavenDomainHealth) (releaseAt : Int) (code : String) (d : MavenDomain) :
    MavenDomain :=
  { d with
    verificationCode := if locks expected health then code else expected.verificationCode
    health := { d.health with
      status := health.status
      checkedAt := health.checkedAt
      nextCheckAt := health.nextCheckAt
      expiresAt := if health.expiresAt = 0 then expected.health.expiresAt else health.expiresAt
      lockedAt := if locks expected health then health.checkedAt else expected.health.lockedAt
      releaseAt := if locks expected health then releaseAt else expected.health.releaseAt
      lockReason := if locks expected health then health.status else expected.health.lockReason } }

def recordMavenDomainHealth (expected : MavenDomain) (health : MavenDomainHealth) (releaseAt : Int) (code : String)
    (s : State) : Except HealthError State := do
  require (0 < health.checkedAt ∧ health.checkedAt < health.nextCheckAt) .verificationFailed
  require (health.status ≠ .unset) .verificationFailed
  require (locks expected health → health.checkedAt < releaseAt ∧ code ≠ "" ∧ code ≠ expected.verificationCode ∧
    code.utf8ByteSize ≤ 128) .verificationFailed
  -- A domain that is gone, or a row that has moved, is no error.
  pure { s with domain := s.domain.map fun d => if unmoved expected d then recorded expected health releaseAt code d else d }

/-! ### Redemption -/

def reserveMavenRedemptionAttempt (actor session : String) (checkedAt minimumPrevious : Int) (s : State) :
    Except HealthError State := do
  let userID ← orError (s.account actor session) .permissionDenied
  let d ← lockMavenDomainRow s
  requireMavenMemberPermission s userID mavenPermissionOwner
  require (0 < d.health.lockedAt ∧ d.closedAt = 0 ∧ d.lastCheckAt ≤ minimumPrevious) .rateLimit
  pure { s with domain := some { d with lastCheckAt := checkedAt } }

/-- The columns `RedeemMavenDomain` sets. -/
def redeemed (health : MavenDomainHealth) (d : MavenDomain) : MavenDomain :=
  { d with health :=
    { providerType := health.providerType
      providerID := health.providerID
      status := .active
      checkedAt := health.checkedAt
      nextCheckAt := health.nextCheckAt
      expiresAt := health.expiresAt
      lockedAt := 0
      releaseAt := 0
      lockReason := .unset } }

def redeemMavenDomain (expected : MavenDomain) (health : MavenDomainHealth) (actor session : String) (out : Outside)
    (s : State) : Except HealthError State := do
  require (expected.health.lockedAt ≠ 0 ∧ health.status = .active ∧ 0 < health.checkedAt ∧
    validMavenProviderIdentity expected.verificationType health) .verificationFailed
  require (expected.health.providerID ≠ "" → expected.health.providerID = health.providerID ∧
    expected.health.providerType = health.providerType) .verificationFailed
  let userID ← orError (s.account actor session) .permissionDenied
  let d ← lockMavenDomainRow s
  requireMavenMemberPermission s userID mavenPermissionOwner
  require (!out.ancestorLocked) .resourceLocked
  require (d.verificationCode = expected.verificationCode ∧ d.createdAt = expected.createdAt ∧ d.closedAt = 0 ∧
    d.health.lockedAt = expected.health.lockedAt ∧ d.health.providerID = expected.health.providerID ∧
    d.health.providerType = expected.health.providerType ∧ d.health.checkedAt ≤ health.checkedAt) .verificationFailed
  pure { s with domain := some (redeemed health d) }

/-! ### Ownership -/

/-- A mirrored domain that nobody has claimed. -/
def MavenDomain.mirroredReservation (d : MavenDomain) : Bool :=
  d.verificationType = .mirror && !d.verified && d.closedAt = 0 && d.claimStatus = .unset

/-- A closed or locked domain whose reservation has run out at `now`. -/
def MavenDomain.releasedReservation (d : MavenDomain) (now : Int) : Bool :=
  (0 < d.closedAt && 0 < d.releaseAt && d.releaseAt ≤ now) ||
    (0 < d.health.lockedAt && 0 < d.health.releaseAt && d.health.releaseAt ≤ now)

/-- The row of a new domain, or of one that is claimed again. -/
def MavenDomain.created (domain : MavenDomain) (released : Bool) : MavenDomain :=
  { domain with
    verified := !released && domain.verified
    verifiedAt := if released then 0 else domain.verifiedAt
    lastCheckAt := 0
    closedAt := 0
    releaseAt := 0
    claimStatus := if released then (if domain.verified then .pending else .awaitingVerification) else .unset
    claimVerifiedAt := if released && domain.verified then domain.verifiedAt else 0
    health := { domain.health with lockedAt := 0, releaseAt := 0, lockReason := .unset } }

def createMavenDomain (domain : MavenDomain) (owner : String) (out : Outside) (s : State) : Except HealthError State := do
  require (domain.verificationHost ≠ "" ∧ domain.verificationCode ≠ "" ∧ owner ≠ "") .invalid
  require (domain.verified → validMavenProviderIdentity domain.verificationType domain.health) .verificationFailed
  let ownerID ← orError (s.userIDForUsername owner) .permissionDenied
  require (out.managesTeam domain.superTeamPrefix ownerID) .bindingPermission
  require (!out.ancestorLocked) .resourceLocked
  require (s.domain.isSome → !out.otherLocks) .resourceLocked
  let released := s.domain.any (·.releasedReservation domain.createdAt)
  require (s.domain.all fun d => d.mirroredReservation || released)
    (if s.domain.any fun d => 0 < d.closedAt || 0 < d.health.lockedAt then .domainLocked else .domainExists)
  require (out.owned < maxMavenDomainsPerOwner) .ownershipLimit
  let members ← (s.members.delete fun _ => released).insert ⟨ownerID, mavenPermissionOwner⟩ .invalid
  pure { s with domain := some (domain.created released), members := members }

def closeMavenDomain (actor : String) (administrator : Bool) (closedAt : Int) (out : Outside) (s : State) :
    Except HealthError State := do
  require (actor ≠ "" ∧ 0 < closedAt ∧ closedAt ≤ 2 ^ 63 - 1 - mavenDomainReleaseLockMillis) .permissionDenied
  let d ← lockMavenDomain out s
  require (administrator ∨ (∃ userID ∈ s.userIDForUsername actor,
    (requireMavenMemberPermission s userID mavenPermissionOwner).toBool)) .permissionDenied
  require (d.verificationType ≠ .mirror) .permissionDenied
  require (d.closedAt = 0) .domainClosed
  require (!out.reviewPending) .reviewPending
  pure { s with domain := some { d with
    verified := false
    closedAt := closedAt
    releaseAt := closedAt + mavenDomainReleaseLockMillis
    claimStatus := .unset
    claimVerifiedAt := 0
    lastCheckAt := 0 } }

/-- The columns a fresh proof of ownership sets. -/
def MavenDomain.proved (d : MavenDomain) (health : MavenDomainHealth) : MavenDomain :=
  { d with health := { d.health with
    status := health.status
    checkedAt := health.checkedAt
    nextCheckAt := health.nextCheckAt
    expiresAt := health.expiresAt } }

def markMavenDomainVerified (code : String) (verifiedAt : Int) (health : Option MavenDomainHealth) (out : Outside)
    (s : State) : Except HealthError State := do
  require (0 < verifiedAt) .verificationFailed
  let d ← lockMavenDomain out s
  require (!out.ancestorLocked) .resourceLocked
  require (d.verificationCode = code ∧ !d.verified) .verificationFailed
  require (d.closedAt = 0) .domainClosed
  require (validMavenProviderIdentity d.verificationType (health.getD {}) ∧ ∀ h ∈ health, h.status = .active)
    .verificationFailed
  require (d.claimStatus ≠ .pending) .claimReviewInvalid
  let d := if d.claimStatus = .unset then { d with verified := true, verifiedAt := verifiedAt }
    else { d with claimStatus := .pending, claimVerifiedAt := verifiedAt }
  let d := match health with
    | none => d
    | some health =>
      { d.proved health with health := { (d.proved health).health with
        providerType := health.providerType
        providerID := health.providerID } }
  pure { s with domain := some d }

def reviewMavenDomainClaim (expected : MavenDomain) (health : Option MavenDomainHealth) (actor : String) (approved : Bool)
    (reviewedAt : Int) (out : Outside) (s : State) : Except HealthError State := do
  require (0 < reviewedAt) .claimReviewInvalid
  let actorID ← orError (s.userIDForUsername actor) .permissionDenied
  require (out.isManager actorID) .permissionDenied
  let d ← lockMavenDomain out s
  require (!out.ancestorLocked) .resourceLocked
  require (d.closedAt = 0 ∧ d.claimStatus = .pending) .claimReviewInvalid
  require (approved → ∃ h ∈ health, h.status = .active ∧ 0 < h.checkedAt ∧
    validMavenProviderIdentity expected.verificationType h ∧ (expected.health.providerID ≠ "" →
      expected.health.providerID = h.providerID ∧ expected.health.providerType = h.providerType)) .verificationFailed
  require (d.verificationCode = expected.verificationCode ∧ d.createdAt = expected.createdAt) .claimReviewInvalid
  let d := { d with
    verified := approved
    verifiedAt := if approved then reviewedAt else 0
    claimStatus := if approved then .unset else .rejected }
  pure { s with domain := some (if approved then d.proved (health.getD {}) else d) }

/-! ### What a call leaves of the row -/

/-- The security lock of a domain: what must not move while it lasts. -/
structure SecurityLock where
  code : String
  lockedAt : Int
  releaseAt : Int
  reason : HealthStatus
deriving DecidableEq, Repr

def MavenDomain.lock? (d : MavenDomain) : Option SecurityLock :=
  if 0 < d.health.lockedAt then some ⟨d.verificationCode, d.health.lockedAt, d.health.releaseAt, d.health.lockReason⟩
  else none

@[simp] theorem lock?_eq_none {d : MavenDomain} : d.lock? = none ↔ d.health.lockedAt ≤ 0 := by
  simp [MavenDomain.lock?]

theorem lock?_eq_some {d : MavenDomain} {l : SecurityLock} : d.lock? = some l ↔ 0 < d.health.lockedAt ∧
    l = ⟨d.verificationCode, d.health.lockedAt, d.health.releaseAt, d.health.lockReason⟩ := by
  simp only [MavenDomain.lock?]
  split
  · next hlocked => simp [hlocked, eq_comm]
  · next hlocked => simp [hlocked]

end Renop.MavenHealth
