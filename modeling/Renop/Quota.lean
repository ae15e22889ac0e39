import Mathlib.Algebra.GroupWithZero.Nat
import Mathlib.Algebra.Ring.Int.Defs
import Mathlib.Data.List.Basic

/-!
# Publication quota

The tables and calls of `publication_quota.go`. A publication first reserves its cost in the window
that is current then, and later commits or releases the reservation; expired reservations no longer
count when the next one is admitted. Every call but the clean-up holds the global quota lock and makes
its changes in one transaction or one statement, so it is one step and a failed one changes nothing.
The clean-up is two `DELETE`s without that lock, of expired reservations and of windows past the
retention; it is one step here, after which both have run, or the first alone, or neither.

Amounts are `Int64` as in the source, so `+` and `-` wrap; times are Unix milliseconds.
-/

namespace Renop.Quota

inductive Dimension
  | files
  | bytes
  | publications
deriving DecidableEq, Repr

/-- `PublicationQuotaDelta`, `publicationQuotaUsage` and the limits of a policy. -/
structure Amounts where
  files : Int64
  bytes : Int64
  publications : Int64
deriving DecidableEq, Repr

namespace Amounts

def get : Dimension → Amounts → Int64
  | .files, a => a.files
  | .bytes, a => a.bytes
  | .publications, a => a.publications

def zero : Amounts := ⟨0, 0, 0⟩

def add (a b : Amounts) : Amounts := ⟨a.files + b.files, a.bytes + b.bytes, a.publications + b.publications⟩

@[simp] theorem get_zero (d : Dimension) : zero.get d = 0 := by cases d <;> rfl

@[simp] theorem get_add (d : Dimension) (a b : Amounts) : (a.add b).get d = a.get d + b.get d := by cases d <;> rfl

end Amounts

inductive QuotaError
  /-- `core.ErrPublicationQuotaInvalid` -/
  | invalid
  | fileLimit
  | byteLimit
  | countLimit
  /-- `core.ErrPublicationQuotaReservation` -/
  | reservation
  | userProfileNotFound
  | superTeamNotFound
  | databaseUnavailable
  /-- A database call failed. -/
  | database
deriving DecidableEq, Repr

/-! ### Periods -/

inductive Period
  | day
  | week
  | month
  | lifetime
deriving DecidableEq, Repr

def dayMillis : Int := 86400000

/-- The day of the month of a day since 1970-01-01. -/
def dayOfMonth (days : Int) : Int :=
  let z := days + 719468
  let doe := z % 146097
  let yoe := (doe - doe / 1460 + doe / 36524 - doe / 146096) / 365
  let doy := doe - (365 * yoe + yoe / 4 - yoe / 100)
  let mp := (5 * doy + 2) / 153
  doy - (153 * mp + 2) / 5 + 1

/-- The start of `core.PublicationQuotaWindow`. 1970-01-01 was a Thursday. -/
def publicationQuotaWindow (period : Period) (now : Int) : Int :=
  let day := now / dayMillis
  match period with
  | .lifetime => 0
  | .day => day * dayMillis
  | .week => (day - (day + 3) % 7) * dayMillis
  | .month => (day - (dayOfMonth day - 1)) * dayMillis

example : publicationQuotaWindow .week 1760000000000 = 1759708800000 := by decide

/-! ### The tables -/

inductive OwnerType
  | user
  | superTeam
deriving DecidableEq, Repr

/-- A resolved owner: a user id or a team prefix. -/
structure Owner where
  ownerType : OwnerType
  ownerKey : String
deriving DecidableEq, Repr

/-- `PublicationQuotaSubject`, as the caller names it. -/
structure Subject where
  ownerType : String
  ownerKey : String
deriving DecidableEq, Repr

/-- `PublicationQuotaLimits`; a text that is no supported period is `none`. -/
structure Limits where
  limit : Amounts
  period : Option Period
deriving DecidableEq, Repr

/-- A stored override: a negative limit and an empty period inherit the default. -/
structure StoredOverride where
  limit : Amounts
  period : Option Period
  unlimited : Int64
deriving DecidableEq, Repr

structure Profile where
  userId : String
  /-- `token.deleted_at > 0` -/
  deleted : Bool
deriving DecidableEq, Repr

structure Reservation where
  id : String
  owner : Owner
  periodStart : Int
  reserved : Amounts
  expiresAt : Int
deriving DecidableEq, Repr

structure QuotaDB where
  /-- `user_profiles` by username. -/
  profiles : String → Option Profile
  superTeams : String → Bool
  overrides : Owner → Option StoredOverride
  /-- `publication_quota_usage`, keyed by owner and window. -/
  usage : Owner → Int → Option Amounts
  /-- `publication_quota_reservations`, keyed by id. -/
  reservations : List Reservation

/-- The string functions that subjects and ids are normalised with. -/
structure Text where
  toLower : String → String
  trimSpace : String → String
  sanitizeSuperTeamPrefix : String → Option String

/-! ### The calls -/

section Calls
variable (text : Text)

def validatePublicationQuotaLimits (limits : Limits) : Bool :=
  limits.limit.files ≥ 0 && limits.limit.bytes ≥ 0 && limits.limit.publications ≥ 0 && limits.period.isSome

/-- Resolve the owner; a user without a profile gets one, with the new id `userId`. -/
def normalizePublicationQuotaSubject (db : QuotaDB) (subject : Subject) (userId : String) :
    Except QuotaError (Owner × QuotaDB) :=
  let ownerType := text.toLower (text.trimSpace subject.ownerType)
  let ownerKey := text.toLower (text.trimSpace subject.ownerKey)
  if ownerKey = "" then
    .error .invalid
  else if ownerType = "user" then
    match (db.profiles (text.toLower (text.trimSpace ownerKey))).filter fun p => !p.deleted with
    | some profile => .ok (⟨.user, profile.userId⟩, db)
    | none =>
      -- `username` is unique: the name of a deleted account cannot be inserted again
      if db.profiles ownerKey = none then
        .ok (⟨.user, userId⟩, { db with
          profiles := fun name => if name = ownerKey then some ⟨userId, false⟩ else db.profiles name })
      else
        .error .database
  else if ownerType = "super_team" then
    match text.sanitizeSuperTeamPrefix ownerKey with
    | none => .error .superTeamNotFound
    | some pre => if db.superTeams pre then .ok (⟨.superTeam, pre⟩, db) else .error .superTeamNotFound
  else
    .error .invalid

/-- The policy of an owner, and whether it is unlimited. -/
def effectivePublicationQuota (db : QuotaDB) (owner : Owner) (defaults : Limits) :
    Except QuotaError (Limits × Bool) :=
  if validatePublicationQuotaLimits defaults then
    match db.overrides owner with
    | none => .ok (defaults, false)
    | some stored =>
      let pick (own default : Int64) : Int64 := if own ≥ 0 then own else default
      .ok (⟨⟨pick stored.limit.files defaults.limit.files, pick stored.limit.bytes defaults.limit.bytes,
          pick stored.limit.publications defaults.limit.publications⟩, stored.period.or defaults.period⟩,
        stored.unlimited = 1)
  else
    .error .invalid

def QuotaDB.used (db : QuotaDB) (owner : Owner) (periodStart : Int) : Amounts :=
  (db.usage owner periodStart).getD Amounts.zero

/-- The reservations of a window that have not expired. -/
def QuotaDB.active (db : QuotaDB) (owner : Owner) (periodStart now : Int) : List Reservation :=
  db.reservations.filter fun r => r.owner = owner ∧ r.periodStart = periodStart ∧ now < r.expiresAt

/-- `SUM(…)` of one column. -/
def total (rows : List Reservation) (d : Dimension) : Int :=
  (rows.map fun r => (r.reserved.get d).toInt).sum

/-- `Scan` of a sum into an `int64` fails when it does not fit. -/
def scanInt64 (n : Int) : Except QuotaError Int64 :=
  if -2 ^ 63 ≤ n ∧ n < 2 ^ 63 then .ok (Int64.ofInt n) else .error .database

def loadPublicationQuotaReservations (db : QuotaDB) (owner : Owner) (periodStart now : Int) :
    Except QuotaError Amounts := do
  let rows := db.active owner periodStart now
  return ⟨← scanInt64 (total rows .files), ← scanInt64 (total rows .bytes), ← scanInt64 (total rows .publications)⟩

def publicationQuotaExceeded (used reserved requested limit : Int64) : Bool :=
  if used < 0 || reserved < 0 || requested < 0 || limit < 0 || used > limit || reserved > limit - used then
    true
  else
    requested > limit - used - reserved

/-- `PublicationQuotaReservation` -/
structure Claim where
  id : String
  unlimited : Bool
deriving DecidableEq, Repr

/-- The body of `ReservePublicationQuota`; `userId` and `id` are the ids it would create. -/
def reservePublicationQuota (db : QuotaDB) (subject : Subject) (defaults : Limits) (delta : Amounts)
    (now expiresAt : Int) (userId id : String) : Except QuotaError (Claim × QuotaDB) := do
  if now ≤ 0 ∨ expiresAt ≤ now ∨ delta.files < 0 ∨ delta.bytes < 0 ∨ delta.publications < 0 ∨
    delta = Amounts.zero then
    .error .invalid
  let (owner, db') ← normalizePublicationQuotaSubject text db subject userId
  let (limits, unlimited) ← effectivePublicationQuota db' owner defaults
  -- nothing is stored: the transaction is rolled back, with the profile it may have created
  if unlimited then return (⟨"", true⟩, db)
  let period ← match limits.period with
    | none => .error .invalid
    | some period => .ok period
  let start := publicationQuotaWindow period now
  let used := db'.used owner start
  let reserved ← loadPublicationQuotaReservations db' owner start now
  if publicationQuotaExceeded used.files reserved.files delta.files limits.limit.files then
    .error .fileLimit
  if publicationQuotaExceeded used.bytes reserved.bytes delta.bytes limits.limit.bytes then
    .error .byteLimit
  if publicationQuotaExceeded used.publications reserved.publications delta.publications limits.limit.publications then
    .error .countLimit
  if db'.reservations.any (·.id = id) then
    .error .database
  return (⟨id, false⟩, { db' with reservations := ⟨id, owner, start, delta, expiresAt⟩ :: db'.reservations })

/-- `CommitPublicationQuotaReservation` -/
def commitPublicationQuotaReservation (db : QuotaDB) (id : String) (committedAt : Int) : Except QuotaError QuotaDB :=
  if text.trimSpace id = "" ∨ committedAt ≤ 0 then
    .error .invalid
  else
    match db.reservations.find? (·.id = id) with
    | none => .error .reservation
    | some r =>
      let used := db.used r.owner r.periodStart
      if used.files > Int64.maxValue - r.reserved.files ∨ used.bytes > Int64.maxValue - r.reserved.bytes ∨
          used.publications > Int64.maxValue - r.reserved.publications then
        .error .invalid
      else
        let stored := match db.usage r.owner r.periodStart with
          | some _ => used.add r.reserved
          | none => r.reserved
        .ok { db with
          usage := fun o w => if o = r.owner ∧ w = r.periodStart then some stored else db.usage o w
          reservations := db.reservations.filter fun r' => r'.id ≠ id }

def releasePublicationQuotaReservation (db : QuotaDB) (id : String) : QuotaDB :=
  let id := text.trimSpace id
  if id = "" then db else { db with reservations := db.reservations.filter fun r => r.id ≠ id }

/-- `publicationQuotaUsageRetention`, 45 days. -/
def publicationQuotaUsageRetention : Int := 45 * dayMillis

/-- The first `DELETE` of the clean-up. -/
def cleanReservations (db : QuotaDB) (now : Int) : QuotaDB :=
  { db with reservations := db.reservations.filter fun r => now < r.expiresAt }

/-- The second `DELETE` of the clean-up: windows that started before the retention. -/
def cleanUsage (db : QuotaDB) (now : Int) : QuotaDB :=
  { db with usage := fun o w => if 0 < w ∧ w < now - publicationQuotaUsageRetention then none else db.usage o w }

/-! ### Calls as steps -/

inductive Call
  | reserve (subject : Subject) (defaults : Limits) (delta : Amounts) (now expiresAt : Int) (userId id : String)
  | commit (id : String) (committedAt : Int)
  | release (id : String)
  | cleanExpired (now : Int)
deriving DecidableEq, Repr

/-- Which database call of the call fails, if one does: the transactions fail as a whole, the two
deletes of the clean-up one by one. -/
inductive Failure
  | none
  | first
  | second
deriving DecidableEq, Repr

/-- The error a call returns, and the tables after it. -/
def step (db : QuotaDB) (call : Call) (failure : Failure) : Option QuotaError × QuotaDB :=
  match call with
  | .reserve subject defaults delta now expiresAt userId id =>
    if failure = .none then
      match reservePublicationQuota text db subject defaults delta now expiresAt userId id with
      | .ok (_, db') => (none, db')
      | .error e => (some e, db)
    else (some .database, db)
  | .commit id committedAt =>
    if failure = .none then
      match commitPublicationQuotaReservation text db id committedAt with
      | .ok db' => (none, db')
      | .error e => (some e, db)
    else (some .database, db)
  | .release id =>
    if failure = .none then (none, releasePublicationQuotaReservation text db id) else (some .database, db)
  | .cleanExpired now =>
    if now ≤ 0 then (some .databaseUnavailable, db)
    else match failure with
      | .first => (some .database, db)
      | .second => (some .database, cleanReservations db now)
      | .none => (none, cleanUsage (cleanReservations db now) now)

def run (db : QuotaDB) (calls : List (Call × Failure)) : QuotaDB :=
  calls.foldl (fun db c => (step text db c.1 c.2).2) db

end Calls

end Renop.Quota
