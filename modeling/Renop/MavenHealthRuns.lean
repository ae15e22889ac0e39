import Renop.MavenHealth
import Mathlib.Logic.Relation

/-!
# Slow probes against the security lock

A probe holds the row it was given and the time of the listing; a redemption holds the row its proof was made for.
Both may come back at any later time, between any calls of others. `NewVerificationCode` never returns a code twice,
so a code names one creation or one lock of the domain.
-/

namespace Renop.MavenHealth

open Sql

structure World where
  state : State
  /-- The rows of running probes, with the times they were listed. -/
  checks : List (MavenDomain × Int)
  /-- The rows that redemptions read for their proofs. -/
  proofs : List MavenDomain
  /-- The codes that have been issued. -/
  codes : List String

inductive Call
  | record (expected : MavenDomain) (health : MavenDomainHealth) (releaseAt : Int) (code : String)
  | reserve (actor session : String) (checkedAt minimumPrevious : Int)
  | redeem (expected : MavenDomain) (health : MavenDomainHealth) (actor session : String)
  | create (domain : MavenDomain) (owner : String)
  | close (actor : String) (administrator : Bool) (closedAt : Int)
  | verify (code : String) (verifiedAt : Int) (health : Option MavenDomainHealth)
  | review (expected : MavenDomain) (health : Option MavenDomainHealth) (actor : String) (approved : Bool) (reviewedAt : Int)

def exec (out : Outside) (s : State) : Call → Except HealthError State
  | .record expected health releaseAt code => recordMavenDomainHealth expected health releaseAt code s
  | .reserve actor session checkedAt minimumPrevious => reserveMavenRedemptionAttempt actor session checkedAt
      minimumPrevious s
  | .redeem expected health actor session => redeemMavenDomain expected health actor session out s
  | .create domain owner => createMavenDomain domain owner out s
  | .close actor administrator closedAt => closeMavenDomain actor administrator closedAt out s
  | .verify code verifiedAt health => markMavenDomainVerified code verifiedAt health out s
  | .review expected health actor approved reviewedAt => reviewMavenDomainClaim expected health actor approved
      reviewedAt out s

/-- A check that came back sets its times, and so does a redemption, a proof and a review. -/
def Timed (health : MavenDomainHealth) : Prop := health.checkedAt < health.nextCheckAt

/-- What the handlers see to before they call. -/
def Permitted (w : World) : Call → Prop
  | .record expected health _ code =>
    (∃ listedAt, (expected, listedAt) ∈ w.checks ∧ listedAt ≤ health.checkedAt) ∧ (code = "" ∨ code ∉ w.codes)
  | .redeem expected health _ _ => expected ∈ w.proofs ∧ Timed health
  | .create domain _ => domain.verificationCode ∉ w.codes ∧ (domain.health = {} ∨ Timed domain.health)
  | .verify _ _ health => ∀ h ∈ health, Timed h
  | .review _ health _ _ _ => ∀ h ∈ health, Timed h
  | _ => True

def Call.issued : Call → List String
  | .record _ _ _ code => [code]
  | .create domain _ => [domain.verificationCode]
  | _ => []

/-- A call that fails is rolled back. -/
def State.after (s : State) : Except HealthError State → State
  | .ok s' => s'
  | .error _ => s

inductive Step : World → Option Call → World → Prop
  | list {w : World} {now : Int} {d : MavenDomain} (h : listMavenDomainHealthChecks w.state now = some d) :
    Step w none { w with checks := (d, now) :: w.checks }
  | details {w : World} {d : MavenDomain} (h : w.state.domain = some d) : Step w none { w with proofs := d :: w.proofs }
  -- Teams and accounts change as they like, and so do the columns of the row that they and rate limits keep.
  | change {w : World} (members : Table MavenMember.userID) (teamRole : String → String → Option Int)
      (account : String → String → Option String) (userIDForUsername : String → Option String)
        (superTeamPrefix : String)
      (lastCheckAt : Int) :
    Step w none { w with state :=
      { domain := w.state.domain.map fun d => { d with superTeamPrefix := superTeamPrefix, lastCheckAt := lastCheckAt }
        members := members
        teamRole := teamRole
        account := account
        userIDForUsername := userIDForUsername } }
  | call {w : World} (out : Outside) (c : Call) (h : Permitted w c) :
    Step w (some c) { w with state := w.state.after (exec out w.state c), codes := c.issued ++ w.codes }

def Run : World → World → Prop := Relation.ReflTransGen fun w w' => ∃ c, Step w c w'

/-- No check or redemption is running, and the row, if there is one, has never been checked. -/
structure Started (w : World) : Prop where
  checks : w.checks = []
  proofs : w.proofs = []
  row : ∀ d, w.state.domain = some d → d.verificationCode ∈ w.codes ∧ d.health = {} ∧ d.claimStatus = .unset

def World.lock? (w : World) : Option SecurityLock := w.state.domain.bind (·.lock?)

/-! ### What a row and a row read earlier agree on -/

/-- A locked domain is verified and open, a check is due only after the one before it, and a pending claim is not verified. -/
structure Sound (d : MavenDomain) : Prop where
  locked : 0 ≤ d.health.lockedAt
  verified : 0 < d.health.lockedAt → d.verified = true ∧ d.closedAt = 0
  due : d.health.checkedAt < d.health.nextCheckAt ∨ d.health.checkedAt ≤ 0
  claim : d.claimStatus = .pending → d.verified = false

/-- `d` is the row that was read as `e`, under the same code: the lock that was seen is there or has been redeemed. -/
def KeepsLock (e d : MavenDomain) : Prop := d.lock? = none ∨ d.lock? = e.lock?

/-- `d` is the row that was listed as `e`, under the same code. -/
structure Follows (e d : MavenDomain) : Prop where
  lock : KeepsLock e d
  verified : d.verified = true ∨ d.closedAt ≠ 0
  checkedAt : e.health.checkedAt ≤ d.health.checkedAt

/-- The row has been checked, locked, redeemed or created again since it was read as `e`. -/
def Stale (e d : MavenDomain) : Prop :=
  d.verificationCode ≠ e.verificationCode ∨ e.health.checkedAt < d.health.checkedAt ∨ e.lock? ≠ none ∧
    d.lock? = none

structure Inv (w : World) : Prop where
  known : ∀ d, w.state.domain = some d → d.verificationCode ∈ w.codes
  sound : ∀ d, w.state.domain = some d → Sound d
  listed : ∀ p ∈ w.checks, p.1.verificationCode ∈ w.codes ∧ Sound p.1 ∧ p.1.health.nextCheckAt ≤ p.2
  read : ∀ e ∈ w.proofs, e.verificationCode ∈ w.codes
  follows : ∀ p ∈ w.checks, ∀ d, w.state.domain = some d → d.verificationCode = p.1.verificationCode → Follows p.1 d
  keeps : ∀ e ∈ w.proofs, ∀ d, w.state.domain = some d → d.verificationCode = e.verificationCode → KeepsLock e d

/-- What a call may do to the row: it keeps the code and moves the row on, or it issues a new one. -/
structure Moves (d d' : MavenDomain) : Prop where
  code : d'.verificationCode = d.verificationCode
  lock : d'.lock? = none ∨ d'.lock? = d.lock?
  verified : d.verified = true ∨ d.closedAt ≠ 0 → d'.verified = true ∨ d'.closedAt ≠ 0
  -- A row that has been listed under this code is verified or closed.
  checkedAt : d.verified = true ∨ d.closedAt ≠ 0 → d.health.checkedAt ≤ d'.health.checkedAt

theorem Moves.refl (d : MavenDomain) : Moves d d := ⟨rfl, .inr rfl, id, fun _ => le_rfl⟩

/-- The calls that check, lock or redeem a domain, or create it again. -/
def Call.renews : Call → Bool
  | .record .. => true
  | .redeem .. => true
  | .create .. => true
  | _ => false

/-- A current owner redeems the domain by a proof of the code its lock was issued with. -/
def Redeems (w : World) (l : SecurityLock) (c : Call) : Prop :=
  ∃ expected health actor session userID, c = .redeem expected health actor session ∧
    w.state.account actor session = some userID ∧
    requireMavenMemberPermission w.state userID mavenPermissionOwner = .ok () ∧ expected.verificationCode = l.code

/-- Somebody claims the domain after the lock has reserved it. -/
def Reclaims (l : SecurityLock) (c : Call) : Prop :=
  ∃ domain owner, c = .create domain owner ∧ 0 < l.releaseAt ∧ l.releaseAt ≤ domain.createdAt

/-- A check locks the domain, with a code that has never been issued. -/
def Issues (w : World) (l : SecurityLock) (c : Call) : Prop :=
  ∃ expected health releaseAt code, c = .record expected health releaseAt code ∧ code ∉ w.codes ∧
    l = ⟨code, health.checkedAt, releaseAt, health.status⟩

/-- What a call that succeeds does to the row. -/
inductive Effect (w : World) (c : Call) : Option MavenDomain → MavenDomain → Prop
  | untouched {d : MavenDomain} : Effect w c (some d) d
  | keeps {d d' : MavenDomain} (hc : c.renews = false) (hmoves : Moves d d') (hlock : d'.lock? = d.lock?) :
    Effect w c (some d) d'
  | checks {d d' : MavenDomain} (hmoves : Moves d d') (hlock : d'.lock? = d.lock?)
      (hchecked : d.health.checkedAt < d'.health.checkedAt) : Effect w c (some d) d'
  | locks {d d' : MavenDomain} {l : SecurityLock} (hissues : Issues w l c) (hd : d.lock? = none) (hlock : d'.lock? = some l)
      (hcode : d'.verificationCode = l.code) : Effect w c (some d) d'
  | redeems {d d' : MavenDomain} {l : SecurityLock} (hmoves : Moves d d') (hl : d.lock? = some l) (hlock : d'.lock? = none)
      (hc : Redeems w l c) : Effect w c (some d) d'
  | creates {o : Option MavenDomain} {d' : MavenDomain} (hlock : d'.lock? = none) (hissued : d'.verificationCode ∈ c.issued)
      (hfresh : d'.verificationCode ∉ w.codes)
      (hc : ∀ d l, o = some d → d.lock? = some l → Reclaims l c) : Effect w c o d'

/-! ### One call -/

variable {w w' : World} {d d' e : MavenDomain} {s s' : State} {out : Outside} {l : SecurityLock} {c : Call}

theorem Issues.code (h : Issues w l c) : l.code ∈ c.issued ∧ l.code ∉ w.codes := by
  obtain ⟨expected, health, releaseAt, code, rfl, hfresh, rfl⟩ := h
  exact ⟨List.mem_singleton_self code, hfresh⟩

theorem lockMavenDomain_ok (h : lockMavenDomain out s = .ok d) : s.domain = some d ∧ d.health.lockedAt ≤ 0 := by
  obtain ⟨d₁, h₁, h⟩ := bind_ok.1 h
  obtain ⟨hmut, h⟩ := require_bind_ok.1 h
  cases h
  simp only [MavenDomain.mutable, Bool.and_eq_true, Bool.not_eq_true', decide_eq_false_iff_not, not_lt] at hmut
  exact ⟨orError_ok.1 h₁, hmut.2⟩

theorem lock?_congr (hcode : d'.verificationCode = d.verificationCode) (hlocked : d'.health.lockedAt = d.health.lockedAt)
    (hrelease : d'.health.releaseAt = d.health.releaseAt) (hreason : d'.health.lockReason = d.health.lockReason) :
    d'.lock? = d.lock? := by
  simp only [MavenDomain.lock?, hcode, hlocked, hrelease, hreason]

theorem unmoved_iff {expected : MavenDomain} : unmoved expected d = true ↔
    d.verificationCode = expected.verificationCode ∧ d.createdAt = expected.createdAt ∧ d.closedAt = 0 ∧
    d.health.checkedAt = expected.health.checkedAt ∧ d.health.lockedAt = expected.health.lockedAt ∧
    d.health.providerID = expected.health.providerID ∧ d.health.providerType = expected.health.providerType := by
  simp [unmoved, and_assoc]

/-- A check either does not find the row it read, or records a later one, or locks the domain. -/
theorem record_effect (hi : Inv w) {expected : MavenDomain} {health : MavenDomainHealth} {releaseAt : Int} {code : String}
    (hp : Permitted w (.record expected health releaseAt code)) (hd : w.state.domain = some d)
    (h : recordMavenDomainHealth expected health releaseAt code w.state = .ok s') :
    ∃ d', s'.domain = some d' ∧ Sound d' ∧ Effect w (.record expected health releaseAt code) (some d) d' := by
  obtain ⟨⟨hchecked, hnext⟩, h⟩ := require_bind_ok.1 h
  obtain ⟨hstatus, h⟩ := require_bind_ok.1 h
  obtain ⟨hlocks, h⟩ := require_bind_ok.1 h
  cases h
  obtain ⟨⟨listedAt, hmem, hlisted⟩, hcode⟩ := hp
  refine ⟨if unmoved expected d then recorded expected health releaseAt code d else d, by simp [hd], ?_⟩
  split
  · next hsame =>
    obtain ⟨hsame, -, hclosed, hcheckedAt, hlockedAt, -, -⟩ := unmoved_iff.1 hsame
    have hsound := hi.sound d hd
    have hfollows := hi.follows _ hmem d hd hsame
    -- The row was due when it was listed, so this check is a later one.
    have hlater : d.health.checkedAt < health.checkedAt := by
      obtain ⟨-, hread, hdue⟩ := hi.listed _ hmem
      dsimp only at hread hdue
      have := hread.due
      omega
    by_cases hlock : locks expected health = true
    · -- The domain is locked under a new code.
      obtain ⟨hrelease, hempty, hrotated, -⟩ := hlocks hlock
      have hfresh : code ∉ w.codes := hcode.resolve_left hempty
      have hnone : d.lock? = none := by
        simp only [locks, Bool.and_eq_true, decide_eq_true_eq] at hlock
        rw [lock?_eq_none]
        omega
      refine ⟨⟨?_, ?_, .inl hnext, hsound.claim⟩, .locks (l := ⟨code, health.checkedAt, releaseAt, health.status⟩)
        ?_ hnone ?_ ?_⟩
      · simp only [recorded, hlock, if_true]
        omega
      · intro
        exact ⟨hfollows.verified.resolve_right (not_not.2 hclosed), hclosed⟩
      · exact ⟨expected, health, releaseAt, code, rfl, hfresh, rfl⟩
      · rw [lock?_eq_some]
        simp only [recorded, hlock, if_true]
        exact ⟨hchecked, trivial⟩
      · simp [recorded, hlock]
    · have hkeep : (recorded expected health releaseAt code d).lock? = d.lock? := by
        -- The outcome is recorded with the lock the probe saw, which is the lock of the row.
        rcases hfollows.lock with hnone | hsome
        · rw [hnone]
          rw [lock?_eq_none] at hnone ⊢
          simp only [recorded, hlock]
          simp only [Bool.false_eq_true, if_false]
          omega
        · rw [hsome]
          simp only [MavenDomain.lock?, recorded, hlock]
          simp only [Bool.false_eq_true, if_false]
      refine ⟨⟨?_, ?_, .inl hnext, hsound.claim⟩, .checks ⟨?_, .inr hkeep, id, fun _ => ?_⟩ hkeep hlater⟩
      · simp only [recorded, hlock, Bool.false_eq_true, if_false]
        exact hlockedAt ▸ hsound.locked
      · simp only [recorded, hlock, Bool.false_eq_true, if_false]
        intro hpos
        exact hsound.verified (hlockedAt ▸ hpos)
      · simp only [recorded, hlock, Bool.false_eq_true, if_false]
        exact hsame.symm
      · exact hlater.le
  · exact ⟨hi.sound d hd, .untouched⟩

theorem reserve_effect (hi : Inv w) {actor session : String} {checkedAt minimumPrevious : Int}
    (h : reserveMavenRedemptionAttempt actor session checkedAt minimumPrevious w.state = .ok s') :
    ∃ d, w.state.domain = some d ∧ ∃ d', s'.domain = some d' ∧ Sound d' ∧
      Effect w (.reserve actor session checkedAt minimumPrevious) (some d) d' := by
  obtain ⟨userID, -, h⟩ := bind_ok.1 h
  obtain ⟨d, hd, h⟩ := bind_ok.1 h
  obtain ⟨-, -, h⟩ := bind_ok.1 h
  obtain ⟨-, h⟩ := require_bind_ok.1 h
  cases h
  have hd : w.state.domain = some d := orError_ok.1 hd
  have hsound := hi.sound d hd
  exact ⟨d, hd, _, rfl, ⟨hsound.locked, hsound.verified, hsound.due, hsound.claim⟩,
    .keeps rfl ⟨rfl, .inr rfl, id, fun _ => le_rfl⟩ rfl⟩

theorem redeem_effect (hi : Inv w) {expected : MavenDomain} {health : MavenDomainHealth} {actor session : String}
    (hp : Permitted w (.redeem expected health actor session))
    (h : redeemMavenDomain expected health actor session out w.state = .ok s') :
    ∃ d, w.state.domain = some d ∧ ∃ d', s'.domain = some d' ∧ Sound d' ∧
      Effect w (.redeem expected health actor session) (some d) d' := by
  obtain ⟨⟨hlocked, -⟩, h⟩ := require_bind_ok.1 h
  obtain ⟨-, h⟩ := require_bind_ok.1 h
  obtain ⟨userID, huser, h⟩ := bind_ok.1 h
  obtain ⟨d, hd, h⟩ := bind_ok.1 h
  obtain ⟨_, howner, h⟩ := bind_ok.1 h
  obtain ⟨-, h⟩ := require_bind_ok.1 h
  obtain ⟨⟨hcode, -, hclosed, hlockedAt, -, -, hchecked⟩, h⟩ := require_bind_ok.1 h
  cases h
  have hd : w.state.domain = some d := orError_ok.1 hd
  have hpos : 0 < d.health.lockedAt := by
    have := (hi.sound d hd).locked
    omega
  refine ⟨d, hd, _, rfl, ⟨le_rfl, fun h => absurd h (lt_irrefl 0), .inl hp.2, (hi.sound d hd).claim⟩,
    .redeems ⟨rfl, .inl rfl, id, fun _ => hchecked⟩ (lock?_eq_some.2 ⟨hpos, rfl⟩) rfl ?_⟩
  exact ⟨expected, health, actor, session, userID, rfl, orError_ok.1 huser, howner, hcode.symm⟩

theorem create_effect (hi : Inv w) {domain : MavenDomain} {owner : String} (hp : Permitted w (.create domain owner))
    (h : createMavenDomain domain owner out w.state = .ok s') :
    ∃ d', s'.domain = some d' ∧ Sound d' ∧ Effect w (.create domain owner) w.state.domain d' := by
  obtain ⟨-, h⟩ := require_bind_ok.1 h
  obtain ⟨-, h⟩ := require_bind_ok.1 h
  obtain ⟨ownerID, -, h⟩ := bind_ok.1 h
  obtain ⟨-, h⟩ := require_bind_ok.1 h
  obtain ⟨-, h⟩ := require_bind_ok.1 h
  obtain ⟨-, h⟩ := require_bind_ok.1 h
  obtain ⟨hreserved, h⟩ := require_bind_ok.1 h
  obtain ⟨-, h⟩ := require_bind_ok.1 h
  obtain ⟨members, -, h⟩ := bind_ok.1 h
  cases h
  refine ⟨_, rfl, ⟨le_rfl, fun h => absurd h (lt_irrefl 0), ?_, ?_⟩, .creates rfl (List.mem_singleton_self _) hp.1 ?_⟩
  · rcases hp.2 with hnew | htimed
    · right
      simp [MavenDomain.created, hnew]
    · exact .inl htimed
  · simp only [MavenDomain.created]
    split
    · next hreleased => simp [hreleased]
    · simp
  · -- A locked domain is verified and open, so only the end of its reservation releases it.
    intro d l hd hl
    obtain ⟨hpos, rfl⟩ := lock?_eq_some.1 hl
    obtain ⟨hverified, hclosed⟩ := (hi.sound d hd).verified hpos
    simp only [hd, Option.all_some, Option.any_some, Bool.or_eq_true] at hreserved
    rcases hreserved with hmirror | hreleased
    · simp [MavenDomain.mirroredReservation, hverified] at hmirror
    · simp only [MavenDomain.releasedReservation, hclosed, lt_irrefl, decide_false, Bool.false_and, Bool.false_or,
        Bool.and_eq_true, decide_eq_true_eq] at hreleased
      exact ⟨domain, owner, rfl, hreleased.1.2, hreleased.2⟩

theorem close_effect (hi : Inv w) {actor : String} {administrator : Bool} {closedAt : Int}
    (h : closeMavenDomain actor administrator closedAt out w.state = .ok s') :
    ∃ d, w.state.domain = some d ∧ ∃ d', s'.domain = some d' ∧ Sound d' ∧
      Effect w (.close actor administrator closedAt) (some d) d' := by
  obtain ⟨⟨-, hpos, -⟩, h⟩ := require_bind_ok.1 h
  obtain ⟨d, hd, h⟩ := bind_ok.1 h
  obtain ⟨-, h⟩ := require_bind_ok.1 h
  obtain ⟨-, h⟩ := require_bind_ok.1 h
  obtain ⟨-, h⟩ := require_bind_ok.1 h
  obtain ⟨-, h⟩ := require_bind_ok.1 h
  cases h
  obtain ⟨hd, hunlocked⟩ := lockMavenDomain_ok hd
  have hsound := hi.sound d hd
  refine ⟨d, hd, _, rfl, ⟨hsound.locked, fun hlocked => ?_, hsound.due, fun _ => rfl⟩,
    .keeps rfl ⟨rfl, .inr rfl, fun _ => .inr ?_, fun _ => le_rfl⟩ rfl⟩
  · exact absurd hlocked (not_lt.2 hunlocked)
  · exact hpos.ne'

theorem claim_effect (hi : Inv w) (hd : w.state.domain = some d) (hc : c.renews = false) (hunlocked : d.health.lockedAt ≤ 0)
    (hverified : d.verified = false) (hclosed : d.closedAt = 0) (hcode : d'.verificationCode = d.verificationCode)
    (hlocked : d'.health.lockedAt = d.health.lockedAt)
    (hdue : d'.health.checkedAt < d'.health.nextCheckAt ∨ d'.health.checkedAt ≤ 0)
    (hclaim : d'.claimStatus = .pending → d'.verified = false) : Sound d' ∧ Effect w c (some d) d' := by
  have hunknown : ¬ (d.verified = true ∨ d.closedAt ≠ 0) := by simp [hverified, hclosed]
  have hlock : d'.lock? = d.lock? := by
    rw [lock?_eq_none.2 hunlocked, lock?_eq_none.2 (hlocked ▸ hunlocked)]
  refine ⟨⟨hlocked ▸ (hi.sound d hd).locked, fun hpos => ?_, hdue, hclaim⟩,
    .keeps hc ⟨hcode, .inr hlock, fun h => absurd h hunknown, fun h => absurd h hunknown⟩ hlock⟩
  omega

theorem verify_effect (hi : Inv w) {code : String} {verifiedAt : Int} {health : Option MavenDomainHealth}
    (hp : Permitted w (.verify code verifiedAt health))
    (h : markMavenDomainVerified code verifiedAt health out w.state = .ok s') :
    ∃ d, w.state.domain = some d ∧ ∃ d', s'.domain = some d' ∧ Sound d' ∧
      Effect w (.verify code verifiedAt health) (some d) d' := by
  obtain ⟨-, h⟩ := require_bind_ok.1 h
  obtain ⟨d, hd, h⟩ := bind_ok.1 h
  obtain ⟨-, h⟩ := require_bind_ok.1 h
  obtain ⟨⟨-, hverified⟩, h⟩ := require_bind_ok.1 h
  obtain ⟨hclosed, h⟩ := require_bind_ok.1 h
  obtain ⟨-, h⟩ := require_bind_ok.1 h
  obtain ⟨-, h⟩ := require_bind_ok.1 h
  cases h
  obtain ⟨hd, hunlocked⟩ := lockMavenDomain_ok hd
  have hverified : d.verified = false := by simpa using hverified
  refine ⟨d, hd, _, rfl, claim_effect hi hd rfl hunlocked hverified hclosed ?_ ?_ ?_ ?_⟩
  all_goals by_cases hclaim : d.claimStatus = .unset
  all_goals simp only [hclaim, if_true, if_false]
  all_goals cases health with
    | none => simp [hverified, (hi.sound d hd).due]
    | some health =>
      have htimed : Timed health := hp health rfl
      simp only [Timed] at htimed
      simp [MavenDomain.proved, hverified, htimed]

theorem review_effect (hi : Inv w) {expected : MavenDomain} {health : Option MavenDomainHealth} {actor : String}
    {approved : Bool} {reviewedAt : Int} (hp : Permitted w (.review expected health actor approved reviewedAt))
    (h : reviewMavenDomainClaim expected health actor approved reviewedAt out w.state = .ok s') :
    ∃ d, w.state.domain = some d ∧ ∃ d', s'.domain = some d' ∧ Sound d' ∧
      Effect w (.review expected health actor approved reviewedAt) (some d) d' := by
  obtain ⟨-, h⟩ := require_bind_ok.1 h
  obtain ⟨actorID, -, h⟩ := bind_ok.1 h
  obtain ⟨-, h⟩ := require_bind_ok.1 h
  obtain ⟨d, hd, h⟩ := bind_ok.1 h
  obtain ⟨-, h⟩ := require_bind_ok.1 h
  obtain ⟨⟨hclosed, hclaim⟩, h⟩ := require_bind_ok.1 h
  obtain ⟨happroved, h⟩ := require_bind_ok.1 h
  obtain ⟨-, h⟩ := require_bind_ok.1 h
  cases h
  obtain ⟨hd, hunlocked⟩ := lockMavenDomain_ok hd
  have hsound := hi.sound d hd
  refine ⟨d, hd, _, rfl, claim_effect hi hd rfl hunlocked (hsound.claim hclaim) hclosed ?_ ?_ ?_ ?_⟩
  all_goals cases approved with
    | false => simp [hsound.due]
    | true =>
      obtain ⟨health, hhealth, -⟩ := happroved rfl
      obtain rfl := Option.mem_def.1 hhealth
      have htimed : Timed health := hp health rfl
      simp only [Timed] at htimed
      simp [MavenDomain.proved, htimed]

theorem exec_effect (hi : Inv w) (hp : Permitted w c) (h : exec out w.state c = .ok s') :
    (w.state.domain = none ∧ s'.domain = none) ∨
    ∃ d', s'.domain = some d' ∧ Sound d' ∧ Effect w c w.state.domain d' := by
  have known : (∃ d, w.state.domain = some d ∧ ∃ d', s'.domain = some d' ∧ Sound d' ∧ Effect w c (some d) d') →
      ∃ d', s'.domain = some d' ∧ Sound d' ∧ Effect w c w.state.domain d' := by
    rintro ⟨d, hd, h⟩
    exact hd ▸ h
  cases c with
  | record expected health releaseAt code =>
    cases hd : w.state.domain with
    | none =>
      obtain ⟨-, h⟩ := require_bind_ok.1 h
      obtain ⟨-, h⟩ := require_bind_ok.1 h
      obtain ⟨-, h⟩ := require_bind_ok.1 h
      cases h
      exact .inl ⟨rfl, by simp [hd]⟩
    | some d => exact .inr (record_effect hi hp hd h)
  | reserve actor session checkedAt minimumPrevious => exact .inr (known (reserve_effect hi h))
  | redeem expected health actor session => exact .inr (known (redeem_effect hi hp h))
  | create domain owner => exact .inr (create_effect hi hp h)
  | close actor administrator closedAt => exact .inr (known (close_effect hi h))
  | verify code verifiedAt health => exact .inr (known (verify_effect hi hp h))
  | review expected health actor approved reviewedAt => exact .inr (known (review_effect hi hp h))

theorem Effect.moves {o : Option MavenDomain} (h : Effect w c o d') :
    (∃ d, o = some d ∧ Moves d d') ∨ d'.verificationCode ∈ c.issued ∧ d'.verificationCode ∉ w.codes := by
  cases h with
  | untouched => exact .inl ⟨_, rfl, .refl _⟩
  | keeps hc hmoves hlock => exact .inl ⟨_, rfl, hmoves⟩
  | checks hmoves hlock hchecked => exact .inl ⟨_, rfl, hmoves⟩
  | locks hissues hd hlock hcode =>
    have hnew := hissues.code
    exact .inr (hcode ▸ hnew)
  | redeems hmoves hl hlock hc => exact .inl ⟨_, rfl, hmoves⟩
  | creates hlock hissued hfresh hc => exact .inr ⟨hissued, hfresh⟩

/-! ### Runs -/

theorem KeepsLock.moves (h : KeepsLock e d) (hmoves : Moves d d') : KeepsLock e d' := by
  rcases hmoves.lock with hnone | hsame
  · exact .inl hnone
  · exact h.imp (hsame.trans ·) (hsame.trans ·)

theorem Follows.moves (h : Follows e d) (hmoves : Moves d d') : Follows e d' :=
  ⟨h.lock.moves hmoves, hmoves.verified h.verified, h.checkedAt.trans (hmoves.checkedAt h.verified)⟩

theorem Follows.refl (hsound : Sound d) (h : d.verified = true ∨ 0 < d.health.lockedAt) : Follows d d :=
  ⟨.inr rfl, .inl (h.elim id fun hlocked => (hsound.verified hlocked).1), le_rfl⟩

theorem Inv.row (hi : Inv w) {codes : List String} (hsound : ∀ d', s'.domain = some d' → Sound d')
    (h : ∀ d', s'.domain = some d' → (∃ d, w.state.domain = some d ∧ Moves d d') ∨
      d'.verificationCode ∈ codes ∧ d'.verificationCode ∉ w.codes) :
    Inv { w with state := s', codes := codes ++ w.codes } := by
  have old {e : MavenDomain} (he : e.verificationCode ∈ w.codes) {d' : MavenDomain} (hd' : s'.domain = some d')
      (hcode : d'.verificationCode = e.verificationCode) :
      ∃ d, w.state.domain = some d ∧ Moves d d' ∧ d.verificationCode = e.verificationCode := by
    rcases h d' hd' with ⟨d, hd, hmoves⟩ | ⟨-, hfresh⟩
    · exact ⟨d, hd, hmoves, hmoves.code.symm.trans hcode⟩
    · exact absurd (hcode ▸ he) hfresh
  refine ⟨fun d' hd' => ?_, hsound, fun p hp => ?_, fun e he => ?_, fun p hp d' hd' hcode => ?_,
    fun e he d' hd' hcode => ?_⟩
  · rcases h d' hd' with ⟨d, hd, hmoves⟩ | ⟨hnew, -⟩
    · exact List.mem_append_right _ (hmoves.code ▸ hi.known d hd)
    · exact List.mem_append_left _ hnew
  · obtain ⟨hknown, hread⟩ := hi.listed p hp
    exact ⟨List.mem_append_right _ hknown, hread⟩
  · exact List.mem_append_right _ (hi.read e he)
  · obtain ⟨d, hd, hmoves, hsame⟩ := old (hi.listed p hp).1 hd' hcode
    exact (hi.follows p hp d hd hsame).moves hmoves
  · obtain ⟨d, hd, hmoves, hsame⟩ := old (hi.read e he) hd' hcode
    exact (hi.keeps e he d hd hsame).moves hmoves

theorem Started.inv (h : Started w) : Inv w where
  known d hd := (h.row d hd).1
  sound d hd := by
    obtain ⟨-, hhealth, hclaim⟩ := h.row d hd
    exact ⟨by simp [hhealth], by simp [hhealth], by simp [hhealth], by simp [hclaim]⟩
  listed := by simp [h.checks]
  read := by simp [h.proofs]
  follows := by simp [h.checks]
  keeps := by simp [h.proofs]

theorem Inv.step (hi : Inv w) {c : Option Call} (h : Step w c w') : Inv w' := by
  cases h with
  | @list now d h =>
    obtain ⟨hd, hdue⟩ := Option.filter_eq_some_iff.1 h
    simp only [MavenDomain.due, Bool.and_eq_true, Bool.or_eq_true, decide_eq_true_eq] at hdue
    refine ⟨hi.known, hi.sound, ?_, hi.read, ?_, hi.keeps⟩
    · intro p hp
      rcases List.mem_cons.1 hp with rfl | hp
      · exact ⟨hi.known d hd, hi.sound d hd, hdue.2⟩
      · exact hi.listed p hp
    · intro p hp d₁ hd₁ hcode
      rcases List.mem_cons.1 hp with rfl | hp
      · obtain rfl : d = d₁ := Option.some.inj (hd.symm.trans hd₁)
        exact .refl (hi.sound d hd) hdue.1.1.2
      · exact hi.follows p hp d₁ hd₁ hcode
  | @details d hd =>
    refine ⟨hi.known, hi.sound, hi.listed, ?_, hi.follows, ?_⟩
    · intro e he
      rcases List.mem_cons.1 he with rfl | he
      · exact hi.known e hd
      · exact hi.read e he
    · intro e he d₁ hd₁ hcode
      rcases List.mem_cons.1 he with rfl | he
      · obtain rfl : e = d₁ := Option.some.inj (hd.symm.trans hd₁)
        exact .inr rfl
      · exact hi.keeps e he d₁ hd₁ hcode
  | change members teamRole account userIDForUsername superTeamPrefix lastCheckAt =>
    refine @Inv.row w _ hi [] (fun d' hd' => ?_) fun d' hd' => .inl ?_
    · obtain ⟨d, hd, rfl⟩ := Option.map_eq_some_iff.1 hd'
      have hsound := hi.sound d hd
      exact ⟨hsound.locked, hsound.verified, hsound.due, hsound.claim⟩
    · obtain ⟨d, hd, rfl⟩ := Option.map_eq_some_iff.1 hd'
      exact ⟨d, hd, rfl, .inr rfl, id, fun _ => le_rfl⟩
  | call out c hp =>
    cases hexec : exec out w.state c with
    | error err => exact hi.row hi.sound fun d hd => .inl ⟨d, hd, .refl d⟩
    | ok s' =>
      rcases exec_effect hi hp hexec with ⟨-, hnone⟩ | ⟨d', hd', hsound, heffect⟩
      · refine hi.row (fun d hd => ?_) fun d hd => ?_
        all_goals exact absurd (hnone.symm.trans hd) nofun
      · refine hi.row (fun d hd => ?_) fun d hd => ?_
        all_goals obtain rfl : d' = d := Option.some.inj (hd'.symm.trans hd)
        · exact hsound
        · exact heffect.moves

theorem Run.inv {w₀ : World} (h0 : Started w₀) (h : Run w₀ w) : Inv w := by
  induction h with
  | refl => exact h0.inv
  | tail _ hstep ih => exact ih.step hstep.choose_spec

/-! ### Stale checks -/

/-- Every row the domain may have now has been renewed since it was read as `e`. -/
def World.Renewed (w : World) (e : MavenDomain) : Prop := ∀ d, w.state.domain = some d → Stale e d

theorem Stale.moves {listedAt : Int} (hi : Inv w) (he : (e, listedAt) ∈ w.checks) (hd : w.state.domain = some d)
    (h : Stale e d) (hmoves : Moves d d') : Stale e d' := by
  by_cases hcode : d.verificationCode = e.verificationCode
  · have hfollows := hi.follows _ he d hd hcode
    rcases h with hne | hlater | ⟨hseen, hnone⟩
    · exact absurd hcode hne
    · exact .inr (.inl (hlater.trans_le (hmoves.checkedAt hfollows.verified)))
    · exact .inr (.inr ⟨hseen, hmoves.lock.elim id (·.trans hnone)⟩)
  · exact .inl (hmoves.code ▸ hcode)

theorem World.Renewed.step {listedAt : Int} {c : Option Call} (hi : Inv w) (he : (e, listedAt) ∈ w.checks)
    (h : w.Renewed e) (hstep : Step w c w') : w'.Renewed e := by
  cases hstep with
  | list _ => exact h
  | details _ => exact h
  | change members teamRole account userIDForUsername superTeamPrefix lastCheckAt =>
    intro d' hd'
    obtain ⟨d, hd, rfl⟩ := Option.map_eq_some_iff.1 hd'
    exact (h d hd).moves hi he hd ⟨rfl, .inr rfl, id, fun _ => le_rfl⟩
  | call out c hp =>
    cases hexec : exec out w.state c with
    | error err => exact h
    | ok s' =>
      intro d₁ hd₁
      rcases exec_effect hi hp hexec with ⟨-, hnone⟩ | ⟨d', hd', -, heffect⟩
      · exact absurd (hnone.symm.trans hd₁) nofun
      · obtain rfl : d' = d₁ := Option.some.inj (hd'.symm.trans hd₁)
        rcases heffect.moves with ⟨d, hd, hmoves⟩ | ⟨-, hfresh⟩
        · exact (h d hd).moves hi he hd hmoves
        · exact .inl fun hcode => hfresh (hcode ▸ (hi.listed _ he).1)

theorem Step.checks {c : Option Call} (h : Step w c w') {p : MavenDomain × Int} (hp : p ∈ w.checks) : p ∈ w'.checks := by
  cases h with
  | list _ => exact List.mem_cons_of_mem _ hp
  | _ => exact hp

theorem World.Renewed.run {listedAt : Int} (hi : Inv w) (he : (e, listedAt) ∈ w.checks) (h : w.Renewed e)
    (hrun : Run w w') : Inv w' ∧ (e, listedAt) ∈ w'.checks ∧ w'.Renewed e := by
  induction hrun with
  | refl => exact ⟨hi, he, h⟩
  | tail _ hstep ih =>
    obtain ⟨c, hstep⟩ := hstep
    exact ⟨ih.1.step hstep, hstep.checks ih.2.1, ih.2.2.step ih.1 ih.2.1 hstep⟩

/-- A call has checked, locked or redeemed the domain or created it again. -/
def Renews (w : World) (c : Call) (w' : World) : Prop := c.renews = true ∧ w'.state.domain ≠ w.state.domain

theorem Renews.renewed {listedAt : Int} (hi : Inv w) (he : (e, listedAt) ∈ w.checks) (hstep : Step w (some c) w')
    (h : Renews w c w') : w'.Renewed e := by
  obtain ⟨hrenews, hne⟩ := h
  obtain ⟨out, hp⟩ : ∃ out, ∃ _ : Permitted w c, w' = { w with
      state := w.state.after (exec out w.state c), codes := c.issued ++ w.codes } := by
    cases hstep with
    | call out _ hp => exact ⟨out, hp, rfl⟩
  obtain ⟨hp, rfl⟩ := hp
  dsimp only at hne
  intro d₁ hd₁
  dsimp only at hd₁
  cases hexec : exec out w.state c with
  | error err =>
    rw [hexec] at hne
    exact absurd rfl hne
  | ok s' =>
    rw [hexec] at hne hd₁
    simp only [State.after] at hne hd₁
    rcases exec_effect hi hp hexec with ⟨hnone, hnone'⟩ | ⟨d', hd', -, heffect⟩
    · exact absurd (hnone'.trans hnone.symm) hne
    · obtain rfl : d' = d₁ := Option.some.inj (hd'.symm.trans hd₁)
      by_cases hcode : d'.verificationCode = e.verificationCode
      swap
      · exact .inl hcode
      have hseen : d'.verificationCode ∈ w.codes := hcode ▸ (hi.listed _ he).1
      generalize hd : w.state.domain = o at heffect hne
      cases heffect with
      | untouched => exact absurd hd' hne
      | keeps hc _ _ => simp [hrenews] at hc
      | @checks d _ hmoves hlock hchecked =>
        have hfollows := hi.follows _ he d hd (hmoves.code.symm.trans hcode)
        exact .inr (.inl (hfollows.checkedAt.trans_lt hchecked))
      | locks hissues _ _ hnew => exact absurd hseen (hnew ▸ hissues.code.2)
      | @redeems d _ l hmoves hl hlock hc =>
        have hfollows := hi.follows _ he d hd (hmoves.code.symm.trans hcode)
        refine .inr (.inr ⟨?_, hlock⟩)
        rcases hfollows.lock with hnone | hsame
        · exact absurd (hl.symm.trans hnone) nofun
        · rw [← hsame, hl]
          nofun
      | creates _ _ hfresh _ => exact absurd hseen hfresh

theorem record_stale (h : Stale e d) : unmoved e d = false := by
  rw [Bool.eq_false_iff]
  intro hsame
  obtain ⟨hcode, -, -, hchecked, hlocked, -, -⟩ := unmoved_iff.1 hsame
  rcases h with hne | hlater | ⟨hseen, hnone⟩
  · exact hne hcode
  · omega
  · rw [Ne, lock?_eq_none] at hseen
    rw [lock?_eq_none] at hnone
    omega

theorem record_nothing {health : MavenDomainHealth} {releaseAt : Int} {code : String} (h : w.Renewed e) :
    w.state.after (exec out w.state (.record e health releaseAt code)) = w.state := by
  cases hexec : exec out w.state (.record e health releaseAt code) with
  | error err => rfl
  | ok s' =>
    obtain ⟨-, hexec⟩ := require_bind_ok.1 hexec
    obtain ⟨-, hexec⟩ := require_bind_ok.1 hexec
    obtain ⟨-, hexec⟩ := require_bind_ok.1 hexec
    cases hexec
    have hsame : w.state.domain.map (fun d => if unmoved e d then recorded e health releaseAt code d else d) =
        w.state.domain := by
      cases hd : w.state.domain with
      | none => rfl
      | some d => simp [record_stale (h d hd)]
    simp only [State.after, hsame]

/-! ### The security lock -/

theorem lock_step (hi : Inv w) {c : Option Call} (hstep : Step w c w') (hl : w.lock? = some l) :
    w'.lock? = some l ∨ w'.lock? = none ∧ ∃ call, c = some call ∧ (Redeems w l call ∨ Reclaims l call) := by
  obtain ⟨d, hd, hlock⟩ := Option.bind_eq_some_iff.1 hl
  cases hstep with
  | list _ => exact .inl hl
  | details _ => exact .inl hl
  | change members teamRole account userIDForUsername superTeamPrefix lastCheckAt =>
    left
    simp only [World.lock?, hd, Option.map_some, Option.bind_some]
    exact (lock?_congr rfl rfl rfl rfl).trans hlock
  | call out c hp =>
    cases hexec : exec out w.state c with
    | error err => exact .inl hl
    | ok s' =>
      rcases exec_effect hi hp hexec with ⟨hnone, -⟩ | ⟨d', hd', -, heffect⟩
      · exact absurd (hnone.symm.trans hd) nofun
      · simp only [World.lock?, State.after, hd', Option.bind_some]
        rw [hd] at heffect
        cases heffect with
        | untouched => exact .inl hlock
        | keeps _ _ hsame => exact .inl (hsame.trans hlock)
        | checks _ hsame _ => exact .inl (hsame.trans hlock)
        | locks _ hnone _ _ => exact absurd (hnone.symm.trans hlock) nofun
        | redeems hmoves hseen hnone hc =>
          obtain rfl := Option.some.inj (hseen.symm.trans hlock)
          exact .inr ⟨hnone, c, rfl, .inl hc⟩
        | creates hnone _ _ hc => exact .inr ⟨hnone, c, rfl, .inr (hc d l rfl hlock)⟩

theorem lock_issued (hi : Inv w) {c : Option Call} (hstep : Step w c w') (hl : w'.lock? = some l) (hne : w.lock? ≠ some l) :
    w.lock? = none ∧ ∃ call, c = some call ∧ Issues w l call := by
  cases hstep with
  | list _ => exact absurd hl hne
  | details _ => exact absurd hl hne
  | change members teamRole account userIDForUsername superTeamPrefix lastCheckAt =>
    refine absurd ?_ hne
    obtain ⟨d', hd', hlock⟩ := Option.bind_eq_some_iff.1 hl
    obtain ⟨d, hd, rfl⟩ := Option.map_eq_some_iff.1 hd'
    simp only [World.lock?, hd, Option.bind_some]
    exact (lock?_congr rfl rfl rfl rfl).trans hlock
  | call out c hp =>
    cases hexec : exec out w.state c with
    | error err =>
      simp only [World.lock?, hexec, State.after] at hl
      exact absurd hl hne
    | ok s' =>
      simp only [World.lock?, hexec, State.after] at hl
      rcases exec_effect hi hp hexec with ⟨-, hnone⟩ | ⟨d', hd', -, heffect⟩
      · rw [hnone] at hl
        cases hl
      · rw [hd', Option.bind_some] at hl
        simp only [World.lock?] at hne ⊢
        generalize hd : w.state.domain = o at heffect hne
        cases heffect with
        | untouched => exact absurd hl hne
        | keeps _ _ hsame => exact absurd (hsame.symm.trans hl) hne
        | checks _ hsame _ => exact absurd (hsame.symm.trans hl) hne
        | locks hissues hnone hlock _ =>
          obtain rfl := Option.some.inj (hlock.symm.trans hl)
          exact ⟨hnone, c, rfl, hissues⟩
        | redeems _ _ hnone _ => exact absurd (hnone.symm.trans hl) nofun
        | creates hnone _ _ _ => exact absurd (hnone.symm.trans hl) nofun

/-- While a lock lasts nothing of it moves. It ends with a redemption by a current owner who proved the code it was issued
with, or when the domain is claimed again after its reservation; and a check of a row that has been renewed since
changes nothing. -/
theorem security_lock_sticky {w₀ : World} {c : Option Call} (h0 : Started w₀) (hrun : Run w₀ w) (hstep : Step w c w') :
    (∀ l, w.lock? = some l →
      w'.lock? = some l ∨ w'.lock? = none ∧ ∃ call, c = some call ∧ (Redeems w l call ∨ Reclaims l call)) ∧
    (∀ l, w'.lock? = some l → w.lock? ≠ some l → w.lock? = none ∧ ∃ call, c = some call ∧ Issues w l call) ∧
    ∀ call, c = some call → Renews w call w' → ∀ p ∈ w.checks, ∀ w₁ w₂, Run w' w₁ →
      ∀ health releaseAt code, Step w₁ (some (.record p.1 health releaseAt code)) w₂ → w₂.state = w₁.state := by
  have hi := Run.inv h0 hrun
  refine ⟨fun l => lock_step hi hstep, fun l => lock_issued hi hstep, ?_⟩
  rintro call rfl hrenews p hp w₁ w₂ hrun' health releaseAt code hrecord
  obtain ⟨-, -, hrenewed⟩ := World.Renewed.run (hi.step hstep) (hstep.checks hp) (hrenews.renewed hi hp hstep) hrun'
  cases hrecord with
  | call out _ _ => exact record_nothing hrenewed

/-! ### A domain that is claimed again -/

def everyone : Outside := ⟨false, false, 0, false, fun _ _ => true, fun _ => true⟩

def verifiedDomain : MavenDomain :=
  { verificationType := .dns, verificationHost := "example.com", verificationCode := "first", verified := true,
    createdAt := 1 }

def listedWorld : World where
  state :=
    { domain := some verifiedDomain
      members := Table.empty
      teamRole := fun _ _ => none
      account := fun _ _ => none
      userIDForUsername := fun name => if name = "bob" then some "2" else none }
  checks := []
  proofs := []
  codes := ["first"]

/-- The registration has run out; the domain is reserved until 30. -/
def seizure : Call := .record verifiedDomain { status := .expired, checkedAt := 10, nextCheckAt := 20 } 30 "second"

/-- Bob claims the domain at 40. -/
def claim : Call :=
  .create { verificationType := .dns, verificationHost := "example.com", verificationCode := "third", createdAt := 40 } "bob"

def World.then (w : World) (c : Call) : World :=
  { w with state := w.state.after (exec everyone w.state c), codes := c.issued ++ w.codes }

def probedWorld : World := { listedWorld with checks := [(verifiedDomain, 5)] }

def lockedWorld : World := probedWorld.then seizure

def claimedWorld : World := lockedWorld.then claim

theorem listedWorld_started : Started listedWorld := by
  refine ⟨rfl, rfl, fun d hd => ?_⟩
  cases hd
  exact ⟨List.mem_singleton_self _, rfl, rfl⟩

theorem lockedWorld_run : Run listedWorld lockedWorld := by
  have hdue : listMavenDomainHealthChecks listedWorld.state 5 = some verifiedDomain := by decide
  have hlist : Step listedWorld none probedWorld := .list hdue
  have hseize : Step probedWorld (some seizure) lockedWorld := by
    refine .call everyone seizure ⟨⟨5, List.mem_singleton_self _, by decide⟩, .inr (by decide)⟩
  exact (Relation.ReflTransGen.single ⟨none, hlist⟩).tail ⟨some seizure, hseize⟩

theorem claimedWorld_step : Step lockedWorld (some claim) claimedWorld :=
  .call everyone claim ⟨by decide, .inl rfl⟩

theorem lockedWorld_lock : lockedWorld.lock? = some ⟨"second", 10, 30, .expired⟩ := by decide

theorem claimedWorld_lock : claimedWorld.lock? = none := by decide

theorem security_lock_sticky_claimed :
    claimedWorld.lock? = none ∧ ∃ call, some claim = some call ∧
      (Redeems lockedWorld ⟨"second", 10, 30, .expired⟩ call ∨ Reclaims ⟨"second", 10, 30, .expired⟩ call) := by
  have h := (security_lock_sticky listedWorld_started lockedWorld_run claimedWorld_step).1 _ lockedWorld_lock
  rcases h with hsame | hcleared
  · rw [claimedWorld_lock] at hsame
    cases hsame
  · exact hcleared

/-- A redemption is not the only way a lock ends: its reservation runs out, and anybody may claim the domain. -/
theorem redemption_not_needed : ¬ ∀ (w₀ w w' : World) (c : Call) (l : SecurityLock), Started w₀ → Run w₀ w →
    Step w (some c) w' → w.lock? = some l → w'.lock? = none → Redeems w l c := by
  intro h
  have hredeems := h _ _ _ _ _ listedWorld_started lockedWorld_run claimedWorld_step lockedWorld_lock claimedWorld_lock
  obtain ⟨expected, health, actor, session, userID, hc, -⟩ := hredeems
  cases hc

end Renop.MavenHealth
