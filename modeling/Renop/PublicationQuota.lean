import Renop.Cargo
import Renop.Interleave
import Renop.QuotaCalls
import Renop.Review

/-!
# The quota of a publication

`publicationquota`: a publication reserves its quota, commits the reservation before anything is stored and releases in
the end what was not committed. The service that publishes keeps the ledger in its own state, next to its other tables; it
says where, and how its steps and errors are called.
-/

namespace Renop.PublicationQuota

open Sql Cargo Interleave

structure Config where
  text : Text
  quotaText : Quota.Text
  /-- The default limits, if the quota is enabled. -/
  defaults : Option Quota.Limits

/-- What `Reserve` is asked for, with the ids and the times of the call. -/
structure Charge where
  username : String
  superTeamPrefix : String
  delta : Quota.Amounts
  now : Int
  expiresAt : Int
  userID : String
  quotaID : String

section Ledger
variable (config : Config) (charge : Charge)

/-- `Subject` -/
def subject (username superTeamPrefix : String) : Quota.Subject :=
  match Review.normalizeSuperTeamPrefix config.text superTeamPrefix with
  | some teamPrefix => ⟨"super_team", teamPrefix⟩
  | none => ⟨"user", config.text.toLower (config.text.trimSpace username)⟩

/-- The id of the reservation; a publication that is free of charge has none. -/
def reserve (ledger : Quota.QuotaDB) : Except Quota.QuotaError (Option String × Quota.QuotaDB) :=
  match config.defaults with
  | none => .ok (none, ledger)
  | some defaults => do
    let (claim, ledger) ← Quota.reservePublicationQuota config.quotaText ledger
      (subject config charge.username charge.superTeamPrefix) defaults charge.delta charge.now charge.expiresAt
      charge.userID charge.quotaID
    .ok (if claim.unlimited then none else some claim.id, ledger)

def commit (id : String) (ledger : Quota.QuotaDB) : Except Quota.QuotaError Quota.QuotaDB :=
  Quota.commitPublicationQuotaReservation config.quotaText ledger id charge.now

variable {config charge}

theorem reserve_usage {ledger ledger' : Quota.QuotaDB} {reservation : Option String}
    (h : reserve config charge ledger = .ok (reservation, ledger')) : ledger'.usage = ledger.usage := by
  unfold reserve at h
  split at h
  · cases h
    rfl
  · obtain ⟨⟨claim, q⟩, hreserve, h⟩ := bind_ok.1 h
    cases h
    exact (Quota.reserve_claim hreserve).1

theorem release_usage (ledger : Quota.QuotaDB) (id : String) :
    (Quota.releasePublicationQuotaReservation config.quotaText ledger id).usage = ledger.usage := by
  unfold Quota.releasePublicationQuotaReservation
  dsimp only
  split <;> rfl

theorem commit_usage {id : String} {ledger ledger₁ ledger₂ : Quota.QuotaDB} (hone : charge.delta.publications = 1)
    (h : reserve config charge ledger = .ok (some id, ledger₁))
    (hcommit : commit config charge id ledger₁ = .ok ledger₂) :
    ledger₂.usage ≠ ledger.usage := by
  have hsame := reserve_usage h
  unfold reserve at h
  split at h
  · cases h
  obtain ⟨⟨claim, q⟩, hreserve, h⟩ := bind_ok.1 h
  simp only [Except.ok.injEq, Prod.mk.injEq, Option.ite_none_left_eq_some, Bool.not_eq_true, Option.some.injEq] at h
  obtain ⟨⟨hlimited, rfl⟩, rfl⟩ := h
  obtain ⟨hid, owner, window, hrows⟩ := (Quota.reserve_claim hreserve).2 hlimited
  obtain ⟨r, hfind, -, -, -, hused, -⟩ := Quota.commit_cases hcommit
  rw [hrows, hid] at hfind
  simp only [List.find?_cons, decide_true, Option.some.injEq] at hfind
  subst hfind
  intro heq
  -- the number of publications in the window grew by one
  have hcount := hused owner window
  rw [if_pos ⟨rfl, rfl⟩] at hcount
  have hpub : (ledger₂.used owner window).publications = (ledger.used owner window).publications + 1 := by
    rw [hcount]
    simp [Quota.Amounts.add, Quota.QuotaDB.used, hsame, hone]
  have hold : ledger₂.used owner window = ledger.used owner window := by simp [Quota.QuotaDB.used, heq]
  rw [hold] at hpub
  generalize (ledger.used owner window).publications = n at hpub
  have hzero : n - n = 1 := by
    nth_rewrite 1 [hpub]
    rw [Int64.add_comm]
    simp
  simp at hzero

end Ledger

/-! ### The calls of a service -/

/-- Where a service keeps the ledger, what it counts a failed release with, and its names for the calls. -/
structure Port (σ L ε : Type) where
  get : σ → Quota.QuotaDB
  set : Quota.QuotaDB → σ → σ
  get_set : ∀ q s, get (set q s) = q
  set_get : ∀ s, set (get s) s = s
  set_set : ∀ q q' s, set q (set q' s) = set q s
  failed : σ → σ
  reserve : L
  commit : L
  release : L
  error : Quota.QuotaError → ε

variable {σ L ε : Type} (config : Config) (charge : Charge) (port : Port σ L ε)

/-- `Reserve` -/
def reserveQuota : Proc σ L ε (Option String) :=
  .call port.reserve (port.error .database) fun s =>
    ((reserve config charge (port.get s)).map fun (id, ledger) => (id, port.set ledger s)).mapError port.error

/-- `Reservation.Commit` -/
def commitQuota (reservation : Option String) : Proc σ L ε Unit :=
  match reservation with
  | none => pure ()
  | some id => .tell port.commit (port.error .database) fun s =>
    ((commit config charge id (port.get s)).map fun ledger => port.set ledger s).mapError port.error

/-- `Reservation.Release`, of a reservation that was not committed. -/
def releaseQuota (reservation : Option String) : Proc σ L ε Unit :=
  match reservation with
  | none => pure ()
  | some id => .atomic port.release fun fail s =>
    ((), if fail then port.failed s
      else port.set (Quota.releasePublicationQuotaReservation config.quotaText (port.get s) id) s)

/-- `Reserve` and `Commit` with what a service answers when they fail; `back` is what it takes back first. -/
def takeQuota (back : Proc σ L ε Unit) (exceeded : ε → ε) (unavailable : ε) : Proc σ L ε Unit := do
  match ← (reserveQuota config charge port).attempt with
  | .error e => do
    back
    .throw (exceeded e)
  | .ok reservation =>
    match ← (commitQuota config charge port reservation).attempt with
    | .error _ => do
      back
      releaseQuota config port reservation
      .throw unavailable
    | .ok () => pure ()

/-- The reservation is committed, so the usage counts it. -/
def Charged (fault : L → Bool) (ledger : Quota.QuotaDB) : Prop :=
  fault port.reserve = false ∧ fault port.commit = false ∧
    ∃ id ledger₁ ledger₂, reserve config charge ledger = .ok (some id, ledger₁) ∧
      commit config charge id ledger₁ =
      .ok ledger₂

/-- How taking the quota may end: with a charge, free of charge, or refused and taken back. -/
inductive Taken (fault : L → Bool) (undo : σ → σ) (s : σ) : Except ε Unit × σ → Prop
  | charged {ledger : Quota.QuotaDB} (hcharged : Charged config charge port fault (port.get s))
      (husage : ledger.usage ≠ (port.get s).usage) : Taken fault undo s (.ok (), port.set ledger s)
  | free {ledger : Quota.QuotaDB} (hcharged : ¬ Charged config charge port fault (port.get s))
      (husage : ledger.usage = (port.get s).usage) : Taken fault undo s (.ok (), port.set ledger s)
  | refused {ledger : Quota.QuotaDB} {e : ε} {s' : σ} (hcharged : ¬ Charged config charge port fault (port.get s))
      (husage : ledger.usage = (port.get s).usage) (hs' : s' = port.set ledger (undo s) ∨
        s' = port.failed (port.set ledger (undo s))) :
      Taken fault undo s (.error e, s')

section Exec
variable {config charge port} {fault : L → Bool}

theorem exec_releaseQuota (reservation : Option String) (s : σ) :
    ∃ ledger s', ledger.usage = (port.get s).usage ∧ (s' = port.set ledger s ∨ s' = port.failed (port.set ledger s)) ∧
      (releaseQuota config port reservation).exec fault s = (.ok (), s') := by
  cases reservation with
  | none => exact ⟨port.get s, s, rfl, .inl (port.set_get s).symm, rfl⟩
  | some id =>
    unfold releaseQuota Proc.atomic
    simp only [Proc.exec]
    cases fault port.release with
    | true =>
      refine ⟨port.get s, port.failed s, rfl, .inr ?_, rfl⟩
      rw [port.set_get]
    | false => exact ⟨_, _, release_usage _ id, .inl rfl, rfl⟩

/-- What the service takes back may not depend on the ledger. -/
theorem exec_takeQuota {back : Proc σ L ε Unit} {undo : σ → σ} {exceeded : ε → ε} {unavailable : ε}
    (hone : charge.delta.publications = 1) (hback : ∀ s, back.exec fault s = (.ok (), undo s))
    (hundo : ∀ q s, undo (port.set q s) = port.set q (undo s)) (s : σ) :
    Taken config charge port fault undo s ((takeQuota config charge port back exceeded unavailable).exec fault s) := by
  have hown : ∀ s, undo s = port.set (port.get s) (undo s) := by
    intro s
    rw [← hundo, port.set_get]
  unfold takeQuota
  simp only [Proc.bind_eq, Proc.exec_bind, Proc.exec_attempt]
  unfold reserveQuota
  rw [Proc.exec_call]
  cases hfail : fault port.reserve with
  | true =>
    simp only [if_true, Proc.exec_bind, hback]
    exact .refused (by simp [Charged, hfail]) rfl (.inl (hown s))
  | false =>
    cases hreserve : reserve config charge (port.get s) with
    | error e =>
      simp only [Except.map, Except.mapError, Bool.false_eq_true, if_false, Proc.exec_bind, hback]
      exact .refused (by simp [Charged, hreserve]) rfl (.inl (hown s))
    | ok r =>
      obtain ⟨reservation, ledger₁⟩ := r
      have husage := reserve_usage hreserve
      simp only [Except.map, Except.mapError, Bool.false_eq_true, if_false, Proc.exec_bind, Proc.exec_attempt]
      cases reservation with
      | none => exact .free (by simp [Charged, hreserve]) husage
      | some id =>
        -- the commit fails, is refused or succeeds
        have hrefused : ¬ Charged config charge port fault (port.get s) → ∀ e, Taken config charge port fault undo s
            (Proc.exec fault (back.bind fun _ => (releaseQuota config port (some id)).bind fun _ =>
              (Proc.throw e : Proc σ L ε Unit))
              (port.set ledger₁ s)) := by
          intro hcharged e
          obtain ⟨ledger, s', hledger, hs', hexec⟩ :=
            @exec_releaseQuota σ L ε config port fault (some id) (port.set ledger₁ (undo s))
          simp only [Proc.exec_bind, hback, hundo, hexec]
          rw [port.get_set] at hledger
          rw [port.set_set] at hs'
          exact .refused hcharged (hledger.trans husage) hs'
        simp only [commitQuota, Proc.exec_tell]
        cases hfail₂ : fault port.commit with
        | true => exact hrefused (by simp [Charged, hfail₂]) unavailable
        | false =>
          rw [port.get_set]
          cases hcommit : commit config charge id ledger₁ with
          | error e =>
            refine hrefused ?_ unavailable
            rintro ⟨-, -, id', q₁, q₂, h₁, h₂⟩
            rw [hreserve] at h₁
            cases h₁
            rw [hcommit] at h₂
            cases h₂
          | ok ledger₂ =>
            simp only [Except.map, Except.mapError, Bool.false_eq_true, if_false, port.set_set]
            exact .charged ⟨hfail, hfail₂, id, ledger₁, ledger₂, hreserve, hcommit⟩
              (commit_usage hone hreserve hcommit)

end Exec

end Renop.PublicationQuota
