import Renop.MailPricing
import Renop.QuotaWindows
import Renop.WindowCounter

/-!
# Accounting for a mail account

The state that a worker keeps for each sending account: messages per calendar bucket and how many of them were paid, attempts
in the current rate interval, what the provider reported, the balance. `reserve` takes a message off all of them before it is
sent, and `refund` gives it back when the provider did not charge for it. Instants are in milliseconds since 1970-01-01.
-/

namespace Renop.Mail

open Sql WindowCounter

/-! ### Buckets -/

inductive Period
  | hour
  | day
  | week
  | month
deriving DecidableEq, Repr

def hourMillis : Int := 3600000

/-- The start of `Window`. Days, weeks and months are those of `core.PublicationQuotaWindow`. -/
def window : Period → Int → Int
  | .hour, now => now / hourMillis * hourMillis
  | .day, now => Quota.publicationQuotaWindow .day now
  | .week, now => Quota.publicationQuotaWindow .week now
  | .month, now => Quota.publicationQuotaWindow .month now

example : window .hour 1760000000000 = 1759996800000 ∧ window .week 1760000000000 = 1759708800000 := by decide

/-! ### Accounts -/

structure Rate where
  limit : Int
  /-- `Interval.Duration`, zero for none. -/
  interval : Int
deriving DecidableEq, Repr

structure Quota where
  limit : Int
  period : Period
deriving DecidableEq, Repr

structure Account where
  provider : String
  endpoint : String
  region : String
  accountID : String
  apiKey : String
  apiSecret : String
  billingEndpoint : String
  quota : Quota
  forceSend : Bool
  overage : Quota
  pricing : Pricing
  balanceMicros : Option Int
  fetchBalance : Bool
deriving DecidableEq, Repr

/-- What a provider reported. -/
structure Budget where
  remaining : Option Int
  hardRemaining : Option Int
  balanceMicros : Option Int
  currency : String
  disabled : Option Bool
  resetAt : Int
deriving DecidableEq, Repr

def Budget.empty : Budget := ⟨none, none, none, "", none, 0⟩

structure AccountState where
  configuration : String
  currency : String
  usage : Period → Counter Int
  overage : Period → Counter Int
  rate : Counter Int
  budget : Budget
  manualBalance : Option Int
  balanceMicros : Option Int
  calibrationAt : Int
  calibrationError : String
  attempts : Int
  charged : Int
  spentMicros : Int

/-- The state of an account without a row. -/
def AccountState.empty : AccountState := ⟨"", "", fun _ => ⟨0, 0⟩, fun _ => ⟨0, 0⟩, ⟨0, 0⟩, .empty, none,
    none, 0, "", 0, 0, 0⟩

structure Reservation where
  periods : Period → Int
  costMicros : Int
  paid : Bool
  remote : Bool
  hard : Bool
  calibrationAt : Int
  manualBalance : Option Int
  currency : String

/-- `hashHex` is SHA-256, and `equalFold` is `strings.EqualFold`. -/
structure Env where
  hashHex : String → String
  equalFold : String → String → Bool

section Calls
variable (env : Env)

/-! ### Normalizing -/

def fingerprint (a : Account) : String :=
  env.hashHex ("\x00".intercalate
    [a.provider, a.endpoint, a.region, a.accountID, a.apiKey, a.apiSecret, a.billingEndpoint, a.pricing.currency])

/-- Another provider forgets what the last one reported. -/
def AccountState.reconfigure (s : AccountState) (a : Account) : AccountState :=
  if s.configuration ≠ "" ∧ s.configuration ≠ fingerprint env a then
    { s with
      configuration := fingerprint env a
      budget := .empty
      balanceMicros := a.balanceMicros
      calibrationAt := 0
      calibrationError := "" }
  else { s with configuration := fingerprint env a }

def AccountState.setCurrency (s : AccountState) (a : Account) : AccountState :=
  if s.currency ≠ a.pricing.currency then { s with currency := a.pricing.currency, spentMicros := 0 } else s

def AccountState.rollBuckets (s : AccountState) (now : Int) : AccountState :=
  { s with usage := fun p => (s.usage p).roll (window p now), overage := fun p => (s.overage p).roll (window p now) }

/-- The start of the rate interval of an instant. -/
def intervalStart (interval now : Int) : Int := now.tdiv interval * interval

def AccountState.rollRate (s : AccountState) (rate : Rate) (now : Int) : AccountState :=
  if 0 < rate.interval then { s with rate := s.rate.roll (intervalStart rate.interval now) } else s

/-- An edited balance replaces the one that was counted. -/
def AccountState.setBalance (s : AccountState) (a : Account) : AccountState :=
  let s := if s.manualBalance ≠ a.balanceMicros then
      { s with
        manualBalance := a.balanceMicros
        balanceMicros := if a.balanceMicros = none ∧ a.fetchBalance = true then s.budget.balanceMicros else
          a.balanceMicros }
    else s
  if a.balanceMicros = none ∧ a.fetchBalance = false then { s with balanceMicros := none } else s

def normalize (s : AccountState) (a : Account) (rate : Rate) (now : Int) : AccountState :=
  ((((s.reconfigure env a).setCurrency a).rollBuckets now).rollRate rate now).setBalance a

/-- A lookup that failed leaves what was known. -/
def calibrate (s : AccountState) (a : Account) (b : Budget) (now : Int) : AccountState :=
  let budget : Budget := { s.budget with
    remaining := b.remaining <|> s.budget.remaining
    hardRemaining := b.hardRemaining <|> s.budget.hardRemaining
    disabled := b.disabled <|> s.budget.disabled
    resetAt := if 0 < b.resetAt then b.resetAt else s.budget.resetAt }
  if b.balanceMicros ≠ none ∧ env.equalFold b.currency a.pricing.currency = true then
    { s with
      budget := { budget with balanceMicros := b.balanceMicros, currency := b.currency }
      balanceMicros := b.balanceMicros
      calibrationAt := now }
  else { s with budget := budget, calibrationAt := now }

/-! ### Reserving -/

inductive Refusal
  | disabled
  | balanceExhausted
  | rateLimited
  | providerQuotaExhausted
  | quotaExhausted
  | overageExhausted
  | pricingInvalid
deriving DecidableEq, Repr

/-- The quota of the account is used up; without one it is that of the provider. -/
def exhausted (s : AccountState) (a : Account) : Bool :=
  (0 < a.quota.limit && a.quota.limit ≤ (s.usage a.quota.period).used) || (a.quota.limit = 0 && s.budget.remaining.any
    (· ≤ 0))

/-- What one more message costs after `used` paid ones. -/
def marginalCost (pricing : Pricing) (used : Int) : Except Refusal Int := do
  let before ← (pricing.cost used).mapError fun _ => .pricingInvalid
  let after ← (pricing.cost (used + 1)).mapError fun _ => .pricingInvalid
  pure (after - before)

/-- The checks of `Reserve`: whether the message is to be paid, and its cost. -/
def quote (s : AccountState) (a : Account) (rate : Rate) : Except Refusal (Bool × Int) := do
  require (s.budget.disabled ≠ some true) .disabled
  require (s.balanceMicros.any (· ≤ 0) = false) .balanceExhausted
  require (s.rate.used < rate.limit) .rateLimited
  require (s.budget.hardRemaining.any (· ≤ 0) = false) .providerQuotaExhausted
  if exhausted s a = true then
    require (a.forceSend = true) .quotaExhausted
    let used := (s.overage a.overage.period).used
    require (¬(0 ≤ a.overage.limit ∧ a.overage.limit ≤ used)) .overageExhausted
    let cost ← marginalCost a.pricing used
    require (¬(cost < 0 ∨ s.balanceMicros.any (· < cost) = true)) .balanceExhausted
    pure (true, cost)
  else pure (false, 0)

def lessOne (n : Int) : Int := if 0 < n then n - 1 else n

/-- The end of `Reserve`. -/
def debit (s : AccountState) (paid : Bool) (cost : Int) : AccountState × Reservation :=
  ({ s with
      usage := fun p => (s.usage p).take
      overage := fun p => if paid = true then (s.overage p).take else s.overage p
      rate := s.rate.take
      attempts := s.attempts + 1
      charged := s.charged + 1
      spentMicros := s.spentMicros + cost
      balanceMicros := s.balanceMicros.map (· - cost)
      budget := { s.budget with
        remaining := s.budget.remaining.map lessOne, hardRemaining := s.budget.hardRemaining.map lessOne } },
    { periods := fun p => (s.usage p).start
      costMicros := cost
      paid := paid
      remote := s.budget.remaining.any (0 < ·)
      hard := s.budget.hardRemaining.any (0 < ·)
      calibrationAt := s.calibrationAt
      manualBalance := s.manualBalance
      currency := s.currency })

/-- `Reserve`. The state of a refusal is not saved. -/
def reserve (s : AccountState) (a : Account) (rate : Rate) (now : Int) : AccountState × Except Refusal Reservation :=
  let s := normalize env s a rate now
  match quote s a rate with
  | .error refusal => (s, .error refusal)
  | .ok (paid, cost) => ((debit s paid cost).1, .ok (debit s paid cost).2)

/-! ### Refunding -/

/-- The balance that a reservation was taken from is still the one that is counted. -/
def refundsBalance (s : AccountState) (r : Reservation) : Bool :=
  s.currency = r.currency && s.manualBalance = r.manualBalance &&
    (s.manualBalance ≠ none || s.calibrationAt = r.calibrationAt)

def refund (s : AccountState) (r : Reservation) : AccountState :=
  { s with
    usage := fun p => (s.usage p).give (r.periods p)
    overage := fun p => if r.paid = true then (s.overage p).give (r.periods p) else s.overage p
    charged := if 0 < s.charged then s.charged - 1 else s.charged
    spentMicros := if s.currency = r.currency then s.spentMicros - r.costMicros else s.spentMicros
    balanceMicros := if refundsBalance s r = true then s.balanceMicros.map (· + r.costMicros) else s.balanceMicros
    budget := { s.budget with
      remaining :=
        if r.remote = true ∧ s.calibrationAt = r.calibrationAt then s.budget.remaining.map (· + 1) else s.budget.remaining
      hardRemaining :=
        if r.hard = true ∧ s.calibrationAt = r.calibrationAt then s.budget.hardRemaining.map (· + 1)
        else s.budget.hardRemaining } }

/-! ### Runs -/

/-- The state of an account, the reservations that were not refunded, and the instants of the attempts. -/
structure World where
  state : AccountState
  held : List Reservation
  attempts : List Int

def World.init : World := ⟨.empty, [], []⟩

inductive Event
  | reserve (a : Account) (rate : Rate) (now : Int)
  /-- The reservation at a place of the list is refunded. -/
  | refund (i : Nat)
  /-- `worker.calibrate`; `failed` is the lookup's error. -/
  | calibrate (a : Account) (rate : Rate) (b : Budget) (failed : Bool) (now : Int)
  /-- A token was not to be had, after the check of the rate in `worker.process`. -/
  | failPreparation (a : Account) (rate : Rate) (now : Int)

def next (w : World) : Event → World
  | .reserve a rate now =>
    match Mail.reserve env w.state a rate now with
    | (_, .error _) => w
    | (s, .ok r) => ⟨s, r :: w.held, now :: w.attempts⟩
  | .refund i =>
    match w.held[i]? with
    | none => w
    | some r => { w with state := Mail.refund w.state r, held := w.held.eraseIdx i }
  | .calibrate a rate b failed now =>
    let s := Mail.calibrate env (normalize env w.state a rate now) a b now
    { w with state := { s with calibrationError := if failed = true then "mail_calibration_failed" else "" } }
  | .failPreparation a rate now =>
    let s := normalize env w.state a rate now
    if s.rate.used < rate.limit then
      { w with state := { s with rate := s.rate.take, attempts := s.attempts + 1 }, attempts := now :: w.attempts }
    else w

def run (w : World) (es : List Event) : World := es.foldl (next env) w

end Calls

/-- What an event was given, if it looks at the clock. -/
def Event.setting : Event → Option (Account × Rate × Int)
  | .reserve a rate now => some (a, rate, now)
  | .refund _ => none
  | .calibrate a rate _ _ now => some (a, rate, now)
  | .failPreparation a rate now => some (a, rate, now)

/-- The clock does not go back. -/
def Timely (es : List Event) : Prop := (es.filterMap fun e => e.setting.map (·.2.2)).Pairwise (· ≤ ·)

end Renop.Mail
