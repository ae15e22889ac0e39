import Mathlib
import Renop.SqlTable

/-!
# What a paid message costs

The progressive tiers of `config.go`. `cost` is the loop of `Pricing.Cost`, with its checks against overflow; `price` is what
it is to compute, the charge of every tier for the messages that fall into it, rounded up tier by tier.
-/

namespace Renop.Mail

open Sql

inductive Rounding
  | proportional
  | batch
deriving DecidableEq, Repr

/-- `AmountMicros` for every `BatchSize` messages up to a volume; the last tier may be without bound, which is `UpTo` 0. -/
structure PriceTier where
  upTo : Int
  amountMicros : Int
  batchSize : Int
deriving DecidableEq, Repr

structure Pricing where
  currency : String
  rounding : Rounding
  tiers : List PriceTier
deriving DecidableEq, Repr

inductive PricingError
  | count
  | batchSize
  | overflow
  | uncovered
deriving DecidableEq, Repr

def maxCount : Int := 1000000000

def maxCost : Int := 1000000000000000

def maxInt64 : Int := 9223372036854775807

/-! ### Validation -/

def PriceTier.valid (previous : Int) (last : Bool) (t : PriceTier) : Bool :=
  0 ≤ t.upTo && t.upTo ≤ 1000000000 && (t.upTo = 0 || previous < t.upTo) && (t.upTo ≠ 0 || last) && 0 ≤
    t.amountMicros && t.amountMicros ≤ 1000000000000 && 1 ≤ t.batchSize && t.batchSize ≤ 1000000000

def tiersValid : Int → List PriceTier → Bool
  | _, [] => true
  | previous, t :: tiers => t.valid previous tiers.isEmpty && tiersValid t.upTo tiers

def Pricing.validate (p : Pricing) : Bool :=
  p.currency.utf8ByteSize = 3 && p.tiers.length ≤ 20 && (p.currency.toList.all fun c => 'A' ≤ c && c ≤ 'Z') &&
    tiersValid 0 p.tiers

/-! ### Cost -/

/-- The whole batches of a tier, and the messages that are left. -/
def batches (rounding : Rounding) (t : PriceTier) (units : Int) : Int × Int :=
  if rounding = .batch ∧ 0 < units % t.batchSize then (units / t.batchSize + 1, 0) else (units / t.batchSize,
    units % t.batchSize)

/-- The charge of one tier in `Cost`. -/
def tierCost (rounding : Rounding) (t : PriceTier) (units : Int) : Except PricingError Int := do
  require (0 < t.batchSize) .batchSize
  let (whole, remainder) := batches rounding t units
  require (¬(0 < t.amountMicros ∧ (maxCost / t.amountMicros < whole ∨ maxInt64 / t.amountMicros < remainder))) .overflow
  let product := remainder * t.amountMicros
  pure (whole * t.amountMicros +
    if 0 < remainder then product / t.batchSize + (if 0 < product % t.batchSize then 1 else 0) else 0)

/-- The loop of `Cost`; a volume that is reached leaves it. -/
def costTiers (rounding : Rounding) (count : Int) : List PriceTier → Int → Int → Except PricingError Int
  | [], total, previous => if previous < count then .error .uncovered else .ok total
  | t :: tiers, total, previous =>
    if count - previous ≤ 0 then .ok total
    else do
      let units := if 0 < t.upTo then min (count - previous) (t.upTo - previous) else count - previous
      let cost ← tierCost rounding t units
      require (total ≤ maxCost - cost) .overflow
      if t.upTo = 0 then pure (total + cost) else costTiers rounding count tiers (total + cost) t.upTo

def Pricing.cost (p : Pricing) (count : Int) : Except PricingError Int := do
  require (0 ≤ count ∧ count ≤ maxCount) .count
  costTiers p.rounding count p.tiers 0 0

/-! ### The price of a volume -/

def ceilDiv (a b : Int) : Int := (a + b - 1) / b

/-- What `units` messages of one tier cost, rounded up. -/
def charge (rounding : Rounding) (t : PriceTier) (units : Int) : Int :=
  match rounding with
  | .batch => ceilDiv units t.batchSize * t.amountMicros
  | .proportional => ceilDiv (units * t.amountMicros) t.batchSize

/-- The messages of a tier that begins after `previous`. -/
def tierUnits (count previous : Int) (t : PriceTier) : Int := (if t.upTo = 0 then count else min count t.upTo) - previous

def price (rounding : Rounding) (count : Int) : Int → List PriceTier → Int
  | _, [] => 0
  | previous, t :: tiers =>
    if count ≤ previous then 0
    else charge rounding t (tierUnits count previous t) + if t.upTo = 0 then 0 else price rounding count t.upTo tiers

/-- A tier is there for every message, and what is left of a batch can be multiplied in 64 bits. -/
def Priced (rounding : Rounding) (count : Int) : Int → List PriceTier → Prop
  | previous, [] => count ≤ previous
  | previous, t :: tiers => previous < count →
    (rounding = .proportional → tierUnits count previous t % t.batchSize * t.amountMicros ≤ maxInt64) ∧
      (t.upTo ≠ 0 → Priced rounding count t.upTo tiers)

/-! ### Rounding up -/

theorem ceilDiv_add_mul (a q : Int) {b : Int} (hb : 0 < b) : ceilDiv (a + b * q) b = ceilDiv a b + q := by
  unfold ceilDiv
  rw [show a + b * q + b - 1 = a + b - 1 + b * q by ring, Int.add_mul_ediv_left _ _ hb.ne']

theorem ceilDiv_eq (a : Int) {b : Int} (hb : 0 < b) : ceilDiv a b = a / b + if 0 < a % b then 1 else 0 := by
  have hm := Int.emod_nonneg a hb.ne'
  have hlt := Int.emod_lt_of_pos a hb
  have hsplit : ceilDiv a b = ceilDiv (a % b) b + a / b := by
    rw [← ceilDiv_add_mul _ _ hb, Int.emod_add_mul_ediv]
  have hsmall : ceilDiv (a % b) b = if 0 < a % b then 1 else 0 := by
    unfold ceilDiv
    split
    · rw [show a % b + b - 1 = a % b - 1 + b * 1 by ring, Int.add_mul_ediv_left _ _ hb.ne',
        Int.ediv_eq_zero_of_lt (by omega) (by omega)]
      rfl
    · rw [show a % b = 0 by omega, Int.ediv_eq_zero_of_lt (by omega) (by omega)]
  rw [hsplit, hsmall]
  omega

theorem ceilDiv_mono {a a' b : Int} (hb : 0 < b) (h : a ≤ a') : ceilDiv a b ≤ ceilDiv a' b :=
  Int.ediv_le_ediv hb (by omega)

theorem ceilDiv_nonneg {a b : Int} (hb : 0 < b) (ha : 0 ≤ a) : 0 ≤ ceilDiv a b := Int.ediv_nonneg (by omega) hb.le

section Tier
variable {rounding : Rounding} {t : PriceTier}

theorem charge_mono (rounding : Rounding) (hb : 0 < t.batchSize) (ha : 0 ≤ t.amountMicros) {u v : Int} (h : u ≤ v) :
    charge rounding t u ≤ charge rounding t v := by
  cases rounding with
  | batch => exact Int.mul_le_mul_of_nonneg_right (ceilDiv_mono hb h) ha
  | proportional => exact ceilDiv_mono hb (Int.mul_le_mul_of_nonneg_right h ha)

theorem charge_nonneg (rounding : Rounding) (hb : 0 < t.batchSize) (ha : 0 ≤ t.amountMicros) {u : Int} (h : 0 ≤ u) :
    0 ≤ charge rounding t u := by
  cases rounding with
  | batch => exact Int.mul_nonneg (ceilDiv_nonneg hb h) ha
  | proportional => exact ceilDiv_nonneg hb (Int.mul_nonneg h ha)

theorem charge_batches (hb : 0 < t.batchSize) (units : Int) :
    charge rounding t units = (batches rounding t units).1 * t.amountMicros +
      ceilDiv ((batches rounding t units).2 * t.amountMicros) t.batchSize := by
  have hzero : ceilDiv (0 * t.amountMicros) t.batchSize = 0 := by
    rw [Int.zero_mul, ceilDiv_eq _ hb]
    simp
  unfold batches
  cases rounding with
  | batch =>
    show ceilDiv units t.batchSize * t.amountMicros = _
    rw [ceilDiv_eq _ hb]
    by_cases hr : 0 < units % t.batchSize
    · simp only [hr, if_true, and_self]
      rw [hzero, Int.add_zero]
    · have hr0 : units % t.batchSize = 0 := by
        have := Int.emod_nonneg units hb.ne'
        omega
      simp only [hr0, lt_irrefl, and_false, if_false, Int.add_zero]
      rw [hzero, Int.add_zero]
  | proportional =>
    show ceilDiv (units * t.amountMicros) t.batchSize = _
    rw [if_neg (by simp), Int.add_comm, ← ceilDiv_add_mul _ _ hb]
    congr 1
    calc units * t.amountMicros = (units % t.batchSize + t.batchSize * (units / t.batchSize)) * t.amountMicros := by
          rw [Int.emod_add_mul_ediv]
      _ = units % t.batchSize * t.amountMicros + t.batchSize * (units / t.batchSize * t.amountMicros) := by ring

theorem batches_rest (rounding : Rounding) (hb : 0 < t.batchSize) (units : Int) :
    0 ≤ (batches rounding t units).2 ∧ (batches rounding t units).2 = if rounding = .proportional then units %
      t.batchSize else 0 := by
  have hm := Int.emod_nonneg units hb.ne'
  unfold batches
  cases rounding with
  | batch =>
    simp only [true_and, reduceCtorEq, if_false]
    split
    · exact ⟨le_rfl, rfl⟩
    · refine ⟨hm, ?_⟩
      show units % t.batchSize = 0
      omega
  | proportional => simp [hm]

/-- The charge of a tier, where it can be computed. -/
theorem tierCost_iff (hb : 0 < t.batchSize) (ha : 0 ≤ t.amountMicros) {units x : Int} :
    tierCost rounding t units = .ok x ↔
      (rounding = .proportional → units % t.batchSize * t.amountMicros ≤ maxInt64) ∧
        (batches rounding t units).1 * t.amountMicros ≤ maxCost ∧ x = charge rounding t units := by
  obtain ⟨hrest, hrest'⟩ := batches_rest (t := t) rounding hb units
  have hsum : (batches rounding t units).1 * t.amountMicros + (if 0 < (batches rounding t units).2 then
      (batches rounding t units).2 * t.amountMicros / t.batchSize +
        (if 0 < (batches rounding t units).2 * t.amountMicros % t.batchSize then 1 else 0) else 0) = charge rounding t
            units := by
    rw [charge_batches hb]
    split
    · rw [ceilDiv_eq _ hb]
    · rw [show (batches rounding t units).2 = 0 by omega, Int.zero_mul, ceilDiv_eq _ hb]
      simp
  have hguard : ¬(0 < t.amountMicros ∧ (maxCost / t.amountMicros < (batches rounding t units).1 ∨
      maxInt64 / t.amountMicros < (batches rounding t units).2)) ↔
      (rounding = .proportional → units % t.batchSize * t.amountMicros ≤ maxInt64) ∧
        (batches rounding t units).1 * t.amountMicros ≤ maxCost := by
    have hsmall : (rounding = .proportional → units % t.batchSize * t.amountMicros ≤ maxInt64) ↔
        (batches rounding t units).2 * t.amountMicros ≤ maxInt64 := by
      rw [hrest']
      split
      · rename_i hr
        simp [hr]
      · rename_i hr
        simp [hr, maxInt64]
    rw [hsmall]
    rcases ha.eq_or_lt with h0 | hpos
    · simp [← h0, maxCost, maxInt64]
    · rw [Int.ediv_lt_iff_lt_mul hpos, Int.ediv_lt_iff_lt_mul hpos]
      constructor
      · intro h
        exact ⟨by_contra fun hn => h ⟨hpos, .inr (by omega)⟩, by_contra fun hn => h ⟨hpos, .inl (by omega)⟩⟩
      · rintro ⟨h1, h2⟩ ⟨-, h | h⟩ <;> omega
  unfold tierCost
  rw [require_bind_ok, require_bind_ok, hguard]
  constructor
  · rintro ⟨-, ⟨hsmall, hwhole⟩, h⟩
    exact ⟨hsmall, hwhole, hsum ▸ (Except.ok.inj h).symm⟩
  · rintro ⟨hsmall, hwhole, rfl⟩
    exact ⟨hb, ⟨hsmall, hwhole⟩, congrArg Except.ok hsum⟩

end Tier

/-! ### All tiers -/

section Tiers
variable {rounding : Rounding} {count previous total c : Int} {t : PriceTier} {tiers : List PriceTier}

theorem PriceTier.valid_iff {last : Bool} : t.valid previous last = true ↔
    (0 ≤ t.upTo ∧ t.upTo ≤ 1000000000) ∧ (t.upTo = 0 ∨ previous < t.upTo) ∧ (t.upTo ≠ 0 ∨ last = true) ∧
      0 ≤ t.amountMicros ∧ t.amountMicros ≤ 1000000000000 ∧ 0 < t.batchSize ∧ t.batchSize ≤ 1000000000 := by
  simp only [PriceTier.valid, Bool.and_eq_true, Bool.or_eq_true, decide_eq_true_eq]
  rw [show (1 ≤ t.batchSize) = (0 < t.batchSize) from rfl]
  tauto

theorem tierUnits_eq (hto : 0 ≤ t.upTo) :
    (if 0 < t.upTo then min (count - previous) (t.upTo - previous) else count - previous) = tierUnits count previous t := by
  unfold tierUnits
  split <;> split <;> omega

theorem tierUnits_nonneg (hv : t.upTo = 0 ∨ previous < t.upTo) (h : previous < count) :
    0 ≤ tierUnits count previous t := by
  unfold tierUnits
  split <;> omega

theorem price_nonneg (hv : tiersValid previous tiers = true) : 0 ≤ price rounding count previous tiers := by
  induction tiers generalizing previous with
  | nil => exact le_rfl
  | cons t tiers ih =>
    simp only [tiersValid, Bool.and_eq_true] at hv
    obtain ⟨-, hup, -, ha, -, hb, -⟩ := PriceTier.valid_iff.1 hv.1
    unfold price
    split
    · exact le_rfl
    · rename_i hlt
      have hcharge := charge_nonneg rounding hb ha (tierUnits_nonneg hup (by omega : previous < count))
      split
      · omega
      · have := ih hv.2
        omega

theorem price_mono {m n : Int} (hmn : m ≤ n) (hv : tiersValid previous tiers = true) :
    price rounding m previous tiers ≤ price rounding n previous tiers := by
  induction tiers generalizing previous with
  | nil => exact le_rfl
  | cons t tiers ih =>
    have hnonneg : 0 ≤ price rounding n previous (t :: tiers) := price_nonneg hv
    simp only [tiersValid, Bool.and_eq_true] at hv
    obtain ⟨-, hup, -, ha, -, hb, -⟩ := PriceTier.valid_iff.1 hv.1
    by_cases hm : m ≤ previous
    · rw [price, if_pos hm]
      exact hnonneg
    · rw [price, price, if_neg hm, if_neg (by omega : ¬n ≤ previous)]
      have hunits : tierUnits m previous t ≤ tierUnits n previous t := by
        unfold tierUnits
        split <;> omega
      have hcharge := charge_mono rounding hb ha hunits
      split
      · omega
      · have := ih hv.2
        omega

/-- The loop adds the price to the total, as long as that stays within the limit. -/
theorem costTiers_iff (hv : tiersValid previous tiers = true) (h0 : 0 ≤ total) (htotal : total ≤ maxCost) :
    costTiers rounding count tiers total previous = .ok c ↔
      Priced rounding count previous tiers ∧ c = total + price rounding count previous tiers ∧ c ≤ maxCost := by
  induction tiers generalizing previous total with
  | nil =>
    simp only [costTiers, Priced, price, Int.add_zero]
    split
    · simp
      omega
    · constructor
      · rintro ⟨⟩
        exact ⟨by omega, rfl, htotal⟩
      · rintro ⟨-, rfl, -⟩
        rfl
  | cons t tiers ih =>
    have hv' := hv
    simp only [tiersValid, Bool.and_eq_true] at hv
    obtain ⟨⟨hto, -⟩, hup, -, ha, -, hb, -⟩ := PriceTier.valid_iff.1 hv.1
    unfold costTiers
    by_cases hdone : count ≤ previous
    · rw [if_pos (by omega), price, if_pos hdone, Int.add_zero]
      constructor
      · rintro ⟨⟩
        exact ⟨fun hlt => absurd hlt (by omega), rfl, htotal⟩
      · rintro ⟨-, rfl, -⟩
        rfl
    · have hlt : previous < count := by omega
      have hunits := tierUnits_nonneg (t := t) hup hlt
      rw [if_neg (by omega), price, if_neg hdone, tierUnits_eq hto, bind_ok]
      set units := tierUnits count previous t with hu
      have hwhole : (batches rounding t units).1 * t.amountMicros ≤ charge rounding t units := by
        rw [charge_batches hb]
        have := ceilDiv_nonneg hb (Int.mul_nonneg (batches_rest (t := t) rounding hb units).1 ha)
        omega
      have hcharge := charge_nonneg rounding hb ha hunits
      by_cases hlast : t.upTo = 0
      · simp only [hlast, if_true, Priced, hlt, forall_const, ← hu, ne_eq, not_true_eq_false, IsEmpty.forall_iff, and_true,
          Int.add_zero, require_bind_ok, tierCost_iff hb ha]
        constructor
        · rintro ⟨x, ⟨hsmall, -, rfl⟩, hle, h⟩
          obtain rfl := Except.ok.inj h
          exact ⟨hsmall, rfl, by omega⟩
        · rintro ⟨hsmall, rfl, hle⟩
          exact ⟨_, ⟨hsmall, by omega, rfl⟩, by omega, rfl⟩
      · have hrest : 0 ≤ price rounding count t.upTo tiers := price_nonneg hv.2
        simp only [hlast, if_false, Priced, hlt, forall_const, ← hu, ne_eq, not_false_eq_true, require_bind_ok,
          tierCost_iff hb ha]
        constructor
        · rintro ⟨x, ⟨hsmall, -, rfl⟩, hle, h⟩
          obtain ⟨hpriced, rfl, hc⟩ := (ih hv.2 (by omega) (by omega)).1 h
          exact ⟨⟨hsmall, hpriced⟩, by omega, hc⟩
        · rintro ⟨⟨hsmall, hpriced⟩, rfl, hc⟩
          exact ⟨_, ⟨hsmall, by omega, rfl⟩, by omega, (ih hv.2 (by omega) (by omega)).2 ⟨hpriced, by omega, hc⟩⟩

end Tiers

/-- `Cost` of a pricing that passed `Validate` is the progressive price, and no larger volume costs less. It fails where a
message has no tier, where the price passes the limit, and where what is left of a batch is too much for 64 bits. -/
theorem cost_exact {p : Pricing} (hp : p.validate = true) :
    (∀ n c, p.cost n = .ok c ↔ (0 ≤ n ∧ n ≤ maxCount) ∧ Priced p.rounding n 0 p.tiers ∧
      c = price p.rounding n 0 p.tiers ∧ c ≤ maxCost) ∧
    ∀ m n c d, m ≤ n → p.cost m = .ok c → p.cost n = .ok d → 0 ≤ c ∧ c ≤ d := by
  have hv : tiersValid 0 p.tiers = true := by
    simp only [Pricing.validate, Bool.and_eq_true] at hp
    exact hp.2
  have hiff : ∀ n c, p.cost n = .ok c ↔ (0 ≤ n ∧ n ≤ maxCount) ∧ Priced p.rounding n 0 p.tiers ∧
      c = price p.rounding n 0 p.tiers ∧ c ≤ maxCost := by
    intro n c
    unfold Pricing.cost
    rw [require_bind_ok, costTiers_iff hv le_rfl (by decide), Int.zero_add]
  refine ⟨hiff, fun m n c d hmn hc hd => ?_⟩
  obtain ⟨-, -, rfl, -⟩ := (hiff m c).1 hc
  obtain ⟨-, -, rfl, -⟩ := (hiff n d).1 hd
  exact ⟨price_nonneg hv, price_mono hmn hv⟩

/-- The first hundred are free, then a thousand cost one unit of the currency. -/
def plan : Pricing := ⟨"USD", .proportional, [⟨100, 0, 1⟩, ⟨0, 1000000, 1000⟩]⟩

theorem cost_exact_plan : plan.cost 350 = .ok 250000 ∧ plan.cost 100 = .ok 0 ∧
    (∀ c d, plan.cost 100 = .ok c → plan.cost 350 = .ok d → c ≤ d) := by
  have hplan : plan.validate = true := by decide
  refine ⟨((cost_exact hplan).1 350 250000).2 ⟨by decide, ?_, by decide, by decide⟩, by decide, fun c d hc hd => ?_⟩
  · simp [plan, Priced, tierUnits, maxInt64]
  · exact ((cost_exact hplan).2 100 350 c d (by decide) hc hd).2

end Renop.Mail
