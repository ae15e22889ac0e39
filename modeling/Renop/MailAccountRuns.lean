import Renop.MailAccount

/-!
# Runs of the mail accounting

In every run the counters are the reservations that were not refunded, each in its own window; so a quota, an overage limit
and a rate bound every window of the past too, and the balance is what is left of the configured one. The invariants are facts
of `WindowCounter` about the list of reservations and the list of attempts.
-/

namespace Renop.Mail

open Sql WindowCounter

variable {env : Env} {s s' : AccountState} {a : Account} {rate : Rate} {now t : Int} {held : List Reservation}
    {r : Reservation} {es : List Event} {w : World}

/-! ### Windows -/

theorem publicationQuotaWindow_mono {period : Quota.Period} (hp : period ≠ .lifetime) {t u : Int} (h : t ≤ u) :
    Quota.publicationQuotaWindow period t ≤ Quota.publicationQuotaWindow period u := by
  obtain ⟨ht, -, hle, -⟩ := Quota.publicationQuotaWindow_eq hp t
  obtain ⟨hu, -, -, hlt⟩ := Quota.publicationQuotaWindow_eq hp u
  have hmono := Quota.boundary_strictMono period
  rw [ht, hu]
  -- the earlier instant is before the end of the later window
  have hindex : Quota.windowIndex period t < Quota.windowIndex period u + 1 := hmono.lt_iff_lt.1 (by omega)
  exact hmono.monotone (by omega)

theorem window_mono (p : Period) {t u : Int} (h : t ≤ u) : window p t ≤ window p u := by
  cases p with
  | hour => exact Int.mul_le_mul_of_nonneg_right (Int.ediv_le_ediv (by decide) h) (by decide)
  | day => exact @publicationQuotaWindow_mono .day (by decide) t u h
  | week => exact @publicationQuotaWindow_mono .week (by decide) t u h
  | month => exact @publicationQuotaWindow_mono .month (by decide) t u h

theorem intervalStart_mono {interval : Int} (hi : 0 < interval) {t u : Int} (h : t ≤ u) :
    intervalStart interval t ≤ intervalStart interval u := Int.mul_le_mul_of_nonneg_right (Int.tdiv_le_tdiv hi h) hi.le

/-! ### What a call does -/

theorem normalize_counters (p : Period) : (normalize env s a rate now).usage p = (s.usage p).roll (window p now) ∧
    (normalize env s a rate now).overage p = (s.overage p).roll (window p now) ∧ (normalize env s a rate now).charged =
      s.charged := by
  simp only [normalize, AccountState.setBalance, AccountState.rollRate, AccountState.rollBuckets, AccountState.setCurrency,
    AccountState.reconfigure]
  split_ifs <;> exact ⟨rfl, rfl, rfl⟩

@[simp] theorem normalize_usage (p : Period) : (normalize env s a rate now).usage p = (s.usage p).roll (window p now) :=
  (normalize_counters p).1

@[simp] theorem normalize_overage (p : Period) : (normalize env s a rate now).overage p = (s.overage p).roll (window p now) :=
  (normalize_counters p).2.1

@[simp] theorem normalize_charged : (normalize env s a rate now).charged = s.charged := (normalize_counters .day).2.2

/-- What the checks of `Reserve` leave. -/
structure Quoted (s : AccountState) (a : Account) (rate : Rate) (paid : Bool) (cost : Int) : Prop where
  within : s.rate.used < rate.limit
  nonneg : 0 ≤ cost
  covered : ∀ balance ∈ s.balanceMicros, cost ≤ balance
  /-- A message is paid when the quota is used up, and then within the overage. -/
  due : paid = exhausted s a
  forced : paid = true → a.forceSend = true ∧ (0 ≤ a.overage.limit → (s.overage a.overage.period).used <
    a.overage.limit)

theorem quote_ok {paid : Bool} {cost : Int} (h : quote s a rate = .ok (paid, cost)) : Quoted s a rate paid cost := by
  unfold quote at h
  obtain ⟨-, h⟩ := require_bind_ok.1 h
  obtain ⟨hbalance, h⟩ := require_bind_ok.1 h
  obtain ⟨hrate, h⟩ := require_bind_ok.1 h
  obtain ⟨-, h⟩ := require_bind_ok.1 h
  split at h
  · rename_i hexhausted
    obtain ⟨hforce, h⟩ := require_bind_ok.1 h
    obtain ⟨hoverage, h⟩ := require_bind_ok.1 h
    obtain ⟨c, -, h⟩ := bind_ok.1 h
    obtain ⟨hcost, h⟩ := require_bind_ok.1 h
    cases h
    refine ⟨hrate, by omega, fun balance hb => ?_, hexhausted.symm, fun _ => ⟨hforce, fun hlimit => by omega⟩⟩
    rw [Option.mem_def.1 hb] at hcost
    simp only [Option.any_some, decide_eq_true_eq] at hcost
    omega
  · rename_i hexhausted
    cases h
    refine ⟨hrate, le_rfl, fun balance hb => ?_, by simpa using hexhausted, fun hpaid => by cases hpaid⟩
    rw [Option.mem_def.1 hb] at hbalance
    simp only [Option.any_some, decide_eq_false_iff_not] at hbalance
    omega

theorem next_reserve (env : Env) (w : World) (a : Account) (rate : Rate) (now : Int) :
    next env w (.reserve a rate now) = w ∨ ∃ paid cost, Quoted (normalize env w.state a rate now) a rate paid cost ∧
      next env w (.reserve a rate now) = ⟨(debit (normalize env w.state a rate now) paid cost).1,
        (debit (normalize env w.state a rate now) paid cost).2 :: w.held, now :: w.attempts⟩ := by
  simp only [next, reserve]
  cases hquote : quote (normalize env w.state a rate now) a rate with
  | error refusal => exact .inl rfl
  | ok q =>
    obtain ⟨paid, cost⟩ := q
    exact .inr ⟨paid, cost, quote_ok hquote, rfl⟩

theorem next_refund (env : Env) (w : World) (i : Nat) : next env w (.refund i) = w ∨
    ∃ r rest, w.held.Perm (r :: rest) ∧ next env w (.refund i) = { w with state := refund w.state r, held := rest } := by
  simp only [next]
  cases hi : w.held[i]? with
  | none => exact .inl rfl
  | some r =>
    obtain ⟨hlt, hr⟩ := List.getElem?_eq_some_iff.1 hi
    refine .inr ⟨r, w.held.eraseIdx i, ?_, rfl⟩
    rw [← hr]
    exact (List.getElem_cons_eraseIdx_perm hlt).symm

/-! ### Runs in time -/

/-- The instant of an event, or of the one before. -/
def Event.at (e : Event) (t : Int) : Int := (e.setting.map (·.2.2)).getD t

theorem run_timely (env : Env) {P : World → Int → Prop} {E : Event → Prop}
    (hstep : ∀ w t e, E e → P w t → t ≤ e.at t → P (next env w e) (e.at t)) (hinit : ∀ t, P .init t)
    (hE : ∀ e ∈ es, E e) (h : Timely es) : ∃ t, P (run env .init es) t := by
  have hrun : ∀ (es : List Event) (w : World) (t : Int), (∀ e ∈ es, E e) → Timely es →
      (∀ u ∈ es.filterMap fun e => e.setting.map (·.2.2), t ≤ u) → P w t → ∃ t, P (run env w es) t := by
    intro es
    induction es with
    | nil => exact fun w t _ _ _ hw => ⟨t, hw⟩
    | cons e es ih =>
      intro w t hE h ht hw
      have hlater : Timely es ∧ t ≤ e.at t ∧ ∀ u ∈ es.filterMap fun e => e.setting.map (·.2.2), e.at t ≤ u := by
        unfold Timely at h ⊢
        unfold Event.at
        cases hsetting : e.setting with
        | none =>
          simp only [List.filterMap_cons, hsetting, Option.map_none, Option.getD_none] at h ht ⊢
          exact ⟨h, le_rfl, ht⟩
        | some x =>
          simp only [List.filterMap_cons, hsetting, Option.map_some, Option.getD_some, List.pairwise_cons,
            List.mem_cons, forall_eq_or_imp] at h ht ⊢
          exact ⟨h.2, ht.1, h.1⟩
      obtain ⟨htimely, hle, hrest⟩ := hlater
      exact ih _ _ (fun e' he' => hE e' (List.mem_cons_of_mem _ he')) htimely hrest
        (hstep w t e (hE e (List.mem_cons_self ..)) hw hle)
  cases htimes : es.filterMap fun e => e.setting.map (·.2.2) with
  | nil => exact hrun es .init 0 hE h (by simp [htimes]) (hinit 0)
  | cons t times =>
    refine hrun es .init t hE h (fun u hu => ?_) (hinit t)
    unfold Timely at h
    rw [htimes] at h hu
    rcases List.mem_cons.1 hu with rfl | hu
    · exact le_rfl
    · exact (List.pairwise_cons.1 h).1 u hu

/-! ### A day of one account -/

def plainEnv : Env := ⟨id, fun a b => a.toLower = b.toLower⟩

/-- One message a day is free, and two more may be paid. -/
def dayAccount : Account :=
  { provider := "smtp", endpoint := "", region := "", accountID := "", apiKey := "", apiSecret := "", billingEndpoint := ""
    quota := ⟨1, .day⟩, forceSend := true, overage := ⟨2, .day⟩, pricing :=
      ⟨"USD", .proportional, [⟨0, 250000, 1⟩]⟩
    balanceMicros := some 1000000, fetchBalance := false }

def dayRate : Rate := ⟨50, 60000⟩

/-- Five messages, of which the first three go out, and the second one is refunded; the last one is sent on the next day. -/
def daySends : List Event :=
  [.reserve dayAccount dayRate 1760000000000, .reserve dayAccount dayRate 1760000001000,
    .reserve dayAccount dayRate 1760000002000, .reserve dayAccount dayRate 1760000003000, .refund 1,
    .reserve dayAccount dayRate 1760086400000]

theorem daySends_timely : Timely daySends := by
  simp [Timely, daySends, Event.setting]

theorem daySends_setting : ∀ e ∈ daySends, ∀ x ∈ e.setting, x.1 = dayAccount ∧ x.2.1 = dayRate := by
  simp [daySends, Event.setting]

/-! ### The counters are the reservations -/

structure Counted (s : AccountState) (held : List Reservation) (t : Int) : Prop where
  usage : ∀ p, Counts (fun _ => true) (fun r => r.periods p) held (s.usage p)
  overage : ∀ p, Counts Reservation.paid (fun r => r.periods p) held (s.overage p)
  same : ∀ p, (s.overage p).start = (s.usage p).start
  past : ∀ p, ∀ r ∈ held, (s.usage p).start ≤ window p t
  charged : s.charged = held.length

namespace Counted

theorem congr (h : Counted s held t) (husage : s'.usage = s.usage) (hoverage : s'.overage = s.overage)
    (hcharged : s'.charged = s.charged) : Counted s' held t := by
  refine ⟨?_, ?_, ?_, ?_, ?_⟩ <;> simp only [husage, hoverage, hcharged]
  exacts [h.usage, h.overage, h.same, h.past, h.charged]

theorem normalize (h : Counted s held t) (hle : t ≤ now) : Counted (normalize env s a rate now) held now := by
  have hpast : ∀ p, ∀ r ∈ held, (s.usage p).start ≤ window p now := fun p r hr =>
    (h.past p r hr).trans (window_mono p hle)
  refine ⟨fun p => ?_, fun p => ?_, fun p => ?_, fun p r _ => ?_, ?_⟩
  · rw [normalize_usage]
    exact (h.usage p).roll (hpast p)
  · rw [normalize_overage]
    exact (h.overage p).roll fun r hr => by
      rw [h.same]
      exact hpast p r hr
  · simp
  · simp
  · rw [normalize_charged, h.charged]

theorem debit (h : Counted s held t) (hnow : ∀ p, (s.usage p).start ≤ window p t) (paid : Bool) (cost : Int) :
    Counted (debit s paid cost).1 ((debit s paid cost).2 :: held) t := by
  refine ⟨fun p => (h.usage p).take rfl rfl, fun p => ?_, fun p => ?_, fun p r _ => hnow p, ?_⟩
  · cases paid with
    | true => exact (h.overage p).take (h.same p).symm rfl
    | false => exact (h.overage p).pass (h.same p).ge rfl
  · cases paid <;> exact h.same p
  · show s.charged + 1 = _
    rw [h.charged, List.length_cons]
    omega

theorem refund {rest : List Reservation} (h : Counted s held t) (hperm : held.Perm (r :: rest)) :
    Counted (refund s r) rest t := by
  have hmem : ∀ r' ∈ rest, r' ∈ held := fun r' hr' => hperm.mem_iff.2 (List.mem_cons_of_mem _ hr')
  have hlen := hperm.length_eq
  rw [List.length_cons] at hlen
  refine ⟨fun p => (h.usage p).give hperm, fun p => (h.overage p).give hperm, fun p => ?_, fun p r' hr' => ?_, ?_⟩
  · show (if r.paid = true then (s.overage p).give (r.periods p) else s.overage p).start =
      ((s.usage p).give (r.periods p)).start
    split <;> simp [h.same p]
  · show ((s.usage p).give (r.periods p)).start ≤ _
    rw [Counter.give_start]
    exact h.past p r' (hmem r' hr')
  · show (if 0 < s.charged then s.charged - 1 else s.charged) = _
    rw [h.charged, if_pos (by omega)]
    omega

end Counted

theorem calibrate_counters (env : Env) (s : AccountState) (a : Account) (b : Budget) (now : Int) :
    (calibrate env s a b now).usage = s.usage ∧
    (calibrate env s a b now).overage = s.overage ∧ (calibrate env s a b now).charged = s.charged ∧
    (calibrate env s a b now).rate = s.rate ∧ (calibrate env s a b now).attempts = s.attempts := by
  dsimp only [calibrate]
  split_ifs <;> exact ⟨rfl, rfl, rfl, rfl, rfl⟩

theorem Counted.next (h : Counted w.state w.held t) (e : Event) (hle : t ≤ e.at t) :
    Counted (next env w e).state (next env w e).held (e.at t) := by
  cases e with
  | reserve a rate now =>
    rcases next_reserve env w a rate now with heq | ⟨paid, cost, -, heq⟩
    · rw [heq]
      exact ⟨h.usage, h.overage, h.same, fun p r hr => (h.past p r hr).trans (window_mono p hle), h.charged⟩
    · rw [heq]
      exact (h.normalize hle).debit (fun p => by simp [Event.at, Event.setting]) paid cost
  | refund i =>
    rcases next_refund env w i with heq | ⟨r, rest, hperm, heq⟩
    · rw [heq]
      exact h
    · rw [heq]
      exact h.refund hperm
  | calibrate a rate b failed now =>
    obtain ⟨husage, hoverage, hcharged, -, -⟩ := calibrate_counters env
      (Mail.normalize env w.state a rate now) a b now
    exact (h.normalize hle).congr husage hoverage hcharged
  | failPreparation a rate now =>
    simp only [Mail.next]
    split
    · exact (h.normalize hle).congr rfl rfl rfl
    · exact ⟨h.usage, h.overage, h.same, fun p r hr => (h.past p r hr).trans (window_mono p hle), h.charged⟩

theorem Counted.init (t : Int) : Counted World.init.state World.init.held t :=
  ⟨fun _ => .empty _ rfl, fun _ => .empty _ rfl, fun _ => rfl, by simp [World.init], rfl⟩

/-- In every run the usage of each current bucket is the number of its reservations that were not refunded, the overage that
of the paid ones among them, and `charged` is the number of all that were not refunded; whatever the configurations were. -/
theorem run_counted (h : Timely es) (p : Period) :
    ((run env .init es).state.usage p).used = issued (fun _ => true) (fun r => r.periods p) (run env .init es).held
      ((run env .init es).state.usage p).start ∧
    ((run env .init es).state.overage p).used = issued Reservation.paid (fun r => r.periods p) (run env .init es).held
      ((run env .init es).state.usage p).start ∧
    (run env .init es).state.charged = (run env .init es).held.length := by
  obtain ⟨t, ht⟩ := run_timely env (P := fun w t => Counted w.state w.held t) (E := fun _ => True)
    (fun w t e _ hw hle => hw.next e hle) Counted.init (fun _ _ => trivial) h
  exact ⟨(ht.usage p).used, (ht.same p) ▸ (ht.overage p).used, ht.charged⟩

theorem run_counted_day : ((run plainEnv .init daySends).state.usage .day).used =
    issued (fun _ => true) (fun r => r.periods .day) (run plainEnv .init daySends).held
      ((run plainEnv .init daySends).state.usage .day).start := (run_counted daySends_timely .day).1

example : (run plainEnv .init daySends).held.length = 3 ∧ ((run plainEnv .init daySends).state.usage .day).used = 1 ∧
    ((run plainEnv .init daySends).state.usage .month).used = 3 := by decide

/-! ### No window gets more than its limit -/

/-- The limits that the reservations of one quota and one overage keep. -/
structure Limited (quota overage : Quota) (held : List Reservation) : Prop where
  unpaid : AtMost quota.limit (fun r => !r.paid) (fun r => r.periods quota.period) held
  paid : 0 ≤ overage.limit → AtMost overage.limit Reservation.paid (fun r => r.periods overage.period) held

theorem Limited.debit {quota overage : Quota} {paid : Bool} {cost : Int} (h : Limited quota overage held)
    (hc : Counted s held t) (hpos : 0 < quota.limit) (hquota : a.quota = quota) (hover : a.overage = overage)
    (hq : Quoted s a rate paid cost) :
    Limited quota overage ((debit s paid cost).2 :: held) := by
  subst hquota hover
  cases paid with
  | true =>
    refine ⟨h.unpaid.pass rfl, fun hlimit => ?_⟩
    exact (h.paid hlimit).take (hc.overage _) (fun _ => id) (hc.same _).symm ((hq.forced rfl).2 hlimit)
  | false =>
    have hroom : (s.usage a.quota.period).used < a.quota.limit := by
      have hdue := hq.due
      simp only [exhausted, hpos, decide_true, Bool.true_and, Bool.false_eq, Bool.or_eq_false_iff,
        decide_eq_false_iff_not] at hdue
      omega
    refine ⟨h.unpaid.take (hc.usage _) (fun _ _ => rfl) rfl hroom, fun hlimit => (h.paid hlimit).pass rfl⟩

/-- While the quota of an account is not edited, no bucket of its period ever has more unpaid messages that were not refunded
than the quota, and no bucket of the overage's period more paid ones than that limit; without `ForceSend` none is paid. -/
theorem run_limited (h : Timely es) {quota overage : Quota} (hpos : 0 < quota.limit)
    (hquota : ∀ e ∈ es, ∀ x ∈ e.setting, x.1.quota = quota ∧ x.1.overage = overage) :
    (∀ start, (issued (fun r => !r.paid) (fun r => r.periods quota.period) (run env .init es).held start : Int) ≤
      quota.limit) ∧ (0 ≤ overage.limit → ∀ start,
      (issued Reservation.paid (fun r => r.periods overage.period) (run env .init es).held start : Int) ≤ overage.limit) ∧
    ((∀ e ∈ es, ∀ x ∈ e.setting, x.1.forceSend = false) → ∀ r ∈ (run env .init es).held, r.paid = false) := by
  have hlimited : ∃ t, Counted (run env .init es).state (run env .init es).held t ∧
      Limited quota overage (run env .init es).held := by
    refine run_timely env (P := fun w t => Counted w.state w.held t ∧ Limited quota overage w.held)
      (fun w t e hE hw hle => ⟨hw.1.next e hle, ?_⟩)
      (fun t => ⟨Counted.init t, AtMost.empty hpos.le, fun hlimit => AtMost.empty hlimit⟩) hquota h
    cases e with
    | reserve a rate now =>
      obtain ⟨hquota, hover⟩ := hE _ rfl
      rcases next_reserve env w a rate now with heq | ⟨paid, cost, hq, heq⟩
      · rw [heq]
        exact hw.2
      · rw [heq]
        exact hw.2.debit (hw.1.normalize hle) hpos hquota hover hq
    | refund i =>
      rcases next_refund env w i with heq | ⟨r, rest, hperm, heq⟩
      · rw [heq]
        exact hw.2
      · rw [heq]
        exact ⟨hw.2.unpaid.give hperm, fun hlimit => (hw.2.paid hlimit).give hperm⟩
    | calibrate a rate b failed now => exact hw.2
    | failPreparation a rate now =>
      simp only [next]
      split <;> exact hw.2
  obtain ⟨-, -, hunpaid, hpaid⟩ := hlimited
  refine ⟨hunpaid, hpaid, fun hforce => ?_⟩
  have hnone : ∃ _ : Int, ∀ r ∈ (run env .init es).held, r.paid = false := by
    refine run_timely env (P := fun w _ => ∀ r ∈ w.held, r.paid = false) (fun w t e hE hw _ => ?_)
      (fun _ => by simp [World.init]) hforce h
    cases e with
    | reserve a rate now =>
      rcases next_reserve env w a rate now with heq | ⟨paid, cost, hq, heq⟩
      · rw [heq]
        exact hw
      · rw [heq]
        rintro r hr
        rcases List.mem_cons.1 hr with rfl | hr
        · have hnot := hE _ rfl
          show paid = false
          by_contra hpaid
          have hpaid : paid = true := by simpa using hpaid
          rw [(hq.forced hpaid).1] at hnot
          cases hnot
        · exact hw r hr
    | refund i =>
      rcases next_refund env w i with heq | ⟨r, rest, hperm, heq⟩
      · rw [heq]
        exact hw
      · rw [heq]
        exact fun r' hr' => hw r' (hperm.mem_iff.2 (List.mem_cons_of_mem _ hr'))
    | calibrate a rate b failed now => exact hw
    | failPreparation a rate now =>
      simp only [next]
      split <;> exact hw
  obtain ⟨-, hnone⟩ := hnone
  exact hnone

theorem run_limited_day :
    (issued (fun r => !r.paid) (fun r => r.periods .day) (run plainEnv .init daySends).held 1759968000000 : Int) ≤ 1 :=
  (@run_limited plainEnv daySends daySends_timely ⟨1, .day⟩ ⟨2, .day⟩ (by decide) fun e he x hx => by
    rw [(daySends_setting e he x hx).1]
    exact ⟨rfl, rfl⟩).1 _

/-! ### The rate of attempts -/

theorem normalize_rate (hi : 0 < rate.interval) :
    (normalize env s a rate now).rate = s.rate.roll (intervalStart rate.interval now) := by
  simp only [normalize, AccountState.setBalance, AccountState.rollRate, AccountState.rollBuckets, AccountState.setCurrency,
    AccountState.reconfigure, if_pos hi]
  split_ifs <;> rfl

theorem normalize_attempts : (normalize env s a rate now).attempts = s.attempts := by
  simp only [normalize, AccountState.setBalance, AccountState.rollRate, AccountState.rollBuckets, AccountState.setCurrency,
    AccountState.reconfigure]
  split_ifs <;> rfl

structure Paced (rate : Rate) (s : AccountState) (attempts : List Int) (t : Int) : Prop where
  counts : Counts (fun _ => true) (intervalStart rate.interval) attempts s.rate
  atMost : AtMost rate.limit (fun _ => true) (intervalStart rate.interval) attempts
  past : ∀ u ∈ attempts, s.rate.start ≤ intervalStart rate.interval t
  attempts : s.attempts = attempts.length

namespace Paced
variable {attempts : List Int}

theorem later (h : Paced rate s attempts t) (hi : 0 < rate.interval) (hle : t ≤ now) : Paced rate s attempts now :=
  ⟨h.counts, h.atMost, fun u hu => (h.past u hu).trans (intervalStart_mono hi hle), h.attempts⟩

theorem normalize (h : Paced rate s attempts t) (hi : 0 < rate.interval) (hle : t ≤ now) :
    Paced rate (normalize env s a rate now) attempts now := by
  refine ⟨?_, h.atMost, fun u _ => ?_, by rw [normalize_attempts, h.attempts]⟩
  · rw [normalize_rate hi]
    exact h.counts.roll (h.later hi hle).past
  · rw [normalize_rate hi, Counter.roll_start]

theorem attempt (h : Paced rate s attempts now) (hstart : s.rate.start = intervalStart rate.interval now)
    (hroom : s.rate.used < rate.limit) (hrate : s'.rate = s.rate.take) (hattempts : s'.attempts = s.attempts + 1) :
    Paced rate s' (now :: attempts) now := by
  refine ⟨?_, h.atMost.take h.counts (fun _ => id) hstart.symm hroom, fun u _ => ?_, ?_⟩
  · rw [hrate]
    exact h.counts.take hstart.symm rfl
  · rw [hrate]
    exact hstart.le
  · rw [hattempts, h.attempts, List.length_cons]
    omega

end Paced

/-- While the rate is not edited, no aligned interval has more attempts than its limit, refunded and failed ones with the
others, and `attempts` counts them all. -/
theorem run_paced (h : Timely es) {rate : Rate} (hi : 0 < rate.interval) (hlimit : 0 ≤ rate.limit)
    (hrate : ∀ e ∈ es, ∀ x ∈ e.setting, x.2.1 = rate) :
    (∀ start, (issued (fun _ => true) (intervalStart rate.interval) (run env .init es).attempts start : Int) ≤ rate.limit)
      ∧ (run env .init es).state.attempts = (run env .init es).attempts.length := by
  suffices hpaced : ∃ t, Paced rate (run env .init es).state (run env .init es).attempts t by
    obtain ⟨t, ht⟩ := hpaced
    exact ⟨ht.atMost, ht.attempts⟩
  refine run_timely env (P := fun w t => Paced rate w.state w.attempts t) (fun w t e hE hw hle => ?_)
    (fun t => ⟨.empty _ rfl, AtMost.empty hlimit, by simp [World.init], rfl⟩) hrate h
  cases e with
  | reserve a rate' now =>
    obtain rfl : rate' = rate := hE _ rfl
    rcases next_reserve env w a rate' now with heq | ⟨paid, cost, hq, heq⟩
    · rw [heq]
      exact hw.later hi hle
    · rw [heq]
      exact (hw.normalize hi hle).attempt (by rw [normalize_rate hi, Counter.roll_start]) hq.within rfl rfl
  | refund i =>
    rcases next_refund env w i with heq | ⟨r, rest, hperm, heq⟩
    · rw [heq]
      exact hw
    · rw [heq]
      exact ⟨hw.counts, hw.atMost, hw.past, hw.attempts⟩
  | calibrate a rate' b failed now =>
    obtain rfl : rate' = rate := hE _ rfl
    obtain ⟨-, -, -, hrate, hattempts⟩ := calibrate_counters env
      (Mail.normalize env w.state a rate' now) a b now
    have hnormal : Paced rate' (Mail.normalize env w.state a rate' now) w.attempts now := hw.normalize hi hle
    have hcal : Paced rate' (Mail.calibrate env (Mail.normalize env w.state a rate' now) a b now) w.attempts now := by
      refine ⟨?_, hnormal.atMost, ?_, ?_⟩
      · rw [hrate]
        exact hnormal.counts
      · rw [hrate]
        exact hnormal.past
      · rw [hattempts]
        exact hnormal.attempts
    exact ⟨hcal.counts, hcal.atMost, hcal.past, hcal.attempts⟩
  | failPreparation a rate' now =>
    obtain rfl : rate' = rate := hE _ rfl
    have hnormal : Paced rate' (Mail.normalize env w.state a rate' now) w.attempts now := hw.normalize hi hle
    simp only [next]
    split
    · rename_i hroom
      exact hnormal.attempt (by rw [normalize_rate hi, Counter.roll_start]) hroom rfl rfl
    · exact hw.later hi hle

theorem run_paced_day :
    (issued (fun _ => true) (intervalStart 60000) (run plainEnv .init daySends).attempts 1759999980000 : Int) ≤ 50 ∧ (run plainEnv .init daySends).state.attempts = 4 := by
  obtain ⟨hpaced, hattempts⟩ := @run_paced plainEnv daySends daySends_timely dayRate (by decide) (by decide)
    fun e he x hx => (daySends_setting e he x hx).2
  exact ⟨hpaced _, hattempts.trans (by decide)⟩

/-! ### The balance -/

def costs (held : List Reservation) : Int := (held.map Reservation.costMicros).sum

theorem costs_cons (r : Reservation) (held : List Reservation) :
    costs (r :: held) = r.costMicros + costs held := by simp [costs]

theorem costs_perm {held rest : List Reservation} (h : held.Perm rest) : costs held = costs rest := (h.map _).sum_eq

theorem costs_nonneg (h : ∀ r ∈ held, 0 ≤ r.costMicros) : 0 ≤ costs held := by
  induction held with
  | nil => simp [costs]
  | cons r held ih =>
    have hr := h r (List.mem_cons_self ..)
    have hrest := ih fun r' hr' => h r' (List.mem_cons_of_mem _ hr')
    rw [costs_cons]
    omega

/-- The configuration stays, and no lookup reports a balance in its currency. -/
def Event.KeepsBalance (env : Env) (a : Account) : Event → Prop
  | .reserve a' _ _ => a' = a
  | .refund _ => True
  | .calibrate a' _ b _ _ => a' = a ∧ (b.balanceMicros = none ∨ env.equalFold b.currency a.pricing.currency = false)
  | .failPreparation a' _ _ => a' = a

/-- What is left of the balance `B` of an account. -/
structure Counting (a : Account) (B : Int) (s : AccountState) (held : List Reservation) : Prop where
  manual : s.manualBalance = some B
  balance : s.balanceMicros = some (B - costs held)
  currency : s.currency = a.pricing.currency
  spent : s.spentMicros = costs held

structure Billed (env : Env) (a : Account) (B : Int) (s : AccountState) (held : List Reservation) : Prop where
  configuration : s.configuration = "" ∨ s.configuration = fingerprint env a
  fits : costs held ≤ B
  tickets : ∀ r ∈ held, r.currency = a.pricing.currency ∧ r.manualBalance = some B ∧ 0 ≤ r.costMicros
  /-- Before the first call nothing is counted. -/
  counts : Counting a B s held ∨ (s.manualBalance = none ∧ s.balanceMicros = none ∧ s.spentMicros = 0 ∧ held = [])

theorem rolled (s : AccountState) (rate : Rate) (now : Int) :
    ((s.rollBuckets now).rollRate rate now).configuration = s.configuration ∧
    ((s.rollBuckets now).rollRate rate now).currency = s.currency ∧
    ((s.rollBuckets now).rollRate rate now).manualBalance = s.manualBalance ∧
    ((s.rollBuckets now).rollRate rate now).balanceMicros = s.balanceMicros ∧
    ((s.rollBuckets now).rollRate rate now).spentMicros = s.spentMicros := by
  unfold AccountState.rollRate
  split <;> exact ⟨rfl, rfl, rfl, rfl, rfl⟩

theorem setCurrency_spent (a : Account) (h : s.spentMicros = 0) : (s.setCurrency a).configuration = s.configuration ∧
    (s.setCurrency a).currency = a.pricing.currency ∧ (s.setCurrency a).manualBalance = s.manualBalance ∧
    (s.setCurrency a).spentMicros = 0 := by
  unfold AccountState.setCurrency
  split
  · exact ⟨rfl, rfl, rfl, rfl⟩
  · rename_i hsame
    exact ⟨rfl, not_not.1 hsame, rfl, h⟩

theorem setBalance_same {B : Int} (h : s.manualBalance = a.balanceMicros) (ha : a.balanceMicros = some B) :
    s.setBalance a = s := by
  simp [AccountState.setBalance, h, ha]

theorem setBalance_new {B : Int} (h : s.manualBalance = none) (ha : a.balanceMicros = some B) :
    s.setBalance a = { s with manualBalance := some B, balanceMicros := some B } := by
  simp [AccountState.setBalance, h, ha]

namespace Billed
variable {B : Int}

theorem normalize (h : Billed env a B s held) (ha : a.balanceMicros = some B) :
    (normalize env s a rate now).configuration = fingerprint env a ∧ Counting a B (normalize env s a rate now) held := by
  have hsame : ¬(s.configuration ≠ "" ∧ s.configuration ≠ fingerprint env a) := by
    rintro ⟨h1, h2⟩
    exact h.configuration.elim h1 h2
  have hreconfigure : s.reconfigure env a = { s with configuration := fingerprint env a } := if_neg hsame
  unfold Mail.normalize
  rw [hreconfigure]
  rcases h.counts with hc | ⟨hmanual, hbalance, hspent, rfl⟩
  · have hcurrency : ({ s with configuration := fingerprint env a } : AccountState).setCurrency a =
        { s with configuration := fingerprint env a } := if_neg (not_not_intro hc.currency)
    rw [hcurrency]
    obtain ⟨h1, h2, h3, h4, h5⟩ := rolled { s with configuration := fingerprint env a } rate now
    rw [setBalance_same (h3.trans (hc.manual.trans ha.symm)) ha]
    exact ⟨h1, h3.trans hc.manual, h4.trans hc.balance, h2.trans hc.currency, h5.trans hc.spent⟩
  · obtain ⟨hconfiguration, hcurrency, hmanual', hspent'⟩ :=
      @setCurrency_spent { s with configuration := fingerprint env a } a hspent
    obtain ⟨h1, h2, h3, h4, h5⟩ :=
      rolled (({ s with configuration := fingerprint env a } : AccountState).setCurrency a) rate now
    rw [setBalance_new (h3.trans (hmanual'.trans hmanual)) ha]
    exact ⟨h1.trans hconfiguration, rfl, by simp [costs], h2.trans hcurrency, h5.trans hspent'⟩

theorem debit {paid : Bool} {cost : Int} (h : Billed env a B s held) (hc : Counting a B s held)
    (hq : Quoted s a rate paid cost) :
    Billed env a B (debit s paid cost).1 ((debit s paid cost).2 :: held) := by
  have hcost : costs ((Mail.debit s paid cost).2 :: held) = cost + costs held := costs_cons _ _
  have hleft := hq.covered _ hc.balance
  refine ⟨h.configuration, by omega, fun r hr => ?_, .inl ⟨hc.manual, ?_, hc.currency, ?_⟩⟩
  · rcases List.mem_cons.1 hr with rfl | hr
    · exact ⟨hc.currency, hc.manual, hq.nonneg⟩
    · exact h.tickets r hr
  · show s.balanceMicros.map (· - cost) = _
    rw [hc.balance, Option.map_some, hcost]
    congr 1
    omega
  · show s.spentMicros + cost = _
    rw [hc.spent, hcost]
    omega

theorem refund {rest : List Reservation} (h : Billed env a B s held) (hperm : held.Perm (r :: rest)) :
    Billed env a B (refund s r) rest := by
  have hmem : r ∈ held := hperm.mem_iff.2 (List.mem_cons_self ..)
  obtain ⟨hcurrency, hmanual, hcost⟩ := h.tickets r hmem
  have hsum : costs held = r.costMicros + costs rest := (costs_perm hperm).trans (costs_cons r rest)
  have hfits := h.fits
  refine ⟨h.configuration, by omega, fun r' hr' => h.tickets r' (hperm.mem_iff.2 (List.mem_cons_of_mem _ hr')), ?_⟩
  rcases h.counts with hc | ⟨-, -, -, rfl⟩
  · have hback : refundsBalance s r = true := by simp [refundsBalance, hc.manual, hc.currency, hcurrency, hmanual]
    refine .inl ⟨hc.manual, ?_, hc.currency, ?_⟩
    · show (if refundsBalance s r = true then s.balanceMicros.map (· + r.costMicros) else s.balanceMicros) = _
      rw [if_pos hback, hc.balance, Option.map_some]
      congr 1
      omega
    · show (if s.currency = r.currency then s.spentMicros - r.costMicros else s.spentMicros) = _
      rw [if_pos (hc.currency.trans hcurrency.symm), hc.spent]
      omega
  · simp at hmem

theorem next (h : Billed env a B w.state w.held) (ha : a.balanceMicros = some B) {e : Event} (he : e.KeepsBalance env a) :
    Billed env a B (next env w e).state (next env w e).held := by
  have hnormal : ∀ rate now, Billed env a B (Mail.normalize env w.state a rate now) w.held ∧
      Counting a B (Mail.normalize env w.state a rate now) w.held := by
    intro rate now
    obtain ⟨hconfiguration, hcounting⟩ : (Mail.normalize env w.state a rate now).configuration = fingerprint env a ∧
        Counting a B (Mail.normalize env w.state a rate now) w.held := h.normalize ha
    exact ⟨⟨.inr hconfiguration, h.fits, h.tickets, .inl hcounting⟩, hcounting⟩
  cases e with
  | reserve a' rate now =>
    obtain rfl : a' = a := he
    rcases next_reserve env w a' rate now with heq | ⟨paid, cost, hq, heq⟩
    · rw [heq]
      exact h
    · rw [heq]
      exact (hnormal rate now).1.debit (hnormal rate now).2 hq
  | refund i =>
    rcases next_refund env w i with heq | ⟨r, rest, hperm, heq⟩
    · rw [heq]
      exact h
    · rw [heq]
      exact h.refund hperm
  | calibrate a' rate b failed now =>
    obtain ⟨rfl, hb⟩ := he
    obtain ⟨hbilled, hc⟩ := hnormal rate now
    have hskip : ¬(b.balanceMicros ≠ none ∧ env.equalFold b.currency a'.pricing.currency = true) := by
      rintro ⟨h1, h2⟩
      rcases hb with hb | hb
      · exact h1 hb
      · rw [hb] at h2
        cases h2
    simp only [Mail.next, Mail.calibrate, if_neg hskip]
    exact ⟨hbilled.configuration, h.fits, h.tickets, .inl ⟨hc.manual, hc.balance, hc.currency, hc.spent⟩⟩
  | failPreparation a' rate now =>
    obtain rfl : a' = a := he
    obtain ⟨hbilled, hc⟩ := hnormal rate now
    simp only [Mail.next]
    split
    · exact ⟨hbilled.configuration, h.fits, h.tickets, .inl ⟨hc.manual, hc.balance, hc.currency, hc.spent⟩⟩
    · exact h

end Billed

/-- While the configuration stays and no lookup reports another balance, what was spent is the cost of the messages that were
not refunded, it never passes the configured balance, and the balance is what it leaves. -/
theorem run_balance {B : Int} (hB : 0 ≤ B) (ha : a.balanceMicros = some B) (hkeeps : ∀ e ∈ es, e.KeepsBalance env a) :
    (run env .init es).state.spentMicros = costs (run env .init es).held ∧ 0 ≤ costs (run env .init es).held ∧
    costs (run env .init es).held ≤ B ∧
    ((run env .init es).state.balanceMicros = some (B - costs (run env .init es).held) ∨
      (run env .init es).state.balanceMicros = none ∧ (run env .init es).held = []) := by
  have hrun : ∀ (es : List Event) (w : World), (∀ e ∈ es, e.KeepsBalance env a) → Billed env a B w.state w.held →
      Billed env a B (run env w es).state (run env w es).held := by
    intro es
    induction es with
    | nil => exact fun w _ hw => hw
    | cons e es ih =>
      exact fun w hes hw => ih _ (fun e' he' => hes e' (List.mem_cons_of_mem _ he'))
        (hw.next ha (hes e (List.mem_cons_self ..)))
  have hbilled : Billed env a B (run env .init es).state (run env .init es).held :=
    hrun es .init hkeeps ⟨.inl rfl, hB, by simp [World.init], .inr ⟨rfl, rfl, rfl, rfl⟩⟩
  have hnonneg := costs_nonneg fun r hr => (hbilled.tickets r hr).2.2
  rcases hbilled.counts with hc | ⟨-, hbalance, hspent, hheld⟩
  · exact ⟨hc.spent, hnonneg, hbilled.fits, .inl hc.balance⟩
  · exact ⟨by rw [hspent, hheld]; rfl, hnonneg, hbilled.fits, .inr ⟨hbalance, hheld⟩⟩

theorem run_balance_day : (run plainEnv .init daySends).state.spentMicros = 250000 ∧
    (run plainEnv .init daySends).state.balanceMicros = some 750000 := by
  have hcosts : costs (run plainEnv .init daySends).held = 250000 := by decide
  obtain ⟨hspent, -, -, hbalance⟩ := @run_balance plainEnv dayAccount daySends 1000000 (by decide) rfl
    (by simp [daySends, Event.KeepsBalance])
  rw [hcosts] at hspent hbalance
  refine ⟨hspent, ?_⟩
  rcases hbalance with h | ⟨-, h⟩
  · exact h
  · rw [h] at hcosts
    exact absurd hcosts (by decide)

end Renop.Mail
