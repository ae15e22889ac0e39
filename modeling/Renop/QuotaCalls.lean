import Renop.Quota

/-!
# What the quota calls do

Inversion lemmas for the calls: `reserve_cases` for an admitted reservation, `commit_cases` for a
commit that returns `nil`. `Wellformed` is what they keep in any order: no amount is negative and no
two reservations share an id, so the guard of the commit rules out a wrap of `int64`.
-/

namespace Renop.Quota

variable {text : Text}

/-! ### Int64 -/

section Int64
variable {used reserved requested limit : Int64}

theorem toInt_nonneg {x : Int64} : 0 ≤ x ↔ 0 ≤ x.toInt := by
  rw [Int64.le_iff_toInt_le, Int64.toInt_zero]

theorem toInt_sub_le {a b : Int64} (hb : 0 ≤ b.toInt) (h : b.toInt ≤ a.toInt) : (a - b).toInt = a.toInt - b.toInt := by
  have ha := a.toInt_lt
  rw [Int64.toInt_sub, Int.bmod_eq_of_le] <;> omega

theorem toInt_add_guard {a b : Int64} (ha : 0 ≤ a.toInt) (hb : 0 ≤ b.toInt) (h : ¬ a > Int64.maxValue - b) :
    (a + b).toInt = a.toInt + b.toInt := by
  have hmax : (Int64.maxValue - b).toInt = 2 ^ 63 - 1 - b.toInt := by
    rw [toInt_sub_le hb (b.toInt_le), Int64.toInt_maxValue]
  rw [gt_iff_lt, Int64.lt_iff_toInt_lt, hmax] at h
  rw [Int64.toInt_add, Int.bmod_eq_of_le] <;> omega

theorem not_exceeded (h : publicationQuotaExceeded used reserved requested limit = false) :
    0 ≤ used.toInt ∧ 0 ≤ reserved.toInt ∧ 0 ≤ requested.toInt ∧
      used.toInt + reserved.toInt + requested.toInt ≤ limit.toInt := by
  unfold publicationQuotaExceeded at h
  split_ifs at h with hc
  simp only [Bool.or_eq_true, decide_eq_true_eq, decide_eq_false_iff_not, not_or, gt_iff_lt,
    Int64.lt_iff_toInt_lt, Int64.toInt_zero, Int.not_lt] at hc h
  obtain ⟨⟨⟨⟨⟨h1, h2⟩, h3⟩, h4⟩, h5⟩, h6⟩ := hc
  have e1 : (limit - used).toInt = limit.toInt - used.toInt := toInt_sub_le h1 h5
  rw [e1] at h6
  have e2 : (limit - used - reserved).toInt = limit.toInt - used.toInt - reserved.toInt := by
    rw [toInt_sub_le h2 (by rw [e1]; omega), e1]
  rw [e2] at h
  omega

end Int64

/-! ### What the calls do -/

theorem normalize_frame {db db' : QuotaDB} {subject : Subject} {userId : String} {owner : Owner}
    (h : normalizePublicationQuotaSubject text db subject userId = .ok (owner, db')) :
    db'.overrides = db.overrides ∧ db'.usage = db.usage ∧ db'.reservations = db.reservations := by
  have hsame : ∀ o, (.ok (o, db) : Except QuotaError (Owner × QuotaDB)) = .ok (owner, db') → db' = db :=
    fun o h => (congrArg Prod.snd (Except.ok.inj h)).symm
  unfold normalizePublicationQuotaSubject at h
  dsimp only at h
  split at h
  · cases h
  split at h
  · split at h
    · rw [hsame _ h]; exact ⟨rfl, rfl, rfl⟩
    split at h
    · cases h; exact ⟨rfl, rfl, rfl⟩
    · cases h
  split at h
  · split at h
    · cases h
    split at h
    · rw [hsame _ h]; exact ⟨rfl, rfl, rfl⟩
    · cases h
  · cases h

theorem effective_inherited {db dbn : QuotaDB} {subject : Subject} {userId : String} {owner : Owner} {defaults : Limits}
    (h : normalizePublicationQuotaSubject text db subject userId = .ok (owner, dbn))
    (ho : db.overrides owner = none) (hv : validatePublicationQuotaLimits defaults = true) :
    effectivePublicationQuota dbn owner defaults = .ok (defaults, false) := by
  unfold effectivePublicationQuota
  rw [if_pos hv, (normalize_frame h).1, ho]

theorem scanInt64_ok {n : Int} {x : Int64} (h : scanInt64 n = .ok x) : x.toInt = n := by
  unfold scanInt64 at h
  split_ifs at h with hr
  cases h
  exact Int64.toInt_ofInt_of_le hr.1 hr.2

theorem loadReservations_ok {db : QuotaDB} {owner : Owner} {w now : Int} {a : Amounts}
    (h : loadPublicationQuotaReservations db owner w now = .ok a) (d : Dimension) :
    (a.get d).toInt = total (db.active owner w now) d := by
  unfold loadPublicationQuotaReservations at h
  simp only [bind, Except.bind, pure, Except.pure] at h
  split at h
  · cases h
  split at h
  · cases h
  split at h
  · cases h
  rename_i _ _ hf _ _ hb _ _ hp
  cases h
  cases d
  exacts [scanInt64_ok hf, scanInt64_ok hb, scanInt64_ok hp]

/-- A successful `reservePublicationQuota`: the owner is unlimited and nothing is stored, or the new
reservation fits beside what is used and alive in its window. -/
theorem reserve_cases {db db' : QuotaDB} {subject : Subject} {defaults : Limits} {delta : Amounts} {now expiresAt : Int}
    {userId id : String} {claim : Claim}
    (h : reservePublicationQuota text db subject defaults delta now expiresAt userId id = .ok (claim, db')) :
    db' = db ∨ ∃ owner dbn limits period,
      normalizePublicationQuotaSubject text db subject userId = .ok (owner, dbn) ∧
      effectivePublicationQuota dbn owner defaults = .ok (limits, false) ∧ limits.period = some period ∧
      (∀ d, 0 ≤ ((db.used owner (publicationQuotaWindow period now)).get d).toInt ∧ 0 ≤ (delta.get d).toInt ∧
        ((db.used owner (publicationQuotaWindow period now)).get d).toInt +
          total (db.active owner (publicationQuotaWindow period now) now) d + (delta.get d).toInt ≤
            (limits.limit.get d).toInt) ∧
      (∀ r ∈ db.reservations, r.id ≠ id) ∧
      db' = { dbn with reservations :=
        ⟨id, owner, publicationQuotaWindow period now, delta, expiresAt⟩ :: db.reservations } := by
  unfold reservePublicationQuota at h
  simp only [bind, Except.bind, pure, Except.pure] at h
  split at h
  · cases h
  split at h
  · cases h
  rename_i res hnorm
  obtain ⟨owner, dbn⟩ := res
  obtain ⟨-, hu, hr⟩ := normalize_frame hnorm
  dsimp only at h
  split at h
  · cases h
  rename_i lim heff
  obtain ⟨limits, unlimited⟩ := lim
  dsimp only at h
  split at h
  · cases h; exact .inl rfl
  rename_i hlim
  obtain rfl : unlimited = false := Bool.eq_false_iff.2 hlim
  split at h
  · cases h
  rename_i period hperiod
  split at h
  · cases h
  rename_i reserved hload
  split_ifs at h with hf hb hp hid
  cases h
  have hused : dbn.used = db.used := by funext o w; simp only [QuotaDB.used, hu]
  have hact : dbn.active = db.active := by funext o w t; simp only [QuotaDB.active, hr]
  rw [hused] at hf hb hp
  refine .inr ⟨owner, dbn, limits, period, hnorm, heff, hperiod, fun d => ?_, fun r hmem he => ?_, by rw [hr]⟩
  · have hd := loadReservations_ok hload d
    rw [hact] at hd
    have hex : publicationQuotaExceeded ((db.used owner (publicationQuotaWindow period now)).get d) (reserved.get d)
        (delta.get d) (limits.limit.get d) = false := by
      cases d
      exacts [Bool.eq_false_iff.2 hf, Bool.eq_false_iff.2 hb, Bool.eq_false_iff.2 hp]
    obtain ⟨h1, -, h3, h4⟩ := not_exceeded hex
    exact ⟨h1, h3, by rw [← hd]; exact h4⟩
  · rw [hr] at hid
    exact hid (List.any_eq_true.2 ⟨r, hmem, by simpa using he⟩)

theorem reserve_claim {db db' : QuotaDB} {subject : Subject} {defaults : Limits} {delta : Amounts} {now expiresAt : Int}
    {userId id : String} {claim : Claim}
    (h : reservePublicationQuota text db subject defaults delta now expiresAt userId id = .ok (claim, db')) :
    db'.usage = db.usage ∧ (claim.unlimited = false → claim.id = id ∧
      ∃ owner w, db'.reservations = ⟨id, owner, w, delta, expiresAt⟩ :: db.reservations) := by
  unfold reservePublicationQuota at h
  simp only [bind, Except.bind, pure, Except.pure] at h
  split at h
  · cases h
  split at h
  · cases h
  rename_i res hnorm
  obtain ⟨owner, dbn⟩ := res
  obtain ⟨-, hu, hr⟩ := normalize_frame hnorm
  dsimp only at h
  split at h
  · cases h
  split at h
  · cases h
    exact ⟨rfl, nofun⟩
  split at h
  · cases h
  rename_i period _
  split at h
  · cases h
  split_ifs at h
  cases h
  exact ⟨hu, fun _ => ⟨rfl, owner, publicationQuotaWindow period now, by rw [hr]⟩⟩

theorem used_zero_add (a : Amounts) : Amounts.zero.add a = a := by
  simp [Amounts.zero, Amounts.add]

theorem commit_cases {db db' : QuotaDB} {id : String} {committedAt : Int}
    (h : commitPublicationQuotaReservation text db id committedAt = .ok db') :
    ∃ r, db.reservations.find? (·.id = id) = some r ∧ r ∈ db.reservations ∧ r.id = id ∧
      (∀ d, ¬ (db.used r.owner r.periodStart).get d > Int64.maxValue - r.reserved.get d) ∧
      (∀ o w, db'.used o w = if o = r.owner ∧ w = r.periodStart then (db.used o w).add r.reserved else db.used o w) ∧
      db'.reservations = db.reservations.filter (fun r' => r'.id ≠ id) := by
  unfold commitPublicationQuotaReservation at h
  split at h
  · cases h
  split at h
  · cases h
  rename_i r hfind
  dsimp only at h
  split at h
  · cases h
  rename_i hguard
  rw [not_or, not_or] at hguard
  cases h
  refine ⟨r, hfind, List.mem_of_find?_eq_some hfind,
    by simpa using List.find?_some hfind, fun d => ?_, fun o w => ?_, rfl⟩
  · cases d
    exacts [hguard.1, hguard.2.1, hguard.2.2]
  · unfold QuotaDB.used
    dsimp only
    split_ifs with how
    · obtain ⟨rfl, rfl⟩ := how
      cases hrow : db.usage r.owner r.periodStart with
      | none => simp [used_zero_add]
      | some a => simp
    · rfl

/-! ### Wellformed tables -/

structure Wellformed (db : QuotaDB) : Prop where
  reserved : ∀ r ∈ db.reservations, ∀ d, 0 ≤ (r.reserved.get d).toInt
  used : ∀ o w d, 0 ≤ ((db.used o w).get d).toInt
  ids : (db.reservations.map Reservation.id).Nodup

namespace Wellformed
variable {db db' : QuotaDB}

theorem sub (h : Wellformed db) (hu : ∀ o w, db'.used o w = db.used o w ∨ db'.used o w = Amounts.zero)
    (hr : db'.reservations.Sublist db.reservations) : Wellformed db' := by
  refine ⟨fun r hm => h.reserved r (hr.subset hm), fun o w d => ?_, h.ids.sublist (hr.map _)⟩
  rcases hu o w with he | he <;> rw [he]
  · exact h.used o w d
  · simp

theorem reserve (h : Wellformed db) {subject : Subject} {defaults : Limits} {delta : Amounts} {now expiresAt : Int}
    {userId id : String} {claim : Claim}
    (hres : reservePublicationQuota text db subject defaults delta now expiresAt userId id = .ok (claim, db')) :
    Wellformed db' := by
  rcases reserve_cases hres with rfl | ⟨owner, dbn, limits, period, hnorm, -, -, hd, hid, rfl⟩
  · exact h
  obtain ⟨-, hu, -⟩ := normalize_frame hnorm
  refine ⟨fun r hm d => ?_, fun o w d => ?_, ?_⟩
  · rcases List.mem_cons.1 hm with rfl | hm
    exacts [(hd d).2.1, h.reserved r hm d]
  · have := h.used o w d
    unfold QuotaDB.used at this ⊢
    rw [hu]; exact this
  · refine List.nodup_cons.2 ⟨fun hm => ?_, h.ids⟩
    obtain ⟨r, hr, he⟩ := List.mem_map.1 hm
    exact hid r hr he

theorem add_toInt (h : Wellformed db) {r : Reservation} (hr : r ∈ db.reservations) (d : Dimension)
    (hguard : ¬ (db.used r.owner r.periodStart).get d > Int64.maxValue - r.reserved.get d) :
    (((db.used r.owner r.periodStart).add r.reserved).get d).toInt =
      ((db.used r.owner r.periodStart).get d).toInt + (r.reserved.get d).toInt := by
  rw [Amounts.get_add]
  exact toInt_add_guard (h.used _ _ _) (h.reserved r hr d) hguard

theorem commit (h : Wellformed db) {id : String} {committedAt : Int}
    (hc : commitPublicationQuotaReservation text db id committedAt = .ok db') : Wellformed db' := by
  obtain ⟨r, -, hmem, -, hguard, hused, hres⟩ := commit_cases hc
  have hsub : db'.reservations.Sublist db.reservations := by rw [hres]; exact List.filter_sublist
  refine ⟨fun r' hm => h.reserved r' (hsub.subset hm), fun o w d => ?_, h.ids.sublist (hsub.map _)⟩
  rw [hused o w]
  split_ifs with how
  · obtain ⟨rfl, rfl⟩ := how
    rw [h.add_toInt hmem d (hguard d)]
    have h1 := h.used r.owner r.periodStart d
    have h2 := h.reserved r hmem d
    omega
  · exact h.used o w d

end Wellformed

theorem cleanUsage_used (db : QuotaDB) (now : Int) (o : Owner) (w : Int) :
    (cleanUsage db now).used o w =
      if 0 < w ∧ w < now - publicationQuotaUsageRetention then Amounts.zero else db.used o w := by
  unfold QuotaDB.used cleanUsage
  dsimp only
  split_ifs <;> rfl

end Renop.Quota
