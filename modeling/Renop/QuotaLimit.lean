import Renop.QuotaCalls

/-!
# Usage stays within the limit

`Within owner limit t db`: in every window of the owner, the committed usage and the reservations that
are alive at `t` together fit the limit. A reservation is admitted against exactly this sum, and a
commit moves an amount from one side to the other, as long as the reservation is still alive. But
`commitPublicationQuotaReservation` does not look at `expires_at`: a reservation that has expired no
longer counts when the next one is admitted and can still be committed after it (`late_commit_overruns`).
-/

namespace Renop.Quota

variable {text : Text}

/-! ### Sums of reservations -/

theorem total_nonneg {rows : List Reservation} {d : Dimension} (h : ∀ r ∈ rows, 0 ≤ (r.reserved.get d).toInt) :
    0 ≤ total rows d := by
  induction rows with
  | nil => exact Int.le_refl 0
  | cons r rows ih =>
    have h1 := h r (List.mem_cons_self ..)
    have h2 := ih fun r' hr' => h r' (List.mem_cons_of_mem _ hr')
    simp only [total, List.map_cons, List.sum_cons] at h2 ⊢
    omega

theorem total_cons (r : Reservation) (rows : List Reservation) (d : Dimension) :
    total (r :: rows) d = (r.reserved.get d).toInt + total rows d := by
  simp [total]

theorem total_sublist {rows rows' : List Reservation} {d : Dimension} (hs : rows'.Sublist rows)
    (h : ∀ r ∈ rows, 0 ≤ (r.reserved.get d).toInt) : total rows' d ≤ total rows d := by
  induction hs with
  | slnil => exact Int.le_refl _
  | cons r _ ih =>
    have h1 := h r (List.mem_cons_self ..)
    have h2 := ih fun r' hr' => h r' (List.mem_cons_of_mem _ hr')
    rw [total_cons]; omega
  | cons_cons r _ ih =>
    have h2 := ih fun r' hr' => h r' (List.mem_cons_of_mem _ hr')
    rw [total_cons, total_cons]; omega

theorem total_drop {rows : List Reservation} {r : Reservation} {d : Dimension} (hr : r ∈ rows)
    (h : ∀ r ∈ rows, 0 ≤ (r.reserved.get d).toInt) :
    total (rows.filter fun r' => r'.id ≠ r.id) d + (r.reserved.get d).toInt ≤ total rows d := by
  induction rows with
  | nil => exact absurd hr List.not_mem_nil
  | cons a rows ih =>
    have hrows : ∀ r ∈ rows, 0 ≤ (r.reserved.get d).toInt := fun r' hr' => h r' (List.mem_cons_of_mem _ hr')
    have h1 := h a (List.mem_cons_self ..)
    rw [total_cons]
    rcases List.mem_cons.1 hr with rfl | hm
    · rw [List.filter_cons_of_neg (by simp)]
      have := total_sublist (d := d) (List.filter_sublist (l := rows) (p := fun r' => decide (r'.id ≠ r.id))) hrows
      omega
    · have h2 := ih hm hrows
      by_cases ha : a.id = r.id
      · rw [List.filter_cons_of_neg (by simp [ha])]; omega
      · rw [List.filter_cons_of_pos (by simp [ha]), total_cons]; omega

/-! ### The invariant -/

section Within
variable {owner : Owner} {limit : Amounts} {db db' : QuotaDB} {t : Int}

structure Within (owner : Owner) (limit : Amounts) (t : Int) (db : QuotaDB) : Prop where
  wf : Wellformed db
  fits : ∀ w d, ((db.used owner w).get d).toInt + total (db.active owner w t) d ≤ (limit.get d).toInt

theorem Wellformed.active (h : Wellformed db) (owner : Owner) (w t : Int) (d : Dimension) :
    ∀ r ∈ db.active owner w t, 0 ≤ (r.reserved.get d).toInt :=
  fun r hr => h.reserved r (List.mem_filter.1 hr).1 d

theorem Within.used_le (h : Within owner limit t db) (w : Int) (d : Dimension) :
    (db.used owner w).get d ≤ limit.get d := by
  have h1 := h.fits w d
  have h2 := total_nonneg (h.wf.active owner w t d)
  rw [Int64.le_iff_toInt_le]
  exact Int.le_trans (by omega) h1

theorem active_sublist {t' : Int} (ht : t ≤ t') (hr : db'.reservations.Sublist db.reservations) (w : Int) :
    (db'.active owner w t').Sublist (db.active owner w t) := by
  refine (hr.filter _).trans ?_
  refine List.monotone_filter_right _ fun r hr => ?_
  simp only [decide_eq_true_eq] at hr ⊢
  exact ⟨hr.1, hr.2.1, Int.lt_of_le_of_lt ht hr.2.2⟩

theorem Within.sub (h : Within owner limit t db) {t' : Int} (ht : t ≤ t')
    (hu : ∀ o w, db'.used o w = db.used o w ∨ db'.used o w = Amounts.zero)
    (hr : db'.reservations.Sublist db.reservations) : Within owner limit t' db' := by
  refine ⟨h.wf.sub hu hr, fun w d => ?_⟩
  have h1 := h.fits w d
  have h2 := total_sublist (@active_sublist owner _ _ _ _ ht hr w) (h.wf.active owner w t d)
  have h3 : ((db'.used owner w).get d).toInt ≤ ((db.used owner w).get d).toInt := by
    rcases hu owner w with he | he
    · exact Int.le_of_eq (congrArg (fun a : Amounts => (a.get d).toInt) he)
    · simpa [he] using h.wf.used owner w d
  omega

theorem Within.later (h : Within owner limit t db) {t' : Int} (ht : t ≤ t') : Within owner limit t' db :=
  h.sub ht (fun _ _ => .inl rfl) (List.Sublist.refl _)

theorem Within.reserve {period : Period} {subject : Subject} {defaults : Limits} {delta : Amounts}
    {now expiresAt : Int} {userId id : String} {claim : Claim} (h : Within owner limit now db)
    (hfixed : ∀ dbn, normalizePublicationQuotaSubject text db subject userId = .ok (owner, dbn) →
      effectivePublicationQuota dbn owner defaults = .ok (⟨limit, some period⟩, false))
    (hres : reservePublicationQuota text db subject defaults delta now expiresAt userId id = .ok (claim, db')) :
    Within owner limit now db' := by
  refine ⟨h.wf.reserve hres, fun w d => ?_⟩
  rcases reserve_cases hres with rfl | ⟨o, dbn, limits, p, hnorm, heff, hp, hd, -, rfl⟩
  · exact h.fits w d
  obtain ⟨-, hu, -⟩ := normalize_frame hnorm
  have hused : ∀ reservations, ({ dbn with reservations := reservations } : QuotaDB).used owner w = db.used owner w := by
    intro _; simp only [QuotaDB.used, hu]
  rw [hused]
  have h1 := h.fits w d
  by_cases how : o = owner ∧ publicationQuotaWindow p now = w ∧ now < expiresAt
  · -- the new reservation is alive in this window: it was admitted against this very sum
    obtain ⟨rfl, rfl, hexp⟩ := how
    have hlim := (congrArg Prod.fst (Except.ok.inj (heff.symm.trans (hfixed dbn hnorm))))
    dsimp only at hlim
    subst hlim
    have h2 := (hd d).2.2
    have hact : ({ dbn with reservations := (⟨id, o, publicationQuotaWindow p now, delta, expiresAt⟩ : Reservation) ::
        db.reservations } : QuotaDB).active o (publicationQuotaWindow p now) now =
        ⟨id, o, publicationQuotaWindow p now, delta, expiresAt⟩ :: db.active o (publicationQuotaWindow p now) now :=
      List.filter_cons_of_pos (by simp [hexp])
    rw [hact, total_cons]
    dsimp only at h2 ⊢
    omega
  · have hact : ({ dbn with reservations := (⟨id, o, publicationQuotaWindow p now, delta, expiresAt⟩ : Reservation) ::
        db.reservations } : QuotaDB).active owner w now = db.active owner w now :=
      List.filter_cons_of_neg (by simpa using how)
    rw [hact]
    exact h1

theorem Within.commit {id : String} (h : Within owner limit t db)
    (htimely : ∀ r ∈ db.reservations, r.id = id → r.owner = owner → t < r.expiresAt)
    (hc : commitPublicationQuotaReservation text db id t = .ok db') : Within owner limit t db' := by
  refine ⟨h.wf.commit hc, fun w d => ?_⟩
  obtain ⟨r, -, hmem, rfl, hguard, hused, hres⟩ := commit_cases hc
  have h1 := h.fits w d
  have hnn := h.wf.active owner w t d
  have hact : db'.active owner w t = (db.active owner w t).filter fun r' => r'.id ≠ r.id := by
    unfold QuotaDB.active
    rw [hres, List.filter_filter, List.filter_filter]
    exact List.filter_congr fun r' _ => Bool.and_comm _ _
  rw [hused, hact]
  split_ifs with how
  · obtain ⟨rfl, rfl⟩ := how
    have hr : r ∈ db.active r.owner r.periodStart t :=
      List.mem_filter.2 ⟨hmem, by simpa using htimely r hmem rfl rfl⟩
    have h2 := total_drop hr hnn
    rw [h.wf.add_toInt hmem d (hguard d)]
    omega
  · have h2 := total_sublist (d := d) (List.filter_sublist (l := db.active owner w t)
      (p := fun r' => decide (r'.id ≠ r.id))) hnn
    omega

end Within

/-! ### Runs -/

/-- `P` holds before every call of the run. -/
def Along (text : Text) (P : QuotaDB → Call → Prop) : QuotaDB → List (Call × Failure) → Prop
  | _, [] => True
  | db, c :: calls => P db c.1 ∧ Along text P (step text db c.1 c.2).2 calls

/-- The clock value a call is given. -/
def Call.time : Call → Option Int
  | .reserve _ _ _ now _ _ _ => some now
  | .commit _ committedAt => some committedAt
  | .release _ => none
  | .cleanExpired now => some now

/-- Every reservation of the owner is made under the same limits. -/
def FixedPolicy (text : Text) (owner : Owner) (limit : Amounts) (period : Period) (db : QuotaDB) : Call → Prop
  | .reserve subject defaults _ _ _ userId _ => ∀ dbn,
      normalizePublicationQuotaSubject text db subject userId = .ok (owner, dbn) →
        effectivePublicationQuota dbn owner defaults = .ok (⟨limit, some period⟩, false)
  | _ => True

/-- A reservation of the owner is committed before it expires. -/
def CommitsInTime (owner : Owner) (db : QuotaDB) : Call → Prop
  | .commit id committedAt => ∀ r ∈ db.reservations, r.id = id → r.owner = owner → committedAt < r.expiresAt
  | _ => True

instance (owner : Owner) (db : QuotaDB) : (call : Call) → Decidable (CommitsInTime owner db call)
  | .commit id committedAt =>
    inferInstanceAs (Decidable (∀ r ∈ db.reservations, r.id = id → r.owner = owner → committedAt < r.expiresAt))
  | .reserve .. | .release _ | .cleanExpired _ => isTrue trivial

section Run
variable {owner : Owner} {limit : Amounts} {period : Period}

theorem step_within {db : QuotaDB} {t : Int} (h : Within owner limit t db) (call : Call) (failure : Failure)
    (hfixed : FixedPolicy text owner limit period db call) (htimely : CommitsInTime owner db call)
    (ht : ∀ t' ∈ call.time, t ≤ t') : Within owner limit (call.time.getD t) (step text db call failure).2 := by
  cases call with
  | reserve subject defaults delta now expiresAt userId id =>
    have h' := h.later (ht now rfl)
    simp only [step]
    split_ifs
    · split
      · exact h'.reserve hfixed ‹_›
      · exact h'
    · exact h'
  | commit id committedAt =>
    have h' := h.later (ht committedAt rfl)
    simp only [step]
    split_ifs
    · split
      · exact h'.commit htimely ‹_›
      · exact h'
    · exact h'
  | release id =>
    simp only [step, releasePublicationQuotaReservation]
    split_ifs
    · exact h
    · exact h.sub (Int.le_refl _) (fun _ _ => .inl rfl) List.filter_sublist
    · exact h
  | cleanExpired now =>
    have h' := h.later (ht now rfl)
    have hclean : Within owner limit now (cleanReservations db now) :=
      h'.sub (Int.le_refl _) (fun _ _ => .inl rfl) List.filter_sublist
    simp only [step]
    split_ifs
    · exact h'
    cases failure with
    | first => exact h'
    | second => exact hclean
    | none =>
      refine hclean.sub (Int.le_refl _) (fun o w => ?_) (List.Sublist.refl _)
      rw [cleanUsage_used]
      split_ifs
      exacts [.inr rfl, .inl rfl]

theorem run_within (calls : List (Call × Failure)) {db : QuotaDB} {t : Int} (h : Within owner limit t db)
    (hfixed : Along text (FixedPolicy text owner limit period) db calls)
    (htimely : Along text (CommitsInTime owner) db calls)
    (hclock : (t :: calls.filterMap fun c => c.1.time).Pairwise (· ≤ ·)) :
    ∃ t', Within owner limit t' (run text db calls) := by
  induction calls generalizing db t with
  | nil => exact ⟨t, h⟩
  | cons c calls ih =>
    have hstep := step_within h c.1 c.2 hfixed.1 htimely.1
    obtain ⟨hle, hpair⟩ := List.pairwise_cons.1 hclock
    cases hc : c.1.time with
    | none =>
      simp only [List.filterMap_cons, hc] at hle hpair
      rw [hc] at hstep
      exact ih (hstep (by simp)) hfixed.2 htimely.2 (List.pairwise_cons.2 ⟨hle, hpair⟩)
    | some now =>
      simp only [List.filterMap_cons, hc] at hle hpair
      rw [hc] at hstep
      refine ih (hstep fun t' ht' => ?_) hfixed.2 htimely.2 hpair
      obtain rfl := Option.some.inj ht'
      exact hle now (List.mem_cons_self ..)

end Run

/-- In every run of quota calls with a fixed policy and a clock that does not go back, in which every
reservation of the owner is committed before it expires, the usage of each window stays within the
limit in each dimension. -/
theorem usage_within_limit (db : QuotaDB) (hu : ∀ o w, db.usage o w = none) (hr : db.reservations = [])
    (owner : Owner) (limit : Amounts) (period : Period)
    (hlimit : validatePublicationQuotaLimits ⟨limit, some period⟩ = true)
    (calls : List (Call × Failure)) (hfixed : Along text (FixedPolicy text owner limit period) db calls)
    (hclock : (calls.filterMap fun c => c.1.time).Pairwise (· ≤ ·))
    (htimely : Along text (CommitsInTime owner) db calls) (w : Int) (d : Dimension) :
    ((run text db calls).used owner w).get d ≤ limit.get d := by
  have hinit : ∀ t, Within owner limit t db := by
    intro t
    have hused : ∀ o w, db.used o w = Amounts.zero := fun o w => by simp [QuotaDB.used, hu]
    refine ⟨⟨by simp [hr], by simp [hused], by simp [hr]⟩, fun w d => ?_⟩
    simp only [validatePublicationQuotaLimits, Bool.and_eq_true, decide_eq_true_eq] at hlimit
    have hd : 0 ≤ (limit.get d).toInt := by
      rw [← toInt_nonneg]
      cases d
      exacts [hlimit.1.1.1, hlimit.1.1.2, hlimit.1.2]
    simpa [hused, QuotaDB.active, hr, total] using hd
  have hstart : ∃ t, (t :: calls.filterMap fun c => c.1.time).Pairwise (· ≤ ·) := by
    cases htimes : calls.filterMap fun c => c.1.time with
    | nil => exact ⟨0, List.pairwise_singleton ..⟩
    | cons a times =>
      rw [htimes] at hclock
      refine ⟨a, List.pairwise_cons.2 ⟨fun b hb => ?_, hclock⟩⟩
      rcases List.mem_cons.1 hb with rfl | hb
      exacts [Int.le_refl _, (List.pairwise_cons.1 hclock).1 b hb]
  obtain ⟨t, ht⟩ := hstart
  obtain ⟨t', h⟩ := run_within calls (hinit t) hfixed htimely ht
  exact h.used_le w d

/-- Subjects and ids that are trimmed and in lower case already. -/
def plainText : Text := ⟨id, id, some⟩

def emptyDB : QuotaDB := ⟨fun _ => none, fun _ => false, fun _ => none, fun _ _ => none, []⟩

/-- One file for ever. -/
def oneFile : Limits := ⟨⟨1, 100, 10⟩, some .lifetime⟩

/-- Two publications of one file: the second is refused while the first is reserved, and admitted
after the first one has been released. -/
def inTime : List (Call × Failure) :=
  [(.reserve ⟨"user", "alice"⟩ oneFile ⟨1, 5, 1⟩ 1000 2000 "u1" "r1", .none),
    (.reserve ⟨"user", "alice"⟩ oneFile ⟨1, 5, 1⟩ 1100 2100 "u2" "r2", .none), (.release "r1", .none),
    (.reserve ⟨"user", "alice"⟩ oneFile ⟨1, 5, 1⟩ 1200 2200 "u3" "r3", .none), (.commit "r3" 1300, .none)]

theorem usage_within_limit_in_time :
    ((run plainText emptyDB inTime).used ⟨.user, "u1"⟩ 0).get .files = 1 ∧
      ((run plainText emptyDB inTime).used ⟨.user, "u1"⟩ 0).get .files ≤ 1 := by
  refine ⟨by decide, ?_⟩
  refine @usage_within_limit plainText emptyDB (fun _ _ => rfl) rfl ⟨.user, "u1"⟩ oneFile.limit .lifetime
    (by decide) inTime ?_ (by decide) ?_ 0 .files
  · exact ⟨fun _ h => effective_inherited h rfl rfl, fun _ h => effective_inherited h rfl rfl, trivial,
      fun _ h => effective_inherited h rfl rfl, trivial, trivial⟩
  · exact ⟨trivial, trivial, trivial, trivial, by decide, trivial⟩

/-- The first reservation expires, the second is admitted in its place, and both are committed. -/
def late : List (Call × Failure) :=
  [(.reserve ⟨"user", "alice"⟩ oneFile ⟨1, 5, 1⟩ 1000 2000 "u1" "r1", .none),
    (.reserve ⟨"user", "alice"⟩ oneFile ⟨1, 5, 1⟩ 3000 4000 "u2" "r2", .none), (.commit "r1" 3100, .none),
    (.commit "r2" 3200, .none)]

theorem late_commit_overruns :
    Along plainText (FixedPolicy plainText ⟨.user, "u1"⟩ oneFile.limit .lifetime) emptyDB late ∧
      (late.filterMap fun c => c.1.time).Pairwise (· ≤ ·) ∧
      ¬ ((run plainText emptyDB late).used ⟨.user, "u1"⟩ 0).get .files ≤ oneFile.limit.get .files :=
  ⟨⟨fun _ h => effective_inherited h rfl rfl, fun _ h => effective_inherited h rfl rfl, trivial, trivial, trivial⟩,
    by decide, by decide⟩

end Renop.Quota
