import Renop.QuotaLimit

/-!
# Nothing is lost or counted twice

A `Ledger` runs the calls and writes down, for the specification only, the reservations whose commit
returned `nil`, the ids that have been drawn, and the ids that have left the table by a commit, a
release or a clean-up. Usage is the sum over the commits (`usage_conserved`), but only as long as the
window is kept: the clean-up drops the usage of a window that started more than 45 days ago
(`cleanUp_drops_usage`), so `credited` forgets the commits of the windows it has dropped.
-/

namespace Renop.Quota

variable {text : Text}

structure Ledger where
  db : QuotaDB
  /-- The reservations whose commit returned `nil`. -/
  commits : List Reservation
  /-- Those of them whose window has not been dropped since. -/
  credited : List Reservation
  /-- The ids drawn for reservations. -/
  issued : List String
  /-- The ids that have left the table. -/
  closed : List String

namespace Ledger

def step (text : Text) (L : Ledger) (c : Call × Failure) : Ledger :=
  let r := Quota.step text L.db c.1 c.2
  let new := match c.1, r.1 with
    | .commit id _, none => (L.db.reservations.find? (·.id = id)).toList
    | _, _ => []
  { db := r.2
    commits := new ++ L.commits
    credited := match c.1, r.1 with
      | .cleanExpired now, none =>
        L.credited.filter fun r => ¬ (0 < r.periodStart ∧ r.periodStart < now - publicationQuotaUsageRetention)
      | _, _ => new ++ L.credited
    issued := match c.1 with
      | .reserve _ _ _ _ _ _ id => id :: L.issued
      | _ => L.issued
    closed := ((L.db.reservations.map Reservation.id).filter fun id => ∀ r' ∈ r.2.reservations, r'.id ≠ id) ++
      L.closed }

def run (text : Text) (L : Ledger) (calls : List (Call × Failure)) : Ledger := calls.foldl (step text) L

/-- `uuid.NewString` never draws an id again. -/
def Fresh (text : Text) : Ledger → List (Call × Failure) → Prop
  | _, [] => True
  | L, c :: calls => (match c.1 with
      | .reserve _ _ _ _ _ _ id => id ∉ L.issued
      | _ => True) ∧ Fresh text (L.step text c) calls

/-- What the commits of a window add up to. -/
def balance (L : Ledger) (o : Owner) (w : Int) (d : Dimension) : Int :=
  total (L.credited.filter fun r => r.owner = o ∧ r.periodStart = w) d

structure Conserved (L : Ledger) : Prop where
  wf : Wellformed L.db
  sum : ∀ o w d, ((L.db.used o w).get d).toInt = L.balance o w d
  present : ∀ r ∈ L.db.reservations, r.id ∈ L.issued
  closed : ∀ id ∈ L.closed, id ∈ L.issued ∧ ∀ r ∈ L.db.reservations, r.id ≠ id
  once : (L.commits.map Reservation.id).Nodup
  committed : ∀ r ∈ L.commits, r.id ∈ L.closed
  credited : L.credited.Sublist L.commits

variable {L : Ledger}

theorem closed_step (h : L.Conserved) {db' : QuotaDB} {issued : List String} (hissued : ∀ id ∈ L.issued, id ∈ issued)
    (hrows : ∀ r ∈ db'.reservations, r ∈ L.db.reservations ∨ r.id ∈ issued ∧ r.id ∉ L.issued) :
    (∀ r ∈ db'.reservations, r.id ∈ issued) ∧
    ∀ id ∈ ((L.db.reservations.map Reservation.id).filter fun id => ∀ r' ∈ db'.reservations, r'.id ≠ id) ++
      L.closed, id ∈ issued ∧ ∀ r ∈ db'.reservations, r.id ≠ id := by
  refine ⟨fun r hr => ?_, fun id hid => ?_⟩
  · rcases hrows r hr with hr | hr
    exacts [hissued _ (h.present r hr), hr.1]
  · rcases List.mem_append.1 hid with hid | hid
    · obtain ⟨hmem, hgone⟩ := List.mem_filter.1 hid
      obtain ⟨r, hr, rfl⟩ := List.mem_map.1 hmem
      exact ⟨hissued _ (h.present r hr), by simpa using hgone⟩
    · obtain ⟨hi, hne⟩ := h.closed id hid
      refine ⟨hissued id hi, fun r hr he => ?_⟩
      rcases hrows r hr with hr | ⟨-, hnew⟩
      exacts [hne r hr he, hnew (he ▸ hi)]

theorem Conserved.quiet (h : L.Conserved) {db' : QuotaDB} {issued : List String} (hwf : Wellformed db')
    (hused : db'.used = L.db.used) (hissued : ∀ id ∈ L.issued, id ∈ issued)
    (hrows : ∀ r ∈ db'.reservations, r ∈ L.db.reservations ∨ r.id ∈ issued ∧ r.id ∉ L.issued) :
    Conserved ⟨db', L.commits, L.credited, issued,
      ((L.db.reservations.map Reservation.id).filter fun id => ∀ r' ∈ db'.reservations, r'.id ≠ id) ++ L.closed⟩ := by
  obtain ⟨h1, h2⟩ := closed_step h hissued hrows
  exact ⟨hwf, fun o w d => by rw [hused]; exact h.sum o w d, h1, h2, h.once,
    fun r hr => List.mem_append_right _ (h.committed r hr), h.credited⟩

theorem Conserved.commit (h : L.Conserved) {db' : QuotaDB} {id : String} {committedAt : Int}
    (hc : commitPublicationQuotaReservation text L.db id committedAt = .ok db') :
    Conserved ⟨db', (L.db.reservations.find? (·.id = id)).toList ++ L.commits,
      (L.db.reservations.find? (·.id = id)).toList ++ L.credited, L.issued,
      ((L.db.reservations.map Reservation.id).filter fun id => ∀ r' ∈ db'.reservations, r'.id ≠ id) ++ L.closed⟩ := by
  obtain ⟨r, hfind, hmem, rfl, hguard, hused, hres⟩ := commit_cases hc
  rw [hfind]
  obtain ⟨h1, h2⟩ := @closed_step _ h db' L.issued (fun _ hi => hi) fun r' hr' => by
    rw [hres] at hr'; exact .inl (List.mem_filter.1 hr').1
  refine ⟨h.wf.commit hc, fun o w d => ?_, h1, h2, ?_, fun r' hr' => ?_, h.credited.cons_cons r⟩
  · show _ = total (List.filter _ (r :: L.credited)) d
    rw [hused o w]
    split_ifs with how
    · obtain ⟨rfl, rfl⟩ := how
      rw [List.filter_cons_of_pos (by simp), total_cons, h.wf.add_toInt hmem d (hguard d), h.sum]
      exact Int.add_comm _ _
    · rw [List.filter_cons_of_neg ?_, h.sum]
      · rfl
      · simp only [decide_eq_true_eq]
        exact fun hr => how ⟨hr.1.symm, hr.2.symm⟩
  · -- a committed id has left the table, and `r` is still there
    refine List.nodup_cons.2 ⟨fun hm => ?_, h.once⟩
    obtain ⟨r', hr', he⟩ := List.mem_map.1 hm
    exact (h.closed _ (h.committed r' hr')).2 r hmem he.symm
  · rcases List.mem_cons.1 hr' with rfl | hr'
    · refine List.mem_append_left _ (List.mem_filter.2 ⟨List.mem_map_of_mem hmem, ?_⟩)
      rw [hres]; simp
    · exact List.mem_append_right _ (h.committed r' hr')

theorem Conserved.clean (h : L.Conserved) (now : Int) :
    Conserved ⟨cleanUsage (cleanReservations L.db now) now, L.commits,
      L.credited.filter fun r => ¬ (0 < r.periodStart ∧ r.periodStart < now - publicationQuotaUsageRetention), L.issued,
      ((L.db.reservations.map Reservation.id).filter fun id =>
        ∀ r' ∈ (cleanUsage (cleanReservations L.db now) now).reservations, r'.id ≠ id) ++ L.closed⟩ := by
  have hsub : (cleanUsage (cleanReservations L.db now) now).reservations.Sublist L.db.reservations :=
    List.filter_sublist
  obtain ⟨h1, h2⟩ := @closed_step _ h (cleanUsage (cleanReservations L.db now) now) L.issued
    (fun _ hi => hi) fun r hr => .inl (hsub.subset hr)
  refine ⟨?_, fun o w d => ?_, h1, h2, h.once, fun r hr => List.mem_append_right _ (h.committed r hr),
    List.filter_sublist.trans h.credited⟩
  · refine h.wf.sub (fun o w => ?_) hsub
    rw [cleanUsage_used]
    split_ifs
    exacts [.inr rfl, .inl rfl]
  · show _ = total (List.filter _ (List.filter _ L.credited)) d
    rw [cleanUsage_used, List.filter_filter]
    split_ifs with hw
    · rw [List.filter_eq_nil_iff.2 fun r _ hr => ?_]
      · simp [total]
      · simp only [Bool.and_eq_true, decide_eq_true_eq] at hr
        exact hr.2 (hr.1.2 ▸ hw)
    · show ((L.db.used o w).get d).toInt = _
      rw [h.sum]
      refine congrArg (total · d) (List.filter_congr fun r _ => ?_)
      by_cases hr : r.owner = o ∧ r.periodStart = w
      · obtain ⟨rfl, rfl⟩ := hr; simp [hw]
      · simp [hr]

theorem step_conserved (h : L.Conserved) (c : Call × Failure) (hfresh : match c.1 with
      | .reserve _ _ _ _ _ _ id => id ∉ L.issued
      | _ => True) : (L.step text c).Conserved := by
  have hsame : ∀ issued, (∀ id ∈ L.issued, id ∈ issued) → Conserved ⟨L.db, L.commits, L.credited, issued,
      ((L.db.reservations.map Reservation.id).filter fun id => ∀ r' ∈ L.db.reservations, r'.id ≠ id) ++ L.closed⟩ :=
    fun issued hi => h.quiet h.wf rfl hi fun r hr => .inl hr
  obtain ⟨call, failure⟩ := c
  cases call with
  | reserve subject defaults delta now expiresAt userId id =>
    have hold : ∀ i ∈ L.issued, i ∈ id :: L.issued := fun i hi => List.mem_cons_of_mem _ hi
    simp only [step, Quota.step]
    split_ifs
    · split
      · rename_i claim db' hres
        refine h.quiet (h.wf.reserve hres) ?_ hold ?_
        · rcases reserve_cases hres with rfl | ⟨o, dbn, limits, p, hnorm, -, -, -, -, rfl⟩
          · rfl
          · funext o w; simp only [QuotaDB.used, (normalize_frame hnorm).2.1]
        · rcases reserve_cases hres with rfl | ⟨o, dbn, limits, p, -, -, -, -, -, rfl⟩
          · exact fun r hr => .inl hr
          · intro r hr
            rcases List.mem_cons.1 hr with rfl | hr
            exacts [.inr ⟨List.mem_cons_self .., hfresh⟩, .inl hr]
      · exact hsame _ hold
    · exact hsame _ hold
  | commit id committedAt =>
    simp only [step, Quota.step]
    split_ifs
    · cases hc : commitPublicationQuotaReservation text L.db id committedAt with
      | ok db' => exact h.commit hc
      | error e => exact hsame _ fun _ hi => hi
    · exact hsame _ fun _ hi => hi
  | release id =>
    simp only [step, Quota.step, releasePublicationQuotaReservation]
    split_ifs
    · exact hsame _ fun _ hi => hi
    · exact h.quiet (h.wf.sub (fun _ _ => .inl rfl) List.filter_sublist) rfl (fun _ hi => hi)
        fun r hr => .inl (List.mem_filter.1 hr).1
    · exact hsame _ fun _ hi => hi
  | cleanExpired now =>
    simp only [step, Quota.step]
    split_ifs
    · exact hsame _ fun _ hi => hi
    cases failure with
    | first => exact hsame _ fun _ hi => hi
    | second =>
      exact h.quiet (h.wf.sub (fun _ _ => .inl rfl) List.filter_sublist) rfl (fun _ hi => hi)
        fun r hr => .inl (List.mem_filter.1 hr).1
    | none => exact h.clean now

theorem run_conserved (calls : List (Call × Failure)) {L : Ledger} (h : L.Conserved) (hfresh : Fresh text L calls) :
    (L.run text calls).Conserved := by
  induction calls generalizing L with
  | nil => exact h
  | cons c calls ih => exact ih (step_conserved h c hfresh.1) hfresh.2

/-- The ledger of an empty quota. -/
def start (db : QuotaDB) : Ledger := ⟨db, [], [], [], []⟩

end Ledger

/-- In every run of quota calls, with ids that are drawn once: the usage of a window is the sum over the
commits that returned `nil` since the clean-up last dropped that window, each counted once; no commit
of an id that has left the table returns `nil`; and a commit that returns an error changes nothing. -/
theorem usage_conserved (db : QuotaDB) (hu : ∀ o w, db.usage o w = none) (hr : db.reservations = [])
    (calls : List (Call × Failure)) (hfresh : Ledger.Fresh text (Ledger.start db) calls) (L : Ledger)
    (hL : L = Ledger.run text (Ledger.start db) calls) :
    (∀ o w d, ((L.db.used o w).get d).toInt = L.balance o w d) ∧
    (L.commits.map Reservation.id).Nodup ∧ L.credited.Sublist L.commits ∧ (∀ r ∈ L.commits, r.id ∈ L.closed) ∧
    (∀ id ∈ L.closed, ∀ committedAt failure, (step text L.db (.commit id committedAt) failure).1 ≠ none) ∧
    ∀ id committedAt failure, (step text L.db (.commit id committedAt) failure).1 ≠ none →
      (step text L.db (.commit id committedAt) failure).2 = L.db := by
  have hused : ∀ o w, db.used o w = Amounts.zero := fun o w => by simp [QuotaDB.used, hu]
  have hinit : (Ledger.start db).Conserved := by
    refine ⟨⟨by simp [Ledger.start, hr], by simp [Ledger.start, hused], by simp [Ledger.start, hr]⟩, ?_,
      by simp [Ledger.start, hr], by simp [Ledger.start], by simp [Ledger.start], by simp [Ledger.start],
        List.Sublist.refl _⟩
    intro o w d
    simp [Ledger.start, Ledger.balance, hused, total]
  have h : L.Conserved := by rw [hL]; exact Ledger.run_conserved calls hinit hfresh
  refine ⟨h.sum, h.once, h.credited, h.committed, fun id hid committedAt failure => ?_, fun id committedAt failure => ?_⟩
  · simp only [step]
    split_ifs
    · cases hc : commitPublicationQuotaReservation text L.db id committedAt with
      | error e => simp
      | ok db' =>
        obtain ⟨r, -, hmem, he, -⟩ := commit_cases hc
        exact absurd he ((h.closed id hid).2 r hmem)
    · simp
  · simp only [step]
    split_ifs
    · cases commitPublicationQuotaReservation text L.db id committedAt with
      | error e => simp
      | ok db' => simp
    · simp

/-- A publication is committed on one day, another is released, and the clean-up runs 46 days later. -/
def cleanedUp : List (Call × Failure) :=
  [(.reserve ⟨"user", "alice"⟩ ⟨⟨5, 100, 10⟩, some .day⟩ ⟨1, 5, 1⟩ 1760000000000 1760000900000 "u1" "r1",
    .none), (.reserve ⟨"user", "alice"⟩ ⟨⟨5, 100, 10⟩, some .day⟩ ⟨2, 5, 1⟩ 1760000000000 1760000900000 "u2"
    "r2", .none), (.commit "r1" 1760000001000, .none), (.release "r2", .none), (.commit "r2" 1760000002000, .none),
    (.cleanExpired 1764000000000, .none)]

theorem usage_conserved_cleaned_up :
    ((Ledger.run plainText (.start emptyDB) (cleanedUp.take 5)).db.used ⟨.user, "u1"⟩ 1759968000000).get .files = 1 ∧
    (((Ledger.run plainText (.start emptyDB) (cleanedUp.take 5)).db.used ⟨.user, "u1"⟩ 1759968000000).get .files).toInt =
      (Ledger.run plainText (.start emptyDB) (cleanedUp.take 5)).balance ⟨.user, "u1"⟩ 1759968000000 .files :=
  ⟨by decide, (usage_conserved emptyDB (fun _ _ => rfl) rfl (cleanedUp.take 5)
    ⟨by decide, by decide, trivial, trivial, trivial, trivial⟩ _ rfl).1 _ _ _⟩

/-- After the clean-up the usage is zero, though the commit has returned `nil`. -/
theorem cleanUp_drops_usage :
    (((Ledger.run plainText (.start emptyDB) cleanedUp).db.used ⟨.user, "u1"⟩ 1759968000000).get .files).toInt ≠
      total ((Ledger.run plainText (.start emptyDB) cleanedUp).commits.filter fun r =>
        r.owner = ⟨.user, "u1"⟩ ∧ r.periodStart = 1759968000000) .files := by
  decide

end Renop.Quota
