import Renop.MailQueueInv

/-!
# A mail is submitted once, and recovered

`Safe` holds over every run: a worker that still owns the lease finds its job as it selected it, so no job is submitted
twice, whatever the clocks say. `Held` and `Cleared` add what holds as long as no worker comes back to the lease with
old business: with a transition that it prepared and that another worker overtook, or past its own recovery while
another worker was submitting.
-/

namespace Renop.MailQueue

open Sql

/-! ### Workers -/

def Phase.job? : Phase → Option Job
  | .processing job _ | .saving job | .submitting job | .sending job => some job
  | _ => none

/-- The worker has recovered the queue in this or an earlier step, and takes up jobs. -/
def Phase.working : Phase → Bool
  | .selecting _ | .processing _ _ | .saving _ | .submitting _ | .sending _ => true
  | _ => false

structure Completion.Sound (c : Completion) (w : Nat) (subs : List (Nat × Nat)) : Prop where
  status : c.job.status ≠ .queued ∧ c.job.status ≠ .paused ∧ c.job.status ≠ .sending
  submitted : c.submitted = true → (c.job.id, w) ∈ subs

structure Worker.Sound (x : Worker) (w nextID : Nat) (subs : List (Nat × Nat)) : Prop where
  recovering : ∀ now, x.phase = .recovering now → x.pending = none
  working : x.phase.working = true → x.pending = none ∧ x.recovered = true
  known : ∀ job, x.phase.job? = some job → job.id < nextID
  processing : ∀ job now, x.phase = .processing job now → job.status.selectable
  saving : ∀ job, x.phase = .saving job → job.status.selectable
  submitting : ∀ job, x.phase = .submitting job → job.status = .sending
  pending : ∀ c, x.pending = some c → c.Sound w subs

/-- The worker is at no job. -/
def Phase.resting : Phase → Bool
  | .idle | .completing | .stopped => true
  | _ => false

theorem Worker.sound_of_resting {x : Worker} {w n : Nat} {subs : List (Nat × Nat)} (h : x.phase.resting = true)
    (hp : ∀ c, x.pending = some c → c.Sound w subs) : x.Sound w n subs := by
  obtain ⟨phase, recovered, pending⟩ := x
  cases phase with
  | idle | completing | stopped =>
    exact ⟨by simp, by simp [Phase.working], by simp [Phase.job?], by simp, by simp, by simp, hp⟩
  | _ => exact Bool.noConfusion h

/-- How a worker that owns the lease finds the row of its job. -/
def Phase.Grips : Phase → Job → Prop
  | .processing job _, row => row.id = job.id → row.status = job.status
  | .saving job, row => row.id = job.id → row.status.selectable ∧ (row.status = .checking ↔ job.status = .checking)
  | .submitting job, row => row.id = job.id → row.status = .queued ∨ row.status = .paused
  | _, _ => True

theorem Phase.grips_of_ne {phase : Phase} {row : Job} (h : ∀ job, phase.job? = some job → row.id ≠ job.id) :
    phase.Grips row := by
  cases phase with
  | processing job now => exact fun hid => absurd hid (h job rfl)
  | saving job => exact fun hid => absurd hid (h job rfl)
  | submitting job => exact fun hid => absurd hid (h job rfl)
  | _ => trivial

theorem Status.selectable.pending {st : Status} (h : st.selectable) : st.pending = true := by
  rcases h with rfl | rfl | rfl <;> rfl

theorem Worker.Sound.mono {x : Worker} {w n n' : Nat} {subs subs' : List (Nat × Nat)} (h : x.Sound w n subs)
    (hn : n ≤ n') (hsubs : ∀ p ∈ subs, p ∈ subs') : x.Sound w n' subs' :=
  { h with
    known := fun job hjob => Nat.lt_of_lt_of_le (h.known job hjob) hn
    pending := fun c hc => ⟨(h.pending c hc).status, fun hs => hsubs _ ((h.pending c hc).submitted hs)⟩ }

namespace World
variable {s : World} {w : Nat} {x x' : Worker} {e : Event} {db : DB} {subs : List (Nat × Nat)}

/-- The job is submitted, or about to be. -/
def Taken (s : World) (k : Nat) : Prop :=
  k ∈ s.submissions.map Prod.fst ∨ ∃ w job, (s.workers w).phase = .sending job ∧ job.id = k

structure Safe (s : World) : Prop where
  fresh : ∀ k row, s.db.jobs.find? k = some row → k < s.db.nextID
  taken : ∀ k, s.Taken k → k < s.db.nextID ∧
    ∀ row, s.db.jobs.find? k = some row → row.status ≠ .queued ∧ row.status ≠ .paused
  once : (s.submissions.map Prod.fst).Nodup
  sending : ∀ w job, (s.workers w).phase = .sending job → job.id ∉ s.submissions.map Prod.fst ∧
    ∀ v job', (s.workers v).phase = .sending job' → job'.id = job.id → v = w
  workers : ∀ w, (s.workers w).Sound w s.db.nextID s.submissions
  grip : ∀ w, s.db.leaseOwner = some w → ∀ k row, s.db.jobs.find? k = some row → (s.workers w).phase.Grips row

theorem safe_init : Safe init where
  fresh := fun k row hrow => nomatch (Table.find?_eq_some.1 hrow).1
  taken := fun k hk => by
    rcases hk with hk | ⟨w, job, hphase, -⟩
    · exact nomatch hk
    · exact Phase.noConfusion hphase
  once := List.nodup_nil
  sending := fun w job hphase => Phase.noConfusion hphase
  workers := fun w => Worker.sound_of_resting rfl (by simp [init, Worker.start])
  grip := fun w hw => by cases hw

theorem Safe.selected (h : Safe s) : s.Selected := fun w job now hphase => (h.workers w).processing job now hphase

end World

/-! ### One step -/

section Move
variable {s : World} {w : Nat} {x x' : Worker} {e : Event} {db : DB} {subs : List (Nat × Nat)}

theorem Move.submissions (h : Move s w x e db x' subs) :
    subs = s.submissions ∨ ∃ job, x.phase = .sending job ∧ subs = s.submissions ++ [(job.id, w)] := by
  cases h with
  | sent h => exact .inr ⟨_, h, rfl⟩
  | _ => exact .inl rfl

theorem Worker.afterLease_ne (x : Worker) (now : Int) : (x.afterLease now).job? = none := by
  unfold Worker.afterLease
  split
  · rfl
  · split <;> rfl

theorem Move.sending (h : Move s w x e db x' subs) {job : Job} (hx : x'.phase = .sending job) :
    (x.phase = .sending job ∧ subs = s.submissions) ∨
      x.phase = .submitting job ∧ subs = s.submissions ∧ ∃ row, DB.Written s.db db w job row := by
  cases h with
  | stay | queued _ | deleted => exact .inl ⟨hx, rfl⟩
  | opened h hdb =>
    cases hx
    exact .inr ⟨h, rfl, DB.saveMailAttempt_ok hdb⟩
  | @acquired now db h _ =>
    have hjob := x.afterLease_ne now
    rw [show x.afterLease now = .sending job from hx] at hjob
    cases hjob
  | _ => exact Phase.noConfusion hx

theorem submitted_sound (job : Job) (answer : Except (Bool × String) Sent) (now : Int) (w : Nat) (l : List (Nat × Nat)) :
    Completion.Sound ⟨submitted job answer now, true⟩ w (l ++ [(job.id, w)]) := by
  obtain ⟨hid, hst⟩ := submitted_status job answer now
  exact ⟨hst, fun _ => by simp [hid]⟩

theorem Worker.sound_afterLease {n : Nat} (h : x.Sound w n subs) (now : Int) :
    Worker.Sound { x with phase := x.afterLease now } w n subs := by
  obtain ⟨phase, recovered, pending⟩ := x
  cases pending with
  | some c => exact Worker.sound_of_resting rfl h.pending
  | none =>
    cases recovered <;>
      exact ⟨by simp, by simp [Worker.afterLease, Phase.working], by simp [Worker.afterLease, Phase.job?],
        by simp [Worker.afterLease], by simp [Worker.afterLease], by simp [Worker.afterLease], by simp⟩

theorem Move.sound (h : Move s w x e db x' subs) (hs : s.Safe) (hx : x = s.workers w) :
    x'.Sound w db.nextID subs := by
  have hw : x.Sound w s.db.nextID s.submissions := hx ▸ hs.workers w
  have hn := h.nextID
  have hmono : x.Sound w db.nextID s.submissions := hw.mono hn fun _ hp => hp
  cases h with
  | stay | queued _ | deleted => exact hmono
  | acquired _ _ => exact Worker.sound_afterLease hmono _
  | recovered h hdb =>
    exact ⟨by simp, fun _ => ⟨hw.recovering _ h, rfl⟩, by simp [Phase.job?], by simp, by simp, by simp, hw.pending⟩
  | @selected now job h hnext =>
    have hwork := hw.working (by rw [h]; rfl)
    refine ⟨by simp, fun _ => hwork, fun j hj => ?_, fun j n hj => ?_, by simp, by simp, hw.pending⟩
    · cases hj
      exact hs.fresh _ job (Table.find?_eq_some.2 ⟨hnext.1, rfl⟩)
    · cases hj
      have hdue := hnext.2.1
      simp only [DB.due, Bool.and_eq_true, Bool.or_eq_true, decide_eq_true_eq] at hdue
      exact or_assoc.1 hdue.1
  | @saving env job job' now h hp =>
    have hwork := hw.working (by rw [h]; rfl)
    refine ⟨by simp, fun _ => hwork, fun j hj => ?_, by simp, fun j hj => ?_, by simp, hw.pending⟩
    · cases hj
      exact hp.1 ▸ hw.known job (by rw [h]; rfl)
    · cases hj
      exact hp.2.1
  | @submitting env job job' now h hp =>
    have hwork := hw.working (by rw [h]; rfl)
    refine ⟨by simp, fun _ => hwork, fun j hj => ?_, by simp, by simp, fun j hj => ?_, hw.pending⟩
    · cases hj
      exact hp.1 ▸ hw.known job (by rw [h]; rfl)
    · cases hj
      exact hp.2.1
  | @finished env job c now h hp =>
    refine Worker.sound_of_resting rfl fun c' hc => ?_
    cases hc
    have hfinal := hp.2.2
    refine ⟨⟨?_, ?_, ?_⟩, fun hsub => absurd hp.2.1 (by simp [hsub])⟩ <;>
      (intro hst; rw [hst] at hfinal; cases hfinal)
  | opened h hdb =>
    have hwork := hw.working (by rw [h]; rfl)
    refine ⟨by simp, fun _ => hwork, fun j hj => ?_, by simp, by simp, by simp, hw.pending⟩
    cases hj
    exact Nat.lt_of_lt_of_le (hw.known _ (by rw [h]; rfl)) hn
  | @sent job answer now h =>
    refine Worker.sound_of_resting rfl fun c hc => ?_
    cases hc
    exact submitted_sound job answer now w s.submissions
  | completed | dropped => exact Worker.sound_of_resting rfl (by simp)
  | back | saved | released | crashed => exact Worker.sound_of_resting rfl hw.pending

theorem Move.taken (h : Move s w (s.workers w) e db x' subs) (hs : s.Safe) {k : Nat} (hk : s.Taken k) {row' : Job}
    (hrow : db.jobs.find? k = some row') : row'.status ≠ .queued ∧ row'.status ≠ .paused := by
  obtain ⟨hlt, hfree⟩ := hs.taken k hk
  rcases h.row hrow with hkept | ⟨rfl, -, -⟩ | ⟨row, hfound, howner, horigin⟩
  · exact hfree row' hkept
  · omega
  · have hst := hfree row hfound
    have hgrip := hs.grip w howner k row hfound
    cases horigin with
    | recovered hphase hsending heq =>
      subst heq
      exact ⟨nofun, nofun⟩
    | @saved job hphase hid heq =>
      subst heq
      rw [hphase] at hgrip
      obtain ⟨hsel, hiff⟩ := hgrip hid
      have hchecking : row.status = .checking := by
        rcases hsel with h | h | h
        · exact absurd h hst.1
        · exact absurd h hst.2
        · exact h
      show job.status ≠ .queued ∧ job.status ≠ .paused
      rw [hiff.1 hchecking]
      exact ⟨nofun, nofun⟩
    | opened hphase hx hid heq =>
      rw [hphase] at hgrip
      rcases hgrip hid with h | h
      · exact absurd h hst.1
      · exact absurd h hst.2
    | @completed c now hphase hc hx he hrow hid heq =>
      subst heq
      have hc := ((hs.workers w).pending c hc).status
      exact ⟨hc.1, hc.2.1⟩

theorem World.Safe.grips (hs : s.Safe) (howner : s.db.leaseOwner = some w) {k : Nat} {row' : Job} (hid : row'.id = k)
    (hrow : s.db.jobs.find? k = some row' ∨ k = s.db.nextID) : (s.workers w).phase.Grips row' := by
  rcases hrow with hkept | rfl
  · exact hs.grip w howner k row' hkept
  · refine Phase.grips_of_ne fun job hjob hid' => ?_
    have hlt := (hs.workers w).known job hjob
    omega

theorem Move.grip (h : Move s w (s.workers w) e db x' subs) (hs : s.Safe) (howner : s.db.leaseOwner = some w) {k : Nat}
    {row' : Job} (hrow : db.jobs.find? k = some row') : x'.phase.Grips row' := by
  have hid := DB.find?_id hrow
  cases h with
  | stay => exact hs.grips howner hid (.inl hrow)
  | deleted => exact hs.grips howner hid (.inl (DB.find?_deleteJobs hrow))
  | queued hdb =>
    obtain ⟨-, -, job, -, -, hjobs⟩ := DB.queueMailJob_ok hdb
    exact hs.grips howner hid ((hjobs k row' hrow).imp_right And.left)
  | acquired h hdb =>
    exact Phase.grips_of_ne fun job hjob => by simp [Worker.afterLease_ne] at hjob
  | @selected now job h hnext =>
    intro hrowid
    -- the row was selected itself
    have hmem := (Table.find?_eq_some.1 hrow).1
    rw [s.db.jobs.eq_of_key hmem hnext.1 hrowid]
  | @saving env job job' now h hp =>
    have hgrip := hs.grip w howner k row' hrow
    rw [h] at hgrip
    intro hrowid
    have hst : row'.status = job.status := hgrip (hrowid.trans hp.1)
    rw [hst]
    exact ⟨(hs.workers w).processing job now h, hp.2.2.symm⟩
  | @submitting env job job' now h hp =>
    have hgrip := hs.grip w howner k row' hrow
    rw [h] at hgrip
    intro hrowid
    rw [show row'.status = job.status from hgrip (hrowid.trans hp.1)]
    rcases (hs.workers w).processing job now h with h' | h' | h'
    · exact .inl h'
    · exact .inr h'
    · exact absurd h' hp.2.2
  | _ => trivial

theorem World.Safe.untaken (hs : s.Safe) {job : Job} (hphase : (s.workers w).phase = .submitting job)
    (hw : ∃ row, DB.Written s.db db w job row) : ¬ s.Taken job.id := by
  obtain ⟨row, hw⟩ := hw
  intro htaken
  have hgrip := hs.grip w hw.owner _ row hw.found
  rw [hphase] at hgrip
  have hfree := (hs.taken _ htaken).2 row hw.found
  rcases hgrip (DB.find?_id hw.found) with h' | h'
  · exact hfree.1 h'
  · exact hfree.2 h'

theorem Move.taken_new (h : Move s w (s.workers w) e db x' subs) {k : Nat}
    (hk : World.Taken ⟨db, Function.update s.workers w x', subs⟩ k) :
    s.Taken k ∨ ∃ job, (s.workers w).phase = .submitting job ∧ job.id = k ∧ ∃ row,
      DB.Written s.db db w job row := by
  rcases hk with hk | ⟨v, job, hphase, rfl⟩
  · rcases h.submissions with rfl | ⟨job, hphase, rfl⟩
    · exact .inl (.inl hk)
    · simp only [List.map_append, List.map_cons, List.map_nil, List.mem_append, List.mem_singleton] at hk
      rcases hk with hk | rfl
      · exact .inl (.inl hk)
      · exact .inl (.inr ⟨w, job, hphase, rfl⟩)
  · by_cases hv : v = w
    · subst hv
      rcases h.sending (by simpa using hphase) with ⟨hold, -⟩ | ⟨hnew, -, hw⟩
      · exact .inl (.inr ⟨v, job, hold, rfl⟩)
      · exact .inr ⟨job, hnew, rfl, hw⟩
    · exact .inl (.inr ⟨v, job, by simpa [hv] using hphase, rfl⟩)

theorem Move.once (h : Move s w (s.workers w) e db x' subs) (hs : s.Safe) : (subs.map Prod.fst).Nodup := by
  rcases h.submissions with rfl | ⟨job, hphase, rfl⟩
  · exact hs.once
  · rw [List.map_append, List.nodup_append]
    refine ⟨hs.once, List.nodup_singleton _, fun a ha b hb => ?_⟩
    rintro rfl
    rw [List.mem_singleton.1 hb] at ha
    exact (hs.sending w job hphase).1 ha

theorem Move.sending_once (h : Move s w (s.workers w) e db x' subs) (hs : s.Safe) {v : Nat} {job : Job}
    (hphase : (Function.update s.workers w x' v).phase = .sending job) :
    job.id ∉ subs.map Prod.fst ∧
      ∀ v' job', (Function.update s.workers w x' v').phase = .sending job' → job'.id = job.id → v' = v := by
  by_cases hv : v = w
  · subst hv
    rcases h.sending (by simpa using hphase) with ⟨hold, rfl⟩ | ⟨hnew, rfl, hw⟩
    · obtain ⟨hnot, honly⟩ := hs.sending v job hold
      refine ⟨hnot, fun v' job' hphase' hid => ?_⟩
      by_cases hv' : v' = v
      · exact hv'
      · exact honly v' job' (by simpa [hv'] using hphase') hid
    · have hfree := hs.untaken hnew hw
      refine ⟨fun hmem => hfree (.inl hmem), fun v' job' hphase' hid => ?_⟩
      by_cases hv' : v' = v
      · exact hv'
      · exact absurd (.inr ⟨v', job', by simpa [hv'] using hphase', hid⟩) hfree
  · have hold : (s.workers v).phase = .sending job := by simpa [hv] using hphase
    obtain ⟨hnot, honly⟩ := hs.sending v job hold
    refine ⟨fun hmem => ?_, fun v' job' hphase' hid => ?_⟩
    · rcases h.submissions with rfl | ⟨job', hphase', rfl⟩
      · exact hnot hmem
      · simp only [List.map_append, List.map_cons, List.map_nil, List.mem_append, List.mem_singleton] at hmem
        rcases hmem with hmem | hid
        · exact hnot hmem
        · exact hv (honly w job' hphase' hid.symm).symm
    · by_cases hv' : v' = w
      · subst hv'
        rcases h.sending (by simpa using hphase') with ⟨hold', -⟩ | ⟨hnew, -, hw⟩
        · exact honly v' job' hold' hid
        · exact absurd (.inr ⟨v, job, hold, hid.symm⟩) (hs.untaken hnew hw)
      · exact honly v' job' (by simpa [hv'] using hphase') hid

theorem Move.safe (h : Move s w (s.workers w) e db x' subs) (hs : s.Safe) :
    World.Safe ⟨db, Function.update s.workers w x', subs⟩ := by
  have hn := h.nextID
  refine ⟨fun k row hrow => ?_, fun k hk => ?_, h.once hs, fun v job hphase => h.sending_once hs hphase,
    fun v => ?_, fun v hv k row hrow => ?_⟩
  · rcases h.row hrow with hkept | ⟨rfl, hnext, -⟩ | ⟨row, hfound, -, -⟩
    · exact Nat.lt_of_lt_of_le (hs.fresh k row hkept) hn
    · show _ < db.nextID
      omega
    · exact Nat.lt_of_lt_of_le (hs.fresh k row hfound) hn
  · rcases h.taken_new hk with hold | ⟨job, hphase, rfl, row, hw⟩
    · exact ⟨Nat.lt_of_lt_of_le (hs.taken k hold).1 hn, fun row' hrow => h.taken hs hold hrow⟩
    · refine ⟨Nat.lt_of_lt_of_le ((hs.workers w).known job (by rw [hphase]; rfl)) hn, fun row' hrow => ?_⟩
      cases hw.find?_self.symm.trans hrow
      show job.status ≠ .queued ∧ job.status ≠ .paused
      rw [(hs.workers w).submitting job hphase]
      exact ⟨nofun, nofun⟩
  · by_cases hvw : v = w
    · subst hvw
      simpa using h.sound hs rfl
    · have hmem : ∀ p ∈ s.submissions, p ∈ subs := by
        rcases h.submissions with rfl | ⟨job, -, rfl⟩
        · exact fun _ hp => hp
        · exact fun _ hp => List.mem_append_left _ hp
      simpa [hvw] using (hs.workers v).mono hn hmem
  · by_cases hvw : v = w
    · subst hvw
      simp only [Function.update_self]
      rcases h.owner hv with howner | ⟨-, -, now, -, -, rfl⟩
      · exact h.grip hs howner hrow
      · exact Phase.grips_of_ne fun job hjob => by simp [Worker.afterLease_ne] at hjob
    · -- another worker owns the lease, so this one writes nothing
      simp only [Function.update_of_ne hvw]
      have howner : s.db.leaseOwner = some v := (h.owner hv).resolve_right fun h' => hvw h'.1
      rcases h.row hrow with hkept | ⟨rfl, -, -⟩ | ⟨row, hfound, howner', -⟩
      · exact hs.grip v howner k row hkept
      · exact hs.grips howner (DB.find?_id hrow) (.inr rfl)
      · rw [howner] at howner'
        exact absurd (Option.some.inj howner') hvw

end Move

/-! ### Workers that come back -/

/-- The job that the worker is submitting, or whose end it holds. -/
def Worker.Carries (x : Worker) (k : Nat) : Prop :=
  (∃ job, x.phase = .sending job ∧ job.id = k) ∨ ∃ c, x.pending = some c ∧ c.job.id = k

namespace World

/-- The submission of the job was interrupted. -/
def Interrupted (row : Job) : Prop := row.status = .unknown ∧ row.result.interrupted = true

instance (row : Job) : Decidable (Interrupted row) := inferInstanceAs (Decidable (_ ∧ _))

/-- The worker takes the lease over. -/
def Takes (s : World) (w : Nat) (now : Int) : Prop :=
  (s.workers w).phase = .idle ∧ s.db.leaseOwner ≠ some w ∧ s.db.leaseUntil ≤ now

instance (s : World) (w : Nat) (now : Int) : Decidable (s.Takes w now) := inferInstanceAs (Decidable (_ ∧ _ ∧ _))

/-- A worker does not take the lease with an end of a job that it did not submit, once the job was submitted by another
worker and interrupted. -/
def Fresh (s : World) : Event → Prop
  | .acquire w now => s.Takes w now → ∀ c ∈ (s.workers w).pending, c.submitted = false →
      ∀ row ∈ s.db.jobs.find? c.job.id, ¬ Interrupted row
  | _ => True

instance (s : World) : ∀ e, Decidable (s.Fresh e)
  | .acquire w now => inferInstanceAs (Decidable (s.Takes w now → ∀ c ∈ (s.workers w).pending, _))
  | .recover _ | .select .. | .process .. | .save _ | .submit _ | .send .. | .complete .. | .quit _ | .release _
  | .crash _ | .queue .. | .delete _ => inferInstanceAs (Decidable True)

/-- A worker that has recovered the queue once does not take the lease while a job is being submitted, unless it holds
the end of that job itself. -/
def Resumed (s : World) : Event → Prop
  | .acquire w now => s.Takes w now → (s.workers w).recovered = true → ∀ row ∈ s.db.jobs.rows,
    row.status = .sending → ∃ c ∈ (s.workers w).pending, c.job.id = row.id
  | _ => True

instance (s : World) : ∀ e, Decidable (s.Resumed e)
  | .acquire w now => inferInstanceAs (Decidable (s.Takes w now → (s.workers w).recovered = true → _))
  | .recover _ | .select .. | .process .. | .save _ | .submit _ | .send .. | .complete .. | .quit _ | .release _
  | .crash _ | .queue .. | .delete _ => inferInstanceAs (Decidable True)

/-- The owner of the lease holds no end of a job that was overtaken. -/
def Held (s : World) : Prop :=
  ∀ w, s.db.leaseOwner = some w → ∀ c, (s.workers w).pending = some c → c.submitted = false →
    ∀ row, s.db.jobs.find? c.job.id = some row → ¬ Interrupted row

/-- The jobs being submitted are those of the owner, when it has recovered the queue. -/
def Cleared (s : World) : Prop :=
  ∀ w, s.db.leaseOwner = some w → (s.workers w).recovered = true → (s.workers w).phase ≠ .stopped →
    ∀ k row, s.db.jobs.find? k = some row → row.status = .sending →
      (s.workers w).Carries k

end World

open World

theorem DB.acquireMailLease_until {owner : Nat} {now : Int} {db db' : DB}
    (h : db.acquireMailLease owner now = some db') (hne : db.leaseOwner ≠ some owner) : db.leaseUntil ≤ now := by
  unfold acquireMailLease at h
  split at h
  · cases h
  · rename_i hnot
    exact Int.not_lt.1 fun hlt => hnot ⟨hne, hlt⟩

section Move
variable {s : World} {w : Nat} {x x' : Worker} {e : Event} {db : DB} {subs : List (Nat × Nat)}

theorem Move.owner_taken (h : Move s w x e db x' subs) (hx : x = s.workers w) {v : Nat} (hv : db.leaseOwner = some v) :
    s.db.leaseOwner = some v ∨
      v = w ∧ ∃ now, e = .acquire w now ∧ s.Takes w now ∧ x' = { x with phase := x.afterLease now } ∧
        db.jobs = s.db.jobs := by
  by_cases howner : s.db.leaseOwner = some v
  · exact .inl howner
  · obtain ⟨rfl, hidle, now, rfl, hdb, rfl⟩ := (h.owner hv).resolve_left howner
    exact .inr ⟨rfl, now, rfl, ⟨hx ▸ hidle, howner, DB.acquireMailLease_until hdb howner⟩, rfl,
      (DB.acquireMailLease_some hdb).2.1⟩

theorem Move.pending (h : Move s w x e db x' subs) {c : Completion} (hc : x'.pending = some c) :
    x.pending = some c ∨ c.submitted = true ∨
      ∃ job now, x.phase = .processing job now ∧ c.job.id = job.id ∧ db = s.db := by
  cases h with
  | @finished env job c' now h hp =>
    cases hc
    exact .inr (.inr ⟨job, now, h, hp.1, rfl⟩)
  | sent h =>
    cases hc
    exact .inr (.inl rfl)
  | completed | dropped => cases hc
  | _ => exact .inl hc

theorem not_interrupted {row : Job} (h : row.status.pending = true) : ¬ Interrupted row := by
  rintro ⟨hst, -⟩
  rw [hst] at h
  cases h

theorem Move.held (h : Move s w (s.workers w) e db x' subs) (hs : s.Safe) (hheld : s.Held) (hfresh : s.Fresh e) :
    Held ⟨db, Function.update s.workers w x', subs⟩ := by
  intro v hv c hc hsub row' hrow'
  rcases h.owner_taken rfl hv with howner | ⟨rfl, now, rfl, htakes, rfl, hjobs⟩
  · rcases h.row hrow' with hkept | ⟨-, -, hqueued⟩ | ⟨row, hfound, howner', horigin⟩
    · by_cases hvw : v = w
      · subst hvw
        simp only [Function.update_self] at hc
        rcases h.pending hc with hold | hsub' | ⟨job, now, hphase, hid, rfl⟩
        · exact hheld v howner c hold hsub row' hkept
        · rw [hsub] at hsub'
          cases hsub'
        · -- the end of a job that still stands as it was selected
          have hgrip := hs.grip v howner _ row' hkept
          rw [hphase] at hgrip
          have hst : row'.status = job.status := hgrip ((DB.find?_id hkept).trans hid)
          exact not_interrupted (hst ▸ ((hs.workers v).processing job now hphase).pending)
      · simp only [Function.update_of_ne hvw] at hc
        exact hheld v howner c hc hsub row' hkept
    · exact not_interrupted (by rw [hqueued]; rfl)
    · obtain rfl : v = w := Option.some.inj (howner.symm.trans howner')
      simp only [Function.update_self] at hc
      have hw := hs.workers v
      cases horigin with
      | recovered hphase =>
        rcases h.pending hc with hold | hsub' | ⟨job, now, hphase', -, -⟩
        · rw [hw.recovering _ hphase] at hold
          cases hold
        · rw [hsub] at hsub'
          cases hsub'
        · rw [hphase] at hphase'
          cases hphase'
      | @saved job hphase hid heq =>
        subst heq
        exact not_interrupted (hw.saving job hphase).pending
      | @opened job hphase hx hid heq =>
        subst heq
        refine not_interrupted ?_
        show job.status.pending = true
        rw [hw.submitting job hphase]
        rfl
      | completed hphase hc' hx =>
        rw [hx] at hc
        cases hc
  · simp only [Function.update_self] at hc
    exact hfresh htakes c hc hsub row' (hjobs ▸ hrow')

theorem Move.lasting (h : Move s w (s.workers w) e db x' subs) (hs : s.Safe) (hheld : s.Held) {k : Nat} {row row' : Job}
    (hrow : s.db.jobs.find? k = some row) (hend : row.status.pending = false) (hrow' : db.jobs.find? k = some row') :
    row' = row ∨ Interrupted row ∧ ∃ now, e = .complete w now ∧ (k, w) ∈ s.submissions := by
  have hopen : ∀ {st : Status}, row.status = st → st.pending = true → False := by
    rintro _ rfl hst
    rw [hend] at hst
    cases hst
  rcases h.row hrow' with hkept | ⟨rfl, -, -⟩ | ⟨row₀, hfound, howner, horigin⟩
  · exact .inl (Option.some.inj (hkept.symm.trans hrow))
  · exact absurd (hs.fresh _ row hrow) (Nat.lt_irrefl _)
  · obtain rfl : row₀ = row := Option.some.inj (hfound.symm.trans hrow)
    have hgrip := hs.grip w howner k row₀ hfound
    cases horigin with
    | recovered hphase hsending => exact (hopen hsending rfl).elim
    | saved hphase hid =>
      rw [hphase] at hgrip
      exact (hopen rfl (hgrip hid).1.pending).elim
    | opened hphase hx hid =>
      rw [hphase] at hgrip
      rcases hgrip hid with h' | h' <;> exact (hopen h' rfl).elim
    | @completed c now hphase hc hx he hfound' hid =>
      have hint : Interrupted row₀ := hfound'.resolve_left fun hp => hopen rfl hp
      have hk : k = c.job.id := (DB.find?_id hfound).symm.trans hid
      have hsub : c.submitted = true := by
        by_contra hne
        exact hheld w howner c hc (by simpa using hne) row₀ (hk ▸ hfound) hint
      exact .inr ⟨hint, now, he, hk ▸ ((hs.workers w).pending c hc).submitted hsub⟩

theorem DB.recoverMailAttempts_sending {db db' : DB} {w : Nat} {now : Int} (h : db.recoverMailAttempts w now = .ok db')
    {k : Nat} {row : Job} (hrow : db'.jobs.find? k = some row) : row.status ≠ .sending := by
  rw [(DB.recoverMailAttempts_ok h).2.2.2 k, Option.map_eq_some_iff] at hrow
  obtain ⟨row₀, -, rfl⟩ := hrow
  split
  · exact nofun
  · assumption

theorem Move.awake (h : Move s w x e db x' subs) (hstop : x'.phase ≠ .stopped) (hrec : x'.recovered = true) :
    x.phase ≠ .stopped ∧ x.recovered = true ∨ ∃ now, s.db.recoverMailAttempts w now = .ok db := by
  cases h with
  | stay | queued _ | deleted => exact .inl ⟨hstop, hrec⟩
  | back _ hstopped => exact .inl ⟨hstopped, hrec⟩
  | recovered _ hdb => exact .inr ⟨_, hdb⟩
  | released | crashed => exact absurd rfl hstop
  | acquired h | selected h | saving h | submitting h | finished h | saved h | opened h | sent h | completed h | dropped h =>
    exact .inl ⟨by simp [h], hrec⟩

theorem Worker.Carries.sending {k : Nat} (h : x.Carries k) (hx : x.pending = none) :
    ∃ job, x.phase = .sending job ∧ job.id = k := by
  refine h.resolve_right ?_
  rintro ⟨c, hc, -⟩
  rw [hx] at hc
  cases hc

theorem Move.carries (h : Move s w x e db x' subs) (hx : x.Sound w s.db.nextID s.submissions)
    (hstop : x'.phase ≠ .stopped) {k : Nat} {row' : Job} (hrow' : db.jobs.find? k = some row')
    (hsending : row'.status = .sending) (hk : x.Carries k) : x'.Carries k := by
  -- a worker at another call of a step carries nothing
  have hnone : ∀ phase : Phase, x.phase = phase → phase.working = true → (∀ job, phase ≠ .sending job) →
      False := by
    rintro _ rfl hwork hne
    obtain ⟨job, hphase, -⟩ := hk.sending (hx.working hwork).1
    exact hne job hphase
  cases h with
  | stay | queued _ | deleted => exact hk
  | back hne =>
    refine .inr (hk.resolve_left ?_)
    rintro ⟨job, hphase, -⟩
    exact hne job hphase
  | acquired h _ =>
    refine .inr (hk.resolve_left ?_)
    rintro ⟨job, hphase, -⟩
    rw [h] at hphase
    cases hphase
  | recovered _ hdb => exact absurd hsending (DB.recoverMailAttempts_sending hdb hrow')
  | selected h | saving h | submitting h | finished h | saved h | opened h => exact (hnone _ h rfl (by simp)).elim
  | @sent job answer now h =>
    obtain ⟨job', hphase, rfl⟩ := hk.sending (hx.working (by rw [h]; rfl)).1
    rw [h] at hphase
    cases hphase
    exact .inr ⟨_, rfl, (submitted_status job answer now).1⟩
  | @completed c now db h hc hdb =>
    rcases hk with ⟨job, hphase, -⟩ | ⟨c', hc', rfl⟩
    · rw [h] at hphase
      cases hphase
    · obtain rfl : c = c' := Option.some.inj (hc.symm.trans hc')
      obtain ⟨row, hw⟩ := DB.saveMailAttempt_ok hdb
      have hwritten : db.jobs.find? c.job.id = _ := hw.find?_self
      cases hwritten.symm.trans hrow'
      exact absurd hsending (hx.pending c hc).status.2.2
  | @dropped c now h hc hdb =>
    rcases hk with ⟨job, hphase, -⟩ | ⟨c', hc', rfl⟩
    · rw [h] at hphase
      cases hphase
    · obtain rfl : c = c' := Option.some.inj (hc.symm.trans hc')
      have hfinal := DB.saveMailAttempt_finalized hdb hrow'
      rw [hsending] at hfinal
      cases hfinal
  | released | crashed => exact absurd rfl hstop

theorem Move.cleared (h : Move s w (s.workers w) e db x' subs) (hs : s.Safe) (hcleared : s.Cleared)
    (hresumed : s.Resumed e) : Cleared ⟨db, Function.update s.workers w x', subs⟩ := by
  intro v hv hrec hstop k row' hrow' hsending
  rcases h.owner_taken rfl hv with howner | ⟨rfl, now, rfl, htakes, rfl, hjobs⟩
  · by_cases hvw : v = w
    · subst hvw
      simp only [Function.update_self] at hrec hstop ⊢
      have hw := hs.workers v
      rcases h.row hrow' with hkept | ⟨-, -, hqueued⟩ | ⟨row, hfound, -, horigin⟩
      · rcases h.awake hstop hrec with ⟨hstop', hrec'⟩ | ⟨now, hdb⟩
        · exact h.carries hw hstop hrow' hsending (hcleared v howner hrec' hstop' k row' hkept hsending)
        · exact absurd hsending (DB.recoverMailAttempts_sending hdb hrow')
      · rw [hqueued] at hsending
        cases hsending
      · cases horigin with
        | recovered hphase hold heq =>
          subst heq
          cases hsending
        | @saved job hphase hid heq =>
          subst heq
          have hsel := hw.saving job hphase
          rw [show job.status = .sending from hsending] at hsel
          rcases hsel with h' | h' | h' <;> cases h'
        | @opened job hphase hx hid heq =>
          exact .inl ⟨job, hx, hid ▸ DB.find?_id hfound⟩
        | @completed c now hphase hc hx he hrow hid heq =>
          subst heq
          exact absurd hsending (hw.pending c hc).status.2.2
    · simp only [Function.update_of_ne hvw] at hrec hstop ⊢
      rcases h.row hrow' with hkept | ⟨-, -, hqueued⟩ | ⟨row, hfound, howner', -⟩
      · exact hcleared v howner hrec hstop k row' hkept hsending
      · rw [hqueued] at hsending
        cases hsending
      · exact absurd (Option.some.inj (howner.symm.trans howner')) hvw
  · simp only [Function.update_self] at hrec ⊢
    obtain ⟨hmem, hid⟩ := Table.find?_eq_some.1 (hjobs ▸ hrow')
    obtain ⟨c, hc, hcid⟩ := hresumed htakes hrec row' hmem hsending
    exact .inr ⟨c, hc, hcid.trans hid⟩

end Move

namespace World
variable {s : World}

theorem safe_next (hs : s.Safe) (e : Event) : (s.next e).Safe := by
  obtain ⟨w, db, x, subs, hmove, heq⟩ := next_move s hs.selected e
  rw [heq]
  exact hmove.safe hs

theorem safe_run (hs : s.Safe) (es : List Event) : (s.run es).Safe := by
  induction es generalizing s with
  | nil => exact hs
  | cons e es ih => exact ih (safe_next hs e)

theorem held_next (hs : s.Safe) (hheld : s.Held) {e : Event} (he : s.Fresh e) : (s.next e).Held := by
  obtain ⟨w, db, x, subs, hmove, heq⟩ := next_move s hs.selected e
  rw [heq]
  exact hmove.held hs hheld he

theorem cleared_next (hs : s.Safe) (hcleared : s.Cleared) {e : Event} (he : s.Resumed e) : (s.next e).Cleared := by
  obtain ⟨w, db, x, subs, hmove, heq⟩ := next_move s hs.selected e
  rw [heq]
  exact hmove.cleared hs hcleared he

/-- `P` holds of every event of a run, in the state before it. -/
def Along (P : World → Event → Prop) : World → List Event → Prop
  | _, [] => True
  | s, e :: es => P s e ∧ Along P (s.next e) es

instance {P : World → Event → Prop} [∀ s e, Decidable (P s e)] : ∀ s es, Decidable (Along P s es)
  | _, [] => inferInstanceAs (Decidable True)
  | s, e :: es => @instDecidableAnd _ _ _ (instDecidableAlong (s.next e) es)

/-- The event changes no job that has come to an end, but for the worker that submitted it and was interrupted. -/
def Lasting (s : World) (e : Event) : Prop :=
  ∀ k row row', s.db.jobs.find? k = some row → row.status.pending = false → (s.next e).db.jobs.find? k = some row' →
    row' = row ∨ Interrupted row ∧ ∃ w now, e = .complete w now ∧ (k, w) ∈ s.submissions

theorem lasting_next (hs : s.Safe) (hheld : s.Held) (e : Event) : s.Lasting e := by
  intro k row row' hrow hend hrow'
  obtain ⟨w, db, x, subs, hmove, heq⟩ := next_move s hs.selected e
  rw [heq] at hrow'
  exact (hmove.lasting hs hheld hrow hend hrow').imp_right (And.imp_right fun h => ⟨w, h⟩)

theorem lasting_along (hs : s.Safe) (hheld : s.Held) {es : List Event} (hes : Along Fresh s es) : Along Lasting s es := by
  induction es generalizing s with
  | nil => trivial
  | cons e es ih => exact ⟨lasting_next hs hheld e, ih (safe_next hs e) (held_next hs hheld hes.1) hes.2⟩

theorem cleared_run (hs : s.Safe) (hcleared : s.Cleared) {es : List Event} (hes : Along Resumed s es) :
    (s.run es).Cleared := by
  induction es generalizing s with
  | nil => exact hcleared
  | cons e es ih => exact ih (safe_next hs e) (cleared_next hs hcleared hes.1) hes.2

theorem held_init : Held init := fun w hw => by cases hw

theorem cleared_init : Cleared init := fun w hw => by cases hw

theorem selecting_clear (hs : s.Safe) (hcleared : s.Cleared) {w : Nat} (hw : s.db.leaseOwner = some w) {now : Int}
    (hphase : (s.workers w).phase = .selecting now) : ∀ row ∈ s.db.jobs.rows, row.status ≠ .sending := by
  intro row hrow hsending
  have hwork := (hs.workers w).working (by rw [hphase]; rfl)
  have hcarries := hcleared w hw hwork.2 (by simp [hphase]) row.id row (Table.find?_eq_some.2 ⟨hrow, rfl⟩) hsending
  obtain ⟨job, hphase', -⟩ := hcarries.sending hwork.1
  rw [hphase] at hphase'
  cases hphase'

/-! ### Runs -/

/-- What `process` asks, answered so that the job is submitted unless the token is refused. -/
def answers (token : TokenAnswer) (now : Int) : Env := ⟨some true, true, .ok, 0, true, false, none, token, .error "",
    none, now⟩

def firstJob : Job := ⟨0, "", "login", .queued, ⟨"", .queued, "", false⟩, 0, 0, 0, 0, 1000000⟩

/-- A worker takes the first job as far as its submission. -/
def submits (w : Nat) (now : Int) : List Event :=
  [.acquire w now, .recover w, .select w firstJob, .process w (answers .ok now), .submit w]

def sentAnswer : Except (Bool × String) Sent := .ok ⟨⟨"m1", .accepted, "", false⟩, .inl rfl⟩

theorem mail_submitted_once (es : List Event) :
    ((init.run es).submissions.map Prod.fst).Nodup ∧ (Along Fresh init es → Along Lasting init es) :=
  ⟨(safe_run safe_init es).once, lasting_along safe_init held_init⟩

/-- The worker that submitted the job comes back and ends it, after another one marked it as interrupted. -/
def interrupted : List Event :=
  .queue "" "login" 0 1000000 :: submits 0 0 ++ [.send 0 sentAnswer 1, .acquire 1 90000, .recover 1, .quit 1,
    .complete 0 90001, .acquire 0 180000, .complete 0 180001]

theorem mail_submitted_once_interrupted :
    (init.run interrupted).submissions = [(0, 0)] ∧ Along Fresh init interrupted ∧ Along Lasting init interrupted ∧
      ((init.run interrupted).db.jobs.find? 0).map (·.status) = some .accepted := by
  have hfresh : Along Fresh init interrupted := by decide
  exact ⟨by decide, hfresh, (mail_submitted_once interrupted).2 hfresh, by decide⟩

/-- Worker 0 prepares the failure of a job and loses the lease; worker 1 submits the job and stops; worker 2 marks it. -/
def overtaken : List Event :=
  [.queue "" "login" 0 1000000, .acquire 0 0, .recover 0, .select 0 firstJob] ++ submits 1 90000 ++
    [.process 0 (answers .refreshFailed 90000), .complete 0 90001, .send 1 sentAnswer 90002, .crash 1,
      .acquire 2 180000, .recover 2, .quit 2, .acquire 0 270000]

/-- Worker 0 comes back and writes its failure over a job that it did not submit. -/
theorem mail_overtaken :
    (init.run overtaken).submissions = [(0, 1)] ∧
      ((init.run overtaken).db.jobs.find? 0).map (·.status) = some .unknown ∧
      (((init.run overtaken).next (.complete 0 270001)).db.jobs.find? 0).map (·.status) = some .failed ∧
      ¬ (init.run overtaken).Lasting (.complete 0 270001) := by
  have hsubs : (init.run overtaken).submissions = [(0, 1)] := by decide
  have hbefore : ((init.run overtaken).db.jobs.find? 0).map (·.status) = some .unknown := by decide
  have hafter : (((init.run overtaken).next (.complete 0 270001)).db.jobs.find? 0).map (·.status) = some .failed := by
    decide
  refine ⟨hsubs, hbefore, hafter, fun hlasting => ?_⟩
  obtain ⟨row, hrow, hst⟩ := Option.map_eq_some_iff.1 hbefore
  obtain ⟨row', hrow', hst'⟩ := Option.map_eq_some_iff.1 hafter
  rcases hlasting 0 row row' hrow (by rw [hst]; rfl) hrow' with rfl | ⟨-, w, now, he, hmem⟩
  · rw [hst] at hst'
    cases hst'
  · cases he
    rw [hsubs] at hmem
    simp at hmem

theorem mail_recovered (es : List Event) (hes : Along Resumed init es) :
    ∀ w now, (init.run es).db.leaseOwner = some w → ((init.run es).workers w).phase = .selecting now →
      ∀ row ∈ (init.run es).db.jobs.rows, row.status ≠ .sending :=
  fun _ _ hw hphase => selecting_clear (safe_run safe_init es) (cleared_run safe_init cleared_init hes) hw hphase

/-- Worker 0 stops while it submits, and worker 1 takes over. -/
def takenOver : List Event := .queue "" "login" 0 1000000 :: submits 0 0 ++ [.crash 0, .acquire 1 90000, .recover 1]

theorem mail_recovered_takenOver :
    ((init.run takenOver).db.jobs.rows.map (·.status)) = [.unknown] ∧
      ∀ row ∈ (init.run takenOver).db.jobs.rows, row.status ≠ .sending :=
  ⟨by decide, mail_recovered takenOver (by decide) 1 90000 (by decide) (by decide)⟩

/-- Worker 0 recovers the empty queue; worker 1 takes over, stops while it submits, and worker 0 comes back. -/
theorem mail_stuck :
    let s := init.run ([.acquire 0 0, .recover 0, .quit 0, .queue "" "login" 0 1000000] ++ submits 1 90000 ++
      [.crash 1, .acquire 0 180000])
    s.db.leaseOwner = some 0 ∧ (s.workers 0).phase = .selecting 180000 ∧ (s.workers 0).pending = none ∧
      s.db.jobs.rows.map (·.status) = [.sending] := by
  decide

end World

end Renop.MailQueue
