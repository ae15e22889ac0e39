import Renop.MailQueue

/-!
# The steps of the mail workers

`Move` lists what a step of one worker does to the database, to the worker and to the submissions, and `next_move`
shows that there is nothing else. `Move.row` says of a single job where its row comes from.
-/

namespace Renop.MailQueue

open Sql

/-! ### The database -/

namespace DB
variable {db db' : DB} {w : Nat} {now : Int} {job : Job}

theorem find?_updateJobs {p : Job → Bool} {f : Job → Job} (h : ∀ j, (f j).id = j.id) (k : Nat) :
    (db.updateJobs p f h).jobs.find? k = (db.jobs.find? k).map fun j => if p j then f j else j :=
  Table.find?_update _ _ (fun j => by split <;> simp [h]) k

theorem find?_id {k : Nat} {row : Job} (h : db.jobs.find? k = some row) : row.id = k := (Table.find?_eq_some.1 h).2

/-- What a successful `SaveMailAttempt` found and wrote. -/
structure Written (db db' : DB) (w : Nat) (job row : Job) : Prop where
  owner : db.leaseOwner = some w
  owner' : db'.leaseOwner = db.leaseOwner
  nextID : db'.nextID = db.nextID
  found : db.jobs.find? job.id = some row
  allowed : row.status.pending = true ∨ row.status = .unknown ∧ row.result.interrupted = true
  jobs : ∀ k, db'.jobs.find? k = if k = job.id then some (write job row) else db.jobs.find? k

theorem Written.find?_self {row : Job} (h : Written db db' w job row) :
    db'.jobs.find? job.id = some (write job row) := by
  rw [h.jobs, if_pos rfl]

theorem saveMailAttempt_ok (h : db.saveMailAttempt w job = .ok db') : ∃ row, Written db db' w job row := by
  obtain ⟨_, hlease, h⟩ := bind_ok.1 h
  obtain ⟨row, hrow, h⟩ := bind_ok.1 h
  obtain ⟨hallowed, h⟩ := require_bind_ok.1 h
  cases h
  have hrow := orError_ok.1 hrow
  refine ⟨row, (require_ok.1 hlease).1, rfl, rfl, hrow, hallowed, fun k => ?_⟩
  rw [find?_updateJobs]
  by_cases hk : k = job.id
  · simp [hk, hrow, find?_id hrow]
  · rw [if_neg hk]
    cases hf : db.jobs.find? k with
    | none => rfl
    | some j => simp [find?_id hf, hk]

theorem saveMailAttempt_finalized (h : db.saveMailAttempt w job = .error .finalized) {row : Job}
    (hrow : db.jobs.find? job.id = some row) : row.status.pending = false := by
  unfold saveMailAttempt at h
  cases hl : db.requireMailLease w job.updatedAt with
  | error err =>
    rw [hl] at h
    simp only [requireMailLease, require] at hl
    split at hl
    · cases hl
    · cases hl
      cases h
  | ok =>
    by_contra hne
    have hcheck : require (row.status.pending = true ∨ row.status = .unknown ∧ row.result.interrupted = true)
        MailError.finalized = .ok () := if_pos (.inl (by simpa using hne))
    rw [hl, hrow] at h
    change (require _ _ >>= _) = _ at h
    rw [hcheck] at h
    cases h

theorem recoverMailAttempts_ok (h : db.recoverMailAttempts w now = .ok db') :
    db.leaseOwner = some w ∧ db'.leaseOwner = db.leaseOwner ∧ db'.nextID = db.nextID ∧
      ∀ k, db'.jobs.find? k = (db.jobs.find? k).map fun row =>
        if row.status = .sending then interrupt now row else row := by
  obtain ⟨_, hlease, h⟩ := bind_ok.1 h
  cases h
  refine ⟨(require_ok.1 hlease).1, rfl, rfl, fun k => ?_⟩
  rw [find?_updateJobs]
  simp

theorem acquireMailLease_some (h : db.acquireMailLease w now = some db') :
    db'.leaseOwner = some w ∧ db'.jobs = db.jobs ∧ db'.nextID = db.nextID := by
  unfold acquireMailLease at h
  split at h
  · cases h
  · cases h
    exact ⟨rfl, rfl, rfl⟩

theorem releaseMailLease_spec (db : DB) (w : Nat) :
    (db.releaseMailLease w).jobs = db.jobs ∧ (db.releaseMailLease w).nextID = db.nextID ∧
      ∀ v, (db.releaseMailLease w).leaseOwner = some v → v ≠ w ∧ db.leaseOwner = some v := by
  unfold releaseMailLease
  split
  · exact ⟨rfl, rfl, nofun⟩
  · rename_i hne
    refine ⟨rfl, rfl, fun v hv => ⟨?_, hv⟩⟩
    rintro rfl
    exact hne hv

theorem queueMailJob_ok {userID scene : String} {createdAt expiresAt : Int}
    (h : db.queueMailJob userID scene createdAt expiresAt = .ok db') :
    db'.leaseOwner = db.leaseOwner ∧ db'.nextID = db.nextID + 1 ∧
      ∃ job : Job, job.id = db.nextID ∧ job.status = .queued ∧
        ∀ k row, db'.jobs.find? k = some row → db.jobs.find? k = some row ∨ k = db.nextID ∧ row = job := by
  obtain ⟨-, h⟩ := require_bind_ok.1 h
  obtain ⟨-, h⟩ := require_bind_ok.1 h
  obtain ⟨jobs, hins, h⟩ := bind_ok.1 h
  cases h
  refine ⟨rfl, rfl, ⟨db.nextID, userID, scene, .queued, ⟨"", .queued, "", false⟩, 0, createdAt, createdAt, createdAt,
    expiresAt⟩, rfl, rfl, fun k row hrow => ?_⟩
  obtain ⟨hmem, hid⟩ := Table.find?_eq_some.1 hrow
  rw [(Table.insert_ok hins).2] at hmem
  rcases List.mem_append.1 hmem with hmem | hmem
  · exact .inl (Table.find?_eq_some.2 ⟨hmem, hid⟩)
  · rw [List.mem_singleton.1 hmem] at hid ⊢
    exact .inr ⟨hid.symm, rfl⟩

theorem find?_deleteJobs {p : Job → Bool} {k : Nat} {row : Job} (h : (db.deleteJobs p).jobs.find? k = some row) :
    db.jobs.find? k = some row := by
  obtain ⟨hmem, hid⟩ := Table.find?_eq_some.1 h
  exact Table.find?_eq_some.2 ⟨(List.mem_filter.1 hmem).1, hid⟩

end DB

/-! ### Processing -/

/-- The statuses of a job that `NextMailJob` returns. -/
def Status.selectable (s : Status) : Prop := s = .queued ∨ s = .paused ∨ s = .checking

/-- What `process` may do with a selected job. -/
def Next.Prepared (job : Job) : Next → Prop
  | .stop => True
  | .save job' => job'.id = job.id ∧ job'.status.selectable ∧ (job'.status = .checking ↔ job.status = .checking)
  | .submit job' => job'.id = job.id ∧ job'.status = .sending ∧ job.status ≠ .checking
  | .complete c => c.job.id = job.id ∧ c.submitted = false ∧ c.job.status.pending = false

section Process
variable {job : Job}

theorem finish_prepared {status : Status} (code : String) (h : status.pending = false) :
    (finish job status code).Prepared job := ⟨rfl, rfl, h⟩

theorem pause_prepared (env : Env) (code : String) (until_ : Int) (h : job.status ≠ .checking) :
    (pause env job code until_).Prepared job :=
  ⟨rfl, .inr (.inl rfl), ⟨nofun, fun hc => absurd hc h⟩⟩

theorem failPreparation_prepared (code : String) : (failPreparation job code).Prepared job := by
  refine ⟨rfl, rfl, ?_⟩
  show Status.pending (if job.status = .checking then .unknown else .failed) = false
  split <;> rfl

theorem checkStatus_prepared (env : Env) (h : job.status = .checking) : (checkStatus env job).Prepared job := by
  unfold checkStatus
  cases env.check with
  | error e =>
    dsimp only
    split
    · exact ⟨rfl, rfl, rfl⟩
    · exact ⟨rfl, .inr (.inr h), Iff.rfl⟩
  | ok checked =>
    dsimp only
    split
    · rename_i hterminal
      refine ⟨rfl, rfl, ?_⟩
      show checked.result.status.pending = false
      cases hc : checked.result.check with
      | false => rcases checked.status hc with h | h | h | h <;> rw [h] <;> rfl
      | true =>
        simp only [Result.terminal, hc, Bool.not_true, Bool.false_or, Bool.or_eq_true, decide_eq_true_eq] at hterminal
        rcases hterminal with ((h | h) | h) | h <;> rw [h] <;> rfl
    · exact ⟨rfl, .inr (.inr h), Iff.rfl⟩

theorem process_prepared (env : Env) (hjob : job.status.selectable) (now : Int) :
    (process env job now).Prepared job := by
  unfold process
  by_cases hc : job.status = .checking
  · -- a job that was submitted
    simp only [hc, decide_true, Bool.not_true, Bool.false_eq_true, false_and, if_false, if_true]
    split
    · exact finish_prepared _ rfl
    · split
      · exact finish_prepared _ rfl
      · exact ⟨rfl, .inr (.inr rfl), by simp [hc]⟩
      · split
        · trivial
        · split
          · exact failPreparation_prepared _
          · exact failPreparation_prepared _
          · exact checkStatus_prepared env hc
  · simp only [hc, decide_false, Bool.not_false, true_and, if_false, Bool.false_eq_true]
    split
    · exact finish_prepared _ rfl
    · split
      · exact finish_prepared _ rfl
      · exact pause_prepared env _ _ hc
      · split
        · exact finish_prepared _ rfl
        · split
          · trivial
          · exact finish_prepared _ rfl
          · split
            · exact ⟨rfl, hjob, Iff.rfl⟩
            · split
              · trivial
              · split
                · trivial
                · split
                  · exact pause_prepared env _ _ hc
                  · split
                    · exact failPreparation_prepared _
                    · exact failPreparation_prepared _
                    · split
                      · exact pause_prepared env _ _ hc
                      · exact ⟨rfl, rfl, hc⟩

theorem submitted_status (job : Job) (answer : Except (Bool × String) Sent) (now : Int) :
    (submitted job answer now).id = job.id ∧ (submitted job answer now).status ≠ .queued ∧
      (submitted job answer now).status ≠ .paused ∧ (submitted job answer now).status ≠ .sending := by
  unfold submitted
  cases answer with
  | error e =>
    obtain ⟨uncertain, code⟩ := e
    cases uncertain <;> exact ⟨rfl, nofun, nofun, nofun⟩
  | ok sent =>
    dsimp only
    split
    · exact ⟨rfl, nofun, nofun, nofun⟩
    · refine ⟨rfl, ?_⟩
      show sent.result.status ≠ _ ∧ sent.result.status ≠ _ ∧ sent.result.status ≠ _
      rcases sent.status with h | h | h <;> rw [h] <;> exact ⟨nofun, nofun, nofun⟩

end Process

/-! ### Steps -/

/-- The phase after the lease was acquired. -/
def Worker.afterLease (x : Worker) (now : Int) : Phase :=
  if x.pending.isSome then .completing else if x.recovered then .selecting now else .recovering now

/-- What an event does to the database, to its worker `x` and to the submissions. -/
inductive Move (s : World) (w : Nat) (x : Worker) : Event → DB → Worker → List (Nat × Nat) → Prop
  | stay {e} : Move s w x e s.db x s.submissions
  | back {e} (h : ∀ job, x.phase ≠ .sending job) (hstopped : x.phase ≠ .stopped) :
    Move s w x e s.db { x with phase := .idle } s.submissions
  | acquired {now db} (h : x.phase = .idle) (hdb : s.db.acquireMailLease w now = some db) :
    Move s w x (.acquire w now) db { x with phase := x.afterLease now } s.submissions
  | recovered {now db} (h : x.phase = .recovering now) (hdb : s.db.recoverMailAttempts w now = .ok db) :
    Move s w x (.recover w) db ⟨.selecting now, true, x.pending⟩ s.submissions
  | selected {now job} (h : x.phase = .selecting now) (hnext : s.db.isNext now job) :
    Move s w x (.select w job) s.db { x with phase := .processing job now } s.submissions
  | saving {env job job' now} (h : x.phase = .processing job now) (hp : (Next.save job').Prepared job) :
    Move s w x (.process w env) s.db { x with phase := .saving job' } s.submissions
  | submitting {env job job' now} (h : x.phase = .processing job now) (hp : (Next.submit job').Prepared job) :
    Move s w x (.process w env) s.db { x with phase := .submitting job' } s.submissions
  | finished {env job c now} (h : x.phase = .processing job now) (hp : (Next.complete c).Prepared job) :
    Move s w x (.process w env) s.db ⟨.completing, x.recovered, some c⟩ s.submissions
  | saved {job db} (h : x.phase = .saving job) (hdb : s.db.saveMailAttempt w job = .ok db) :
    Move s w x (.save w) db { x with phase := .idle } s.submissions
  | opened {job db} (h : x.phase = .submitting job) (hdb : s.db.saveMailAttempt w job = .ok db) :
    Move s w x (.submit w) db { x with phase := .sending job } s.submissions
  | sent {job answer now} (h : x.phase = .sending job) :
    Move s w x (.send w answer now) s.db ⟨.completing, x.recovered, some ⟨submitted job answer now, true⟩⟩
      (s.submissions ++ [(job.id, w)])
  | completed {c now db} (h : x.phase = .completing) (hc : x.pending = some c)
    (hdb : s.db.saveMailAttempt w (completed c.job now) = .ok db) :
    Move s w x (.complete w now) db ⟨.idle, x.recovered, none⟩ s.submissions
  | dropped {c now} (h : x.phase = .completing) (hc : x.pending = some c)
    (hdb : s.db.saveMailAttempt w (completed c.job now) = .error .finalized) :
    Move s w x (.complete w now) s.db ⟨.idle, x.recovered, none⟩ s.submissions
  | released (h : x.phase = .idle) :
    Move s w x (.release w) (s.db.releaseMailLease w) { x with phase := .stopped } s.submissions
  | crashed : Move s w x (.crash w) s.db { x with phase := .stopped } s.submissions
  | queued {userID scene createdAt expiresAt db} (hdb : s.db.queueMailJob userID scene createdAt expiresAt = .ok db) :
    Move s w x (.queue userID scene createdAt expiresAt) db x s.submissions
  | deleted {p} : Move s w x (.delete p) (s.db.deleteJobs p) x s.submissions

/-- `Prepared` needs a job that can be selected. -/
def World.Selected (s : World) : Prop :=
  ∀ w job now, (s.workers w).phase = .processing job now → job.status.selectable

theorem next_move (s : World) (hsel : s.Selected) (e : Event) :
    ∃ w db x subs, Move s w (s.workers w) e db x subs ∧ s.next e = ⟨db, Function.update s.workers w x, subs⟩ := by
  have stay (w : Nat) : ∃ w db x subs, Move s w (s.workers w) e db x subs ∧
      s = ⟨db, Function.update s.workers w x, subs⟩ :=
    ⟨w, _, _, _, .stay, by rw [Function.update_eq_self]⟩
  cases e with
  | acquire w now =>
    unfold World.next
    dsimp only
    split
    · rename_i hidle
      split
      · exact stay w
      · rename_i db hdb
        exact ⟨w, _, _, _, .acquired hidle hdb, rfl⟩
    · exact stay w
  | recover w =>
    unfold World.next
    dsimp only
    split
    · rename_i now hphase
      split
      · rename_i db hdb
        exact ⟨w, _, _, _, .recovered hphase hdb, rfl⟩
      · exact ⟨w, _, _, _, .back (by simp [hphase]) (by simp [hphase]), rfl⟩
    · exact stay w
  | select w job =>
    unfold World.next
    dsimp only
    split
    · rename_i now hphase
      split
      · rename_i hnext
        exact ⟨w, _, _, _, .selected hphase hnext, rfl⟩
      · exact stay w
    · exact stay w
  | process w env =>
    unfold World.next
    dsimp only
    split
    · rename_i job now hphase
      have hp := process_prepared env (hsel w job now hphase) now
      split <;> rename_i hproc <;> rw [hproc] at hp
      · exact ⟨w, _, _, _, .back (by simp [hphase]) (by simp [hphase]), rfl⟩
      · exact ⟨w, _, _, _, .saving hphase hp, rfl⟩
      · exact ⟨w, _, _, _, .finished hphase hp, rfl⟩
      · exact ⟨w, _, _, _, .submitting hphase hp, rfl⟩
    · exact stay w
  | save w =>
    unfold World.next
    dsimp only
    split
    · rename_i job hphase
      split
      · rename_i db hdb
        exact ⟨w, _, _, _, .saved hphase hdb, rfl⟩
      · exact ⟨w, _, _, _, .back (by simp [hphase]) (by simp [hphase]), rfl⟩
    · exact stay w
  | submit w =>
    unfold World.next
    dsimp only
    split
    · rename_i job hphase
      split
      · rename_i db hdb
        exact ⟨w, _, _, _, .opened hphase hdb, rfl⟩
      · exact ⟨w, _, _, _, .back (by simp [hphase]) (by simp [hphase]), rfl⟩
    · exact stay w
  | send w answer now =>
    unfold World.next
    dsimp only
    split
    · rename_i job hphase
      exact ⟨w, _, _, _, .sent hphase, rfl⟩
    · exact stay w
  | complete w now =>
    unfold World.next
    dsimp only
    split
    · rename_i c hphase hc
      split
      · rename_i db hdb
        exact ⟨w, _, _, _, .completed hphase hc hdb, rfl⟩
      · rename_i hdb
        exact ⟨w, _, _, _, .dropped hphase hc hdb, rfl⟩
      · exact ⟨w, _, _, _, .back (by simp [hphase]) (by simp [hphase]), rfl⟩
    · exact stay w
  | quit w =>
    unfold World.next
    dsimp only
    split
    · exact stay w
    · exact stay w
    · rename_i hsending hstopped
      exact ⟨w, _, _, _, .back hsending hstopped, rfl⟩
  | release w =>
    unfold World.next
    dsimp only
    split
    · rename_i hidle
      exact ⟨w, _, _, _, .released hidle, rfl⟩
    · exact stay w
  | crash w => exact ⟨w, _, _, _, .crashed, rfl⟩
  | queue userID scene createdAt expiresAt =>
    unfold World.next
    dsimp only
    split
    · rename_i db hdb
      exact ⟨0, _, _, _, .queued hdb, by rw [Function.update_eq_self]; rfl⟩
    · exact stay 0
  | delete p => exact ⟨0, _, _, _, .deleted, by rw [Function.update_eq_self]; rfl⟩

section Move
variable {s : World} {w : Nat} {x x' : Worker} {e : Event} {db : DB} {subs : List (Nat × Nat)}

theorem Move.nextID (h : Move s w x e db x' subs) : s.db.nextID ≤ db.nextID := by
  cases h with
  | acquired _ hdb => exact Nat.le_of_eq (DB.acquireMailLease_some hdb).2.2.symm
  | recovered _ hdb => exact Nat.le_of_eq (DB.recoverMailAttempts_ok hdb).2.2.1.symm
  | saved _ hdb | opened _ hdb | completed _ _ hdb =>
    obtain ⟨row, hw⟩ := DB.saveMailAttempt_ok hdb
    exact Nat.le_of_eq hw.nextID.symm
  | released => exact Nat.le_of_eq (DB.releaseMailLease_spec s.db w).2.1.symm
  | queued hdb => exact (DB.queueMailJob_ok hdb).2.1 ▸ Nat.le_succ _
  | _ => exact Nat.le_refl _

/-- Where a row comes from that an event writes for a worker. -/
inductive Origin (s : World) (w : Nat) (x x' : Worker) (e : Event) (row row' : Job) : Prop
  | recovered {now} (h : x.phase = .recovering now) (hrow : row.status = .sending) (heq : row' = DB.interrupt now row)
  | saved {job} (h : x.phase = .saving job) (hid : row.id = job.id) (heq : row' = DB.write job row)
  | opened {job} (h : x.phase = .submitting job) (hx : x'.phase = .sending job) (hid : row.id = job.id)
    (heq : row' = DB.write job row)
  | completed {c now} (h : x.phase = .completing) (hc : x.pending = some c) (hx : x'.pending = none)
    (he : e = .complete w now)
    (hrow : row.status.pending = true ∨ row.status = .unknown ∧ row.result.interrupted = true) (hid : row.id = c.job.id)
    (heq : row' = DB.write (completed c.job now) row)

theorem Written.row {db db' : DB} {job row : Job} (h : DB.Written db db' w job row) {k : Nat} {row' : Job}
    (hrow : db'.jobs.find? k = some row') :
    db.jobs.find? k = some row' ∨ db.jobs.find? k = some row ∧ row.id = job.id ∧ row' = DB.write job row := by
  rw [h.jobs] at hrow
  split at hrow
  · rename_i hk
    cases hrow
    exact .inr ⟨hk ▸ h.found, DB.find?_id h.found, rfl⟩
  · exact .inl hrow

theorem Move.row (h : Move s w x e db x' subs) {k : Nat} {row' : Job} (hrow : db.jobs.find? k = some row') :
    s.db.jobs.find? k = some row' ∨ (k = s.db.nextID ∧ db.nextID = k + 1 ∧ row'.status = .queued) ∨
      ∃ row, s.db.jobs.find? k = some row ∧ s.db.leaseOwner = some w ∧ Origin s w x x' e row row' := by
  cases h with
  | acquired _ hdb => exact .inl ((DB.acquireMailLease_some hdb).2.1 ▸ hrow)
  | recovered h hdb =>
    obtain ⟨howner, -, -, hjobs⟩ := DB.recoverMailAttempts_ok hdb
    rw [hjobs, Option.map_eq_some_iff] at hrow
    obtain ⟨row, hfound, hrow⟩ := hrow
    split at hrow
    · rename_i hsending
      exact .inr (.inr ⟨row, hfound, howner, .recovered h hsending hrow.symm⟩)
    · exact .inl (hrow ▸ hfound)
  | saved h hdb =>
    obtain ⟨row, hw⟩ := DB.saveMailAttempt_ok hdb
    rcases Written.row hw hrow with h' | ⟨hfound, hid, heq⟩
    · exact .inl h'
    · exact .inr (.inr ⟨row, hfound, hw.owner, .saved h hid heq⟩)
  | opened h hdb =>
    obtain ⟨row, hw⟩ := DB.saveMailAttempt_ok hdb
    rcases Written.row hw hrow with h' | ⟨hfound, hid, heq⟩
    · exact .inl h'
    · exact .inr (.inr ⟨row, hfound, hw.owner, .opened h rfl hid heq⟩)
  | completed h hc hdb =>
    obtain ⟨row, hw⟩ := DB.saveMailAttempt_ok hdb
    rcases Written.row hw hrow with h' | ⟨hfound, hid, heq⟩
    · exact .inl h'
    · exact .inr (.inr ⟨row, hfound, hw.owner, .completed h hc rfl rfl hw.allowed hid heq⟩)
  | released => exact .inl ((DB.releaseMailLease_spec s.db w).1 ▸ hrow)
  | queued hdb =>
    obtain ⟨-, hnext, job, -, hstatus, hjobs⟩ := DB.queueMailJob_ok hdb
    rcases hjobs k row' hrow with h' | ⟨rfl, rfl⟩
    · exact .inl h'
    · exact .inr (.inl ⟨rfl, hnext, hstatus⟩)
  | deleted => exact .inl (DB.find?_deleteJobs hrow)
  | _ => exact .inl hrow

theorem Move.owner (h : Move s w x e db x' subs) {v : Nat} (hv : db.leaseOwner = some v) :
    s.db.leaseOwner = some v ∨
      v = w ∧ x.phase = .idle ∧ ∃ now, e = .acquire w now ∧ s.db.acquireMailLease w now = some db ∧
        x' = { x with phase := x.afterLease now } := by
  cases h with
  | acquired hidle hdb =>
    rw [(DB.acquireMailLease_some hdb).1] at hv
    exact .inr ⟨(Option.some.inj hv).symm, hidle, _, rfl, hdb, rfl⟩
  | recovered _ hdb => exact .inl ((DB.recoverMailAttempts_ok hdb).2.1 ▸ hv)
  | saved _ hdb | opened _ hdb | completed _ _ hdb =>
    obtain ⟨row, hw⟩ := DB.saveMailAttempt_ok hdb
    exact .inl (hw.owner' ▸ hv)
  | released => exact .inl ((DB.releaseMailLease_spec s.db w).2.2 v hv).2
  | queued hdb => exact .inl ((DB.queueMailJob_ok hdb).1 ▸ hv)
  | _ => exact .inl hv

end Move

end Renop.MailQueue
