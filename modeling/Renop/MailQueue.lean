import Renop.SqlTable
import Mathlib.Logic.Function.Basic

/-!
# The mail queue

Workers of any number of processes share the queue in the database. One of them holds a lease of 90 seconds; every
write of a job checks that the lease is still the worker's own. A worker stands between two calls at a `Phase`, and
an event takes one worker over its next call, so the workers may be interleaved, delayed or stopped at will.

A job is a row of `mail_jobs`, numbered by its insertion. What `process` asks about accounts, recipients, tokens and
rates is given by an `Env`; the accounting of credits is left out.
-/

namespace Renop.MailQueue

open Sql

inductive Status
  | queued
  | paused
  | sending
  | checking
  | accepted
  | sent
  | delivered
  | failed
  | unknown
  | expired
  | cancelled
  | queuedProvider
deriving DecidableEq, Repr

/-- The statuses that count against `MaxPendingJobs`. -/
def Status.pending (s : Status) : Bool := s = .queued || s = .paused || s = .sending || s = .checking

structure Result where
  messageID : String
  status : Status
  code : String
  check : Bool
deriving DecidableEq, Repr

/-- `Result.Terminal` -/
def Result.terminal (r : Result) : Bool :=
  !r.check || r.status = .delivered || r.status = .failed || r.status = .sent || r.status = .unknown

/-- `strings.Contains` of the result's JSON. -/
def Result.interrupted (r : Result) : Bool :=
  r.code = "mail_submission_interrupted" || r.messageID = "mail_submission_interrupted"

structure Job where
  id : Nat
  userID : String
  scene : String
  status : Status
  result : Result
  checks : Nat
  createdAt : Int
  updatedAt : Int
  nextAt : Int
  expiresAt : Int
deriving DecidableEq, Repr

abbrev Jobs := Table Job.id

/-! ### The database -/

/-- A worker is named by the number of its `owner` token. -/
structure DB where
  leaseOwner : Option Nat
  leaseUntil : Int
  jobs : Jobs
  /-- The number of the next insertion. -/
  nextID : Nat

def maxPendingJobs : Nat := 2048

inductive MailError
  | leaseLost
  | finalized
  | queueFull
  | database
deriving DecidableEq, Repr

namespace DB

def acquireMailLease (db : DB) (owner : Nat) (now : Int) : Option DB :=
  if db.leaseOwner ≠ some owner ∧ now < db.leaseUntil then none
  else some { db with leaseOwner := some owner, leaseUntil := now + 90000 }

def releaseMailLease (db : DB) (owner : Nat) : DB :=
  if db.leaseOwner = some owner then { db with leaseOwner := none, leaseUntil := 0 } else db

def requireMailLease (db : DB) (owner : Nat) (now : Int) : Except MailError Unit :=
  require (db.leaseOwner = some owner ∧ now < db.leaseUntil) .leaseLost

def updateJobs (db : DB) (p : Job → Bool) (f : Job → Job) (h : ∀ j, (f j).id = j.id) : DB :=
  { db with jobs := db.jobs.update (fun j => if p j then f j else j) fun j => by split <;> simp [h] }

/-- The columns that `SaveMailAttempt` sets. -/
def write (job : Job) (row : Job) : Job :=
  { row with
    status := job.status, result := job.result, checks := job.checks, updatedAt := job.updatedAt, nextAt := job.nextAt }

theorem write_id (job row : Job) : (write job row).id = row.id := rfl

def saveMailAttempt (db : DB) (owner : Nat) (job : Job) : Except MailError DB := do
  requireMailLease db owner job.updatedAt
  let current ← orError (db.jobs.find? job.id) .finalized
  require (current.status.pending = true ∨ current.status = .unknown ∧ current.result.interrupted = true) .finalized
  pure (db.updateJobs (fun row => row.id = job.id) (write job) (write_id job))

def interruptedResult : Result := ⟨"", .unknown, "mail_submission_interrupted", false⟩

def interrupt (now : Int) (row : Job) : Job :=
  { row with status := .unknown, result := interruptedResult, updatedAt := now }

theorem interrupt_id (now : Int) (row : Job) : (interrupt now row).id = row.id := rfl

/-- Marks the submissions that were interrupted. -/
def recoverMailAttempts (db : DB) (owner : Nat) (now : Int) : Except MailError DB := do
  requireMailLease db owner now
  pure (db.updateJobs (fun row => row.status = .sending) (interrupt now) (interrupt_id now))

/-- The row that a request queues; the other checks of `queueMailJobTx` are about the request. -/
def queueMailJob (db : DB) (userID scene : String) (createdAt expiresAt : Int) : Except MailError DB := do
  require (db.jobs.rows.countP (·.status.pending) < maxPendingJobs) .queueFull
  require (db.jobs.rows.length < maxPendingJobs + 10000) .queueFull
  let job : Job := ⟨db.nextID, userID, scene, .queued, ⟨"", .queued, "", false⟩, 0, createdAt, createdAt, createdAt,
    expiresAt⟩
  let jobs ← db.jobs.insert job .database
  pure { db with jobs := jobs, nextID := db.nextID + 1 }

/-- `CleanMailData`, and the deletion of an account. -/
def deleteJobs (db : DB) (p : Job → Bool) : DB := { db with jobs := db.jobs.delete p }

/-- The jobs that `NextMailJob` may return. -/
def due (now : Int) (j : Job) : Bool :=
  (j.status = .queued || j.status = .paused || j.status = .checking) && (j.nextAt ≤ now || j.expiresAt ≤ now)

/-- `ORDER BY next_at, created_at`; the ids break ties. -/
def isNext (db : DB) (now : Int) (j : Job) : Prop :=
  j ∈ db.jobs.rows ∧ due now j = true ∧
    ∀ k ∈ db.jobs.rows, due now k = true → j.nextAt < k.nextAt ∨ j.nextAt = k.nextAt ∧ j.createdAt ≤ k.createdAt

instance (db : DB) (now : Int) (j : Job) : Decidable (db.isNext now j) := inferInstanceAs (Decidable (_ ∧ _ ∧ _))

end DB

/-! ### Processing a job -/

inductive RecipientCheck
  | ok
  /-- The lookup failed. -/
  | error
  | cancel (code : String)

inductive TokenAnswer
  | ok
  | refreshFailed
  /-- The new token was not saved. -/
  | saveFailed

/-- What `Client.Send` answers when it reports no error. -/
structure Sent where
  result : Result
  status : result.status = .accepted ∨ result.status = .delivered ∨ result.status = .queuedProvider

/-- What `Client.Check` answers when it reports no error. -/
structure Checked where
  result : Result
  status : result.check = false →
    result.status = .delivered ∨ result.status = .failed ∨ result.status = .sent ∨ result.status = .unknown

/-- What `process` learns from the configuration, the account tables and the mail provider. -/
structure Env where
  /-- Whether the account of the job is enabled; `none` when there is no such account. -/
  account : Option Bool
  allows : Bool
  recipient : RecipientCheck
  /-- `next_send_at` of the lease that the step began with. -/
  nextSendAt : Int
  accountLoaded : Bool
  /-- Whether the account has to be calibrated before its first use. -/
  calibrates : Bool
  /-- The end of the interval, when the rate of the account is used up. -/
  rateLimited : Option Int
  token : TokenAnswer
  check : Except String Checked
  /-- The reason and the time of a credit that cannot be reserved. -/
  reserve : Option (String × Int)
  /-- `time.Now()` at the end. -/
  now : Int

/-- A transition that a worker has to write, or to write again; `submitted` says that it called `Client.Send`. -/
structure Completion where
  job : Job
  submitted : Bool
deriving DecidableEq, Repr

inductive Next
  | stop
  | save (job : Job)
  | complete (c : Completion)
  | submit (job : Job)

/-- `worker.finish` -/
def finish (job : Job) (status : Status) (code : String) : Next :=
  .complete ⟨{ job with status := status, result := { job.result with status := status, code := code, check := false } },
    false⟩

/-- `worker.pause` -/
def pause (env : Env) (job : Job) (code : String) (until_ : Int) : Next :=
  .save { job with status := .paused, result := ⟨"", .paused, code, false⟩, updatedAt := env.now, nextAt := until_ }

/-- `worker.failPreparation` -/
def failPreparation (job : Job) (code : String) : Next :=
  let status := if job.status = .checking then .unknown else .failed
  .complete ⟨{ job with status := status, result := { job.result with status := status, code := code } }, false⟩

/-- The lookup of a job that was submitted before. -/
def checkStatus (env : Env) (job : Job) : Next :=
  let job := { job with checks := job.checks + 1 }
  let again (job : Job) : Next :=
    .save { job with updatedAt := env.now, nextAt := env.now + min (5 * 2 ^ min job.checks 6) 300 * 1000 }
  match env.check with
  | .error _ =>
    let job := { job with result := { job.result with code := "mail_status_lookup_failed" } }
    if 8 ≤ job.checks then finish job .unknown "mail_status_unknown" else again job
  | .ok checked =>
    let job := { job with result := checked.result }
    if checked.result.terminal then finish job checked.result.status checked.result.code else again job

/-- `process`, up to its first write of the job; `now` is the time of the step. -/
def process (env : Env) (job : Job) (now : Int) : Next :=
  let checking : Bool := job.status = .checking
  if job.expiresAt ≤ now then
    if checking then finish job .unknown "mail_status_unknown" else finish job .expired "mail_expired"
  else
    match env.account with
    | none => finish job (if checking then .unknown else .cancelled) "mail_no_account"
    | some false =>
      if checking then .save { job with updatedAt := now, nextAt := now + 60000 }
      else pause env job "mail_account_disabled" (now + 60000)
    | some true =>
      if !checking ∧ !env.allows then finish job .cancelled "mail_recipient_blocked"
      else
        match (if !checking ∧ job.userID ≠ "" then env.recipient else .ok) with
        | .error => .stop
        | .cancel code => finish job .cancelled code
        | .ok =>
          if !checking ∧ now < env.nextSendAt then .save { job with updatedAt := now, nextAt := env.nextSendAt }
          else if !env.accountLoaded then .stop
          else if !checking ∧ env.calibrates then .stop
          else if !checking ∧ env.rateLimited.isSome then
            pause env job "mail_account_rate_limited" (env.rateLimited.getD 0)
          else
            match env.token with
            | .refreshFailed => failPreparation job "mail_oauth_refresh_failed"
            | .saveFailed => failPreparation job "mail_oauth_state_unavailable"
            | .ok =>
              if checking then checkStatus env job
              else
                match env.reserve with
                | some (reason, until_) => pause env job reason until_
                | none => .submit { job with status := .sending, updatedAt := env.now, nextAt := 0 }

/-- The job after `Client.Send`; an error says whether the outcome is uncertain, and its code. -/
def submitted (job : Job) (answer : Except (Bool × String) Sent) (now : Int) : Job :=
  match answer with
  | .error (uncertain, code) =>
    let status := if uncertain then .unknown else .failed
    { job with status := status, result := ⟨"", status, code, false⟩, updatedAt := now }
  | .ok sent =>
    if sent.result.check then { job with status := .checking, result := sent.result, updatedAt := now, nextAt := now + 5000 }
    else { job with status := sent.result.status, result := sent.result, updatedAt := now }

/-- What `complete` writes. -/
def completed (job : Job) (now : Int) : Job :=
  { job with nextAt := if job.status = .checking then job.nextAt else 0, updatedAt := now }

/-! ### Workers -/

/-- The call that a worker makes next; `now` is the time of its step. -/
inductive Phase
  | idle
  | recovering (now : Int)
  /-- Maintenance, notifications and calibration, and then `NextMailJob`. -/
  | selecting (now : Int)
  | processing (job : Job) (now : Int)
  | saving (job : Job)
  /-- `SaveMailAttempt` before the submission. -/
  | submitting (job : Job)
  /-- `Client.Send` -/
  | sending (job : Job)
  | completing
  | stopped
deriving DecidableEq, Repr

structure Worker where
  phase : Phase
  recovered : Bool
  pending : Option Completion

def Worker.start : Worker := ⟨.idle, false, none⟩

structure World where
  db : DB
  workers : Nat → Worker
  /-- The calls of `Client.Send`: the job, and the worker that submitted it. -/
  submissions : List (Nat × Nat)

def World.init : World := ⟨⟨none, 0, .empty, 0⟩, fun _ => .start, []⟩

inductive Event
  | acquire (w : Nat) (now : Int)
  | recover (w : Nat)
  | select (w : Nat) (job : Job)
  | process (w : Nat) (env : Env)
  | save (w : Nat)
  | submit (w : Nat)
  | send (w : Nat) (answer : Except (Bool × String) Sent) (now : Int)
  | complete (w : Nat) (now : Int)
  /-- The step returns early: a call failed, there is no job, or an account was calibrated. -/
  | quit (w : Nat)
  /-- The shutdown between two steps. -/
  | release (w : Nat)
  | crash (w : Nat)
  | queue (userID scene : String) (createdAt expiresAt : Int)
  | delete (p : Job → Bool)

namespace World

def setWorker (s : World) (w : Nat) (x : Worker) : World := { s with workers := Function.update s.workers w x }

def setPhase (s : World) (w : Nat) (phase : Phase) : World := s.setWorker w { s.workers w with phase := phase }

def setDB (s : World) (db : DB) : World := { s with db := db }

/-- One event; a call that the worker does not make next changes nothing. -/
def next (s : World) : Event → World
  | .acquire w now =>
    match (s.workers w).phase with
    | .idle =>
      match s.db.acquireMailLease w now with
      | none => s
      | some db =>
        (s.setDB db).setPhase w (if (s.workers w).pending.isSome then .completing
          else if (s.workers w).recovered then .selecting now else .recovering now)
    | _ => s
  | .recover w =>
    match (s.workers w).phase with
    | .recovering now =>
      match s.db.recoverMailAttempts w now with
      | .ok db => (s.setDB db).setWorker w ⟨.selecting now, true, (s.workers w).pending⟩
      | .error _ => s.setPhase w .idle
    | _ => s
  | .select w job =>
    match (s.workers w).phase with
    | .selecting now => if s.db.isNext now job then s.setPhase w (.processing job now) else s
    | _ => s
  | .process w env =>
    match (s.workers w).phase with
    | .processing job now =>
      match MailQueue.process env job now with
      | .stop => s.setPhase w .idle
      | .save job => s.setPhase w (.saving job)
      | .complete c => s.setWorker w ⟨.completing, (s.workers w).recovered, some c⟩
      | .submit job => s.setPhase w (.submitting job)
    | _ => s
  | .save w =>
    match (s.workers w).phase with
    | .saving job =>
      match s.db.saveMailAttempt w job with
      | .ok db => (s.setDB db).setPhase w .idle
      | .error _ => s.setPhase w .idle
    | _ => s
  | .submit w =>
    match (s.workers w).phase with
    | .submitting job =>
      match s.db.saveMailAttempt w job with
      | .ok db => (s.setDB db).setPhase w (.sending job)
      | .error _ => s.setPhase w .idle
    | _ => s
  | .send w answer now =>
    match (s.workers w).phase with
    | .sending job =>
      { s.setWorker w ⟨.completing, (s.workers w).recovered, some ⟨submitted job answer now, true⟩⟩ with
        submissions := s.submissions ++ [(job.id, w)] }
    | _ => s
  | .complete w now =>
    match (s.workers w).phase, (s.workers w).pending with
    | .completing, some c =>
      match s.db.saveMailAttempt w (completed c.job now) with
      | .ok db => (s.setDB db).setWorker w ⟨.idle, (s.workers w).recovered, none⟩
      | .error .finalized => s.setWorker w ⟨.idle, (s.workers w).recovered, none⟩
      | .error _ => s.setPhase w .idle
    | _, _ => s
  | .quit w =>
    match (s.workers w).phase with
    -- a worker whose job is submitted or about to be goes on
    | .sending _ | .stopped => s
    | _ => s.setPhase w .idle
  | .release w =>
    match (s.workers w).phase with
    | .idle => (s.setDB (s.db.releaseMailLease w)).setPhase w .stopped
    | _ => s
  | .crash w => s.setPhase w .stopped
  | .queue userID scene createdAt expiresAt =>
    match s.db.queueMailJob userID scene createdAt expiresAt with
    | .ok db => s.setDB db
    | .error _ => s
  | .delete p => s.setDB (s.db.deleteJobs p)

def run (s : World) (es : List Event) : World := es.foldl next s

end World

end Renop.MailQueue
