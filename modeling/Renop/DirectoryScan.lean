import Renop.CallList

/-!
# Requests for directory scans

`queueDirectoryScan` and `runDirectoryScanWorker` of `watcher.go`, with any number of callers. The failed send and the store
of the flag are two steps of a caller; the worker looks at the flag only when it has received a request.

`covered` is read by no step: it says whether a scan of the path, or of everything, has begun since the call began.
-/

namespace Renop.DirectoryScan

open CallList

def directoryScanQueueSize : Nat := 64

/-- Where a call of `queueDirectoryScan` stands. -/
inductive Phase
  | begun
  /-- `default:` was taken, `scanAll.Store(true)` comes next. -/
  | failed
  | returned
deriving DecidableEq, Repr

structure Call where
  path : String
  phase : Phase
  covered : Bool
deriving DecidableEq, Repr

/-- Where the worker stands. -/
inductive Worker
  /-- The `select` with a `default`. -/
  | look
  /-- The `select` that blocks. -/
  | wait
  | received (path : String)
  | drain
  /-- `scan(path)` comes next. -/
  | scan (path : String)
  | scanning (path : String)
  | stopped
deriving DecidableEq, Repr

structure State where
  requests : List String
  scanAll : Bool
  done : Bool
  worker : Worker
  calls : List Call
deriving DecidableEq, Repr

def State.init : State := ⟨[], false, false, .look, []⟩

inductive Act
  /-- `queueDirectoryScan` is called. -/
  | call (path : String)
  /-- The `select` of a call. -/
  | select (i : Nat)
  | store (i : Nat)
  | worker
  /-- The worker takes the branch of `done` where it blocks. -/
  | stop
  | close
deriving DecidableEq, Repr

def Call.enter (ph : Phase) (c : Call) : Call := { c with phase := ph }

section Step
variable (basePath : String)

/-- A scan of `path` begins. -/
def Call.cover (path : String) (c : Call) : Call := if path = c.path ∨
    path = basePath then { c with covered := true } else c

def workerStep (s : State) : Option State :=
  match s.worker with
  | .look => some { s with worker := if s.done then .stopped else .wait }
  | .wait =>
    match s.requests with
    | [] => none
    | path :: rest => some { s with requests := rest, worker := .received path }
  | .received path => some { s with scanAll := false, worker := if s.scanAll then .drain else .scan path }
  | .drain =>
    match s.requests with
    | [] => some { s with worker := .scan basePath }
    | _ :: rest => some { s with requests := rest }
  | .scan path => some { s with worker := .scanning path, calls := s.calls.map (Call.cover basePath path) }
  | .scanning _ => some { s with worker := .look }
  | .stopped => none

def step (s : State) : Act → Option State
  | .call path => some { s with calls := s.calls ++ [⟨path, .begun, false⟩] }
  | .select i =>
    match s.calls[i]? with
    | some ⟨path, .begun, _⟩ =>
      if s.requests.length < directoryScanQueueSize then
        some { s with requests := s.requests ++ [path], calls := s.calls.modify i (Call.enter .returned) }
      else some { s with calls := s.calls.modify i (Call.enter .failed) }
    | _ => none
  | .store i =>
    match s.calls[i]? with
    | some ⟨_, .failed, _⟩ => some { s with scanAll := true, calls := s.calls.modify i (Call.enter .returned) }
    | _ => none
  | .worker => workerStep basePath s
  | .stop => if s.worker = .wait ∧ s.done then some { s with worker := .stopped } else none
  | .close => some { s with done := true }

/-- A run in which every step meets `ok`. -/
inductive Run (ok : State → Act → Prop) : State → Prop
  | init : Run ok .init
  | step {s s'} (a : Act) : Run ok s → ok s a → step basePath s a = some s' → Run ok s'

end Step

/-- All callers have returned, the channel is empty, and the worker waits. -/
def State.Quiet (s : State) : Prop := (∀ c ∈ s.calls, c.phase = .returned) ∧ s.requests = [] ∧ s.worker = .wait

/-- A scan that covers `path` is certain to begin. -/
def State.Pending (basePath : String) (s : State) (path : String) : Prop :=
  path ∈ s.requests ∨ s.worker = .received path ∨ s.worker = .drain ∨ s.worker = .scan path ∨
    s.worker = .scan basePath ∨ s.scanAll = true ∧ (s.requests ≠ [] ∨ ∃ q, s.worker = .received q)

/-- The flag is stored while a request is still to be received, or to be looked at; or it is not needed, since a scan that
covers the path has begun after the call or is about to. -/
def Timely (basePath : String) (s : State) : Act → Prop
  | .store i => ∀ c, s.calls[i]? = some c → c.covered = true ∨ s.requests ≠ [] ∨ (∃ q, s.worker = .received q) ∨
      s.worker = .drain ∨ s.worker = .scan c.path ∨ s.worker = .scan basePath
  | _ => True

def Inv (basePath : String) (s : State) : Prop :=
  ∀ c ∈ s.calls, c.phase = .returned → c.covered = true ∨ s.Pending basePath c.path

section Steps
variable {basePath : String} {s s' : State}

/-- What a step of the worker does to a scan that is certain to begin. -/
theorem workerStep_pending (h : workerStep basePath s = some s') {path : String} (hp : s.Pending basePath path) :
    s'.Pending basePath path ∨ s.worker = .scan path ∨ s.worker = .scan basePath := by
  obtain ⟨requests, scanAll, done, worker, calls⟩ := s
  cases worker with
  | look =>
    obtain rfl := Option.some.inj h
    cases done <;> simpa [State.Pending] using hp
  | wait =>
    cases requests with
    | nil => simp [workerStep] at h
    | cons q rest =>
      obtain rfl := Option.some.inj h
      simp only [State.Pending, List.mem_cons] at hp ⊢
      rcases hp with (rfl | hp) | hp | hp | hp | hp | ⟨hall, -⟩
      · simp
      · simp [hp]
      all_goals simp_all
  | received q =>
    obtain rfl := Option.some.inj h
    cases scanAll
    · simp only [State.Pending] at hp ⊢
      rcases hp with hp | hp | hp | hp | hp | ⟨hall, -⟩
      · simp [hp]
      · obtain rfl := Worker.received.inj hp
        simp
      all_goals simp_all
    · simp [State.Pending]
  | drain =>
    cases requests with
    | nil =>
      obtain rfl := Option.some.inj h
      simp [State.Pending]
    | cons q rest =>
      obtain rfl := Option.some.inj h
      simp [State.Pending]
  | scan q =>
    obtain rfl := Option.some.inj h
    simp only [State.Pending] at hp ⊢
    rcases hp with hp | hp | hp | hp | hp | ⟨hall, hp | hp⟩
    · simp [hp]
    · simp at hp
    · simp at hp
    · exact .inr (.inl hp)
    · exact .inr (.inr hp)
    · simp [hall, hp]
    · simp at hp
  | scanning q =>
    obtain rfl := Option.some.inj h
    simpa [State.Pending] using hp
  | stopped => simp [workerStep] at h

theorem workerStep_calls (h : workerStep basePath s = some s') :
    (∀ path, s.worker ≠ .scan path) ∧ s'.calls = s.calls ∨
      ∃ path, s.worker = .scan path ∧ s'.calls = s.calls.map (Call.cover basePath path) := by
  obtain ⟨requests, scanAll, done, worker, calls⟩ := s
  cases worker with
  | scan path =>
    obtain rfl := Option.some.inj h
    exact .inr ⟨path, rfl, rfl⟩
  | look | received _ | scanning _ =>
    obtain rfl := Option.some.inj h
    exact .inl ⟨fun _ => Worker.noConfusion, rfl⟩
  | wait | drain =>
    cases requests with
    | nil =>
      first
      | obtain rfl := Option.some.inj h
        exact .inl ⟨fun _ => Worker.noConfusion, rfl⟩
      | simp [workerStep] at h
    | cons q rest =>
      obtain rfl := Option.some.inj h
      exact .inl ⟨fun _ => Worker.noConfusion, rfl⟩
  | stopped => simp [workerStep] at h

theorem cover_phase (path : String) (c : Call) : (c.cover basePath path).phase = c.phase := by
  unfold Call.cover
  split_ifs <;> rfl

theorem cover_path (path : String) (c : Call) : (c.cover basePath path).path = c.path := by
  unfold Call.cover
  split_ifs <;> rfl

theorem cover_covered {path : String} {c : Call} :
    (c.cover basePath path).covered = true ↔ c.covered = true ∨ path = c.path ∨ path = basePath := by
  unfold Call.cover
  split_ifs with h
  · simp [h]
  · simp [not_or.1 h]

theorem Inv.worker (hi : Inv basePath s) (h : workerStep basePath s = some s') : Inv basePath s' := by
  intro c hc hret
  rcases workerStep_calls h with ⟨hw, hcalls⟩ | ⟨path, hw, hcalls⟩
  · rw [hcalls] at hc
    rcases hi c hc hret with hcov | hp
    · exact .inl hcov
    · rcases workerStep_pending h hp with hp | hscan | hscan
      · exact .inr hp
      · exact absurd hscan (hw _)
      · exact absurd hscan (hw _)
  · rw [hcalls] at hc
    obtain ⟨b, hb, rfl⟩ := List.mem_map.1 hc
    rw [cover_phase] at hret
    rw [cover_path, cover_covered]
    rcases hi b hb hret with hcov | hp
    · exact .inl (.inl hcov)
    · rcases workerStep_pending h hp with hp | hscan | hscan
      · exact .inr hp
      · rw [hw] at hscan
        exact .inl (.inr (.inl (Worker.scan.inj hscan)))
      · rw [hw] at hscan
        exact .inl (.inr (.inr (Worker.scan.inj hscan)))

theorem Inv.of_le (hi : Inv basePath s) (hreq : ∀ q ∈ s.requests, q ∈ s'.requests) (hw : s'.worker = s.worker)
    (hall : s.scanAll = true → s'.scanAll = true)
    (hcalls : ∀ c ∈ s'.calls, c ∈ s.calls ∨ (c.phase = .returned → c.covered = true ∨ s'.Pending basePath c.path)) :
    Inv basePath s' := by
  intro c hc hret
  rcases hcalls c hc with hc | hnew
  · refine (hi c hc hret).imp_right fun hp => ?_
    unfold State.Pending at hp ⊢
    rw [hw]
    rcases hp with hp | hp | hp | hp | hp | ⟨hset, hp | hp⟩
    · exact .inl (hreq _ hp)
    · simp [hp]
    · simp [hp]
    · simp [hp]
    · simp [hp]
    · obtain ⟨q, hq⟩ := List.exists_mem_of_ne_nil _ hp
      have := List.ne_nil_of_mem (hreq q hq)
      simp [hall hset, this]
    · simp [hall hset, hp]
  · exact hnew hret

theorem Inv.step (hi : Inv basePath s) {a : Act} (ha : Timely basePath s a) (h : step basePath s a = some s') :
    Inv basePath s' := by
  cases a with
  | call path =>
    obtain rfl := Option.some.inj h
    refine hi.of_le (fun _ hq => hq) rfl id fun c hc => ?_
    rcases List.mem_append.1 hc with hc | hc
    · exact .inl hc
    · obtain rfl := List.mem_singleton.1 hc
      exact .inr fun hret => by simp at hret
  | select i =>
    simp only [DirectoryScan.step] at h
    split at h
    · rename_i path _ hcall
      split_ifs at h with hroom
      · obtain rfl := Option.some.inj h
        refine hi.of_le (fun q hq => List.mem_append_left _ hq) rfl id fun c hc => ?_
        rcases mem_modify hc with hc | ⟨b, hb, rfl⟩
        · exact .inl hc
        · rw [hcall] at hb
          obtain rfl := Option.some.inj hb
          exact .inr fun _ => .inr (.inl (by simp [Call.enter]))
      · obtain rfl := Option.some.inj h
        refine hi.of_le (fun q hq => hq) rfl id fun c hc => ?_
        rcases mem_modify hc with hc | ⟨b, -, rfl⟩
        · exact .inl hc
        · exact .inr fun hret => by simp [Call.enter] at hret
    · simp at h
  | store i =>
    simp only [DirectoryScan.step] at h
    split at h
    · rename_i path covered hcall
      obtain rfl := Option.some.inj h
      refine hi.of_le (fun q hq => hq) rfl (fun _ => rfl) fun c hc => ?_
      rcases mem_modify hc with hc | ⟨b, hb, rfl⟩
      · exact .inl hc
      · refine .inr fun _ => ?_
        -- the flag is seen by whoever receives next, or is about to look
        rcases ha b hb with hcov | hreq | hrec | hw | hw | hw
        · exact .inl hcov
        · exact .inr (by simp [State.Pending, hreq])
        · exact .inr (by simp [State.Pending, hrec])
        all_goals exact .inr (by simp [State.Pending, Call.enter, hw])
    · simp at h
  | worker => exact hi.worker h
  | stop =>
    simp only [DirectoryScan.step] at h
    split_ifs at h with hs
    obtain rfl := Option.some.inj h
    intro c hc hret
    refine (hi c hc hret).imp_right fun hp => ?_
    simpa [State.Pending, hs.1] using hp
  | close =>
    obtain rfl := Option.some.inj h
    exact hi.of_le (fun _ hq => hq) rfl id fun c hc => .inl hc

end Steps

section Runs
variable {basePath : String} {s : State}

theorem Run.inv (hr : Run basePath (Timely basePath) s) : Inv basePath s := by
  induction hr with
  | init => intro c hc; simp [State.init] at hc
  | step a _ ha h ih => exact ih.step ha h

theorem State.Quiet.not_pending (hq : s.Quiet) (path : String) : ¬s.Pending basePath path := by
  obtain ⟨-, hreq, hw⟩ := hq
  simp [State.Pending, hreq, hw]

theorem Run.covered (hr : Run basePath (Timely basePath) s) (hq : s.Quiet) : ∀ c ∈ s.calls, c.covered = true := by
  intro c hc
  rcases hr.inv c hc (hq.1 c hc) with hcov | hp
  · exact hcov
  · exact absurd hp (hq.not_pending c.path)

def exec (basePath : String) (acts : List Act) (s : State) : Option State := acts.foldlM (step basePath) s

theorem Run.exec {ok : State → Act → Prop} {acts : List Act} (hok : ∀ a ∈ acts, ∀ s, ok s a)
    (hr : Run basePath ok s) {s' : State} (h : exec basePath acts s = some s') : Run basePath ok s' := by
  induction acts generalizing s with
  | nil =>
    obtain rfl := Option.some.inj h
    exact hr
  | cons a acts ih =>
    obtain ⟨t, ht, h⟩ := Option.bind_eq_some_iff.1 h
    exact ih (fun b hb => hok b (List.mem_cons_of_mem _ hb)) (hr.step a (hok a List.mem_cons_self s) ht) h

theorem exec_cons {a : Act} {acts : List Act} {t : State} (h : step basePath s a = some t) :
    exec basePath (a :: acts) s = exec basePath acts t := by
  simp [exec, h]

theorem worker_waits (hreq : s.requests = []) (hdone : s.done = false) {path : String}
    (hw : s.worker = .look ∨ s.worker = .wait ∨ (∃ q, s.worker = .scanning q) ∨
      ∃ q, s.worker = .scan q ∧ q ≠ path ∧ q ≠ basePath) :
    ∃ (n : Nat) (f : Call → Call), exec basePath (List.replicate n .worker) s =
      some { s with worker := .wait, calls := s.calls.map f } ∧
      (∀ c, (f c).phase = c.phase ∧ (f c).path = c.path) ∧ ∀ c, c.path = path → f c = c := by
  obtain ⟨requests, scanAll, done, worker, calls⟩ := s
  simp only at hreq hdone hw
  subst hreq hdone
  rcases hw with rfl | rfl | ⟨q, rfl⟩ | ⟨q, rfl, hpath, hbase⟩
  · exact ⟨1, id, by simp [exec, step, workerStep], fun _ => ⟨rfl, rfl⟩, fun _ _ => rfl⟩
  · exact ⟨0, id, by simp [exec], fun _ => ⟨rfl, rfl⟩, fun _ _ => rfl⟩
  · exact ⟨2, id, by simp [exec, step, workerStep], fun _ => ⟨rfl, rfl⟩, fun _ _ => rfl⟩
  · refine ⟨3, Call.cover basePath q, by simp [exec, step, workerStep], fun c => ⟨cover_phase q c, cover_path q c⟩,
      fun c hc => ?_⟩
    subst hc
    simp [Call.cover, hpath, hbase]

/-- A flag that is stored too late is seen by no one: without another request the worker comes to rest. -/
theorem store_missed {i : Nat} {c : Call} (hc : s.calls[i]? = some c) (hfail : c.phase = .failed)
    (hlate : ¬Timely basePath s (.store i)) (hothers : ∀ j d, j ≠ i → s.calls[j]? = some d → d.phase = .returned)
    (hdone : s.done = false) (hrun : s.worker ≠ .stopped) :
    ∃ n s', exec basePath (.store i :: List.replicate n .worker) s = some s' ∧ s'.Quiet ∧
      ∃ d ∈ s'.calls, d.path = c.path ∧ d.covered = false := by
  obtain ⟨path, phase, covered⟩ := c
  simp only at hfail
  subst hfail
  simp only [Timely, hc, Option.some.injEq, forall_eq', not_or, Bool.not_eq_true, not_not] at hlate
  obtain ⟨rfl, hreq, hrec, hdrain, hscan, hbase⟩ := hlate
  set t : State := { s with scanAll := true, calls := s.calls.modify i (Call.enter .returned) } with ht
  have hstep : step basePath s (.store i) = some t := by simp [step, hc, ht]
  have hw : t.worker = .look ∨ t.worker = .wait ∨ (∃ q, t.worker = .scanning q) ∨
      ∃ q, t.worker = .scan q ∧ q ≠ path ∧ q ≠ basePath := by
    cases hsw : s.worker with
    | scan q =>
      rw [hsw] at hscan hbase
      exact .inr (.inr (.inr ⟨q, rfl, fun h => hscan (by rw [h]), fun h => hbase (by rw [h])⟩))
    | received q => exact absurd ⟨q, hsw⟩ hrec
    | drain => exact absurd hsw hdrain
    | stopped => exact absurd hsw hrun
    | look | wait | scanning _ => simp
  obtain ⟨n, f, hexec, hkeep, hsame⟩ := worker_waits (s := t) hreq hdone hw
  refine ⟨n, _, (exec_cons hstep).trans hexec, ⟨fun d hd => ?_, hreq, rfl⟩, ?_⟩
  · obtain ⟨b, hb, rfl⟩ := List.mem_map.1 hd
    rw [(hkeep b).1]
    obtain ⟨j, hj⟩ := List.mem_iff_getElem?.1 hb
    simp only [ht, List.getElem?_modify] at hj
    obtain ⟨e, he, hbe⟩ := Option.map_eq_some_iff.1 hj
    by_cases hij : i = j
    · rw [if_pos hij] at hbe
      rw [← hbe]
      rfl
    · rw [if_neg hij] at hbe
      rw [← hbe]
      exact hothers j e (Ne.symm hij) he
  · refine ⟨f (Call.enter .returned ⟨path, .failed, false⟩), List.mem_map.2 ⟨_, ?_, rfl⟩, (hkeep _).2, ?_⟩
    · refine List.mem_iff_getElem?.2 ⟨i, ?_⟩
      simp [ht, hc]
    · rw [hsame _ rfl]
      rfl

end Runs

/-- No request is lost where each flag is stored in time; and where the last caller stores it late, one is. -/
theorem directory_scans_kept (basePath : String) :
    (∀ s, Run basePath (Timely basePath) s → s.Quiet → ∀ c ∈ s.calls, c.covered = true) ∧
      ∀ s i c, s.calls[i]? = some c → c.phase = .failed → ¬Timely basePath s (.store i) →
        (∀ j d, j ≠ i → s.calls[j]? = some d → d.phase = .returned) → s.done = false → s.worker ≠ .stopped →
          ∃ n s', exec basePath (.store i :: List.replicate n .worker) s = some s' ∧ s'.Quiet ∧
            ∃ d ∈ s'.calls, d.path = c.path ∧ d.covered = false :=
  ⟨fun _ hr hq => hr.covered hq, fun _ _ _ hc hf hlate ho hd hw => store_missed hc hf hlate ho hd hw⟩

/-- 64 calls for one directory fill the channel, and the next one for another finds it full. -/
def overflow : List Act :=
  (List.range directoryScanQueueSize).flatMap (fun i => [.call "/repo/a", .select i]) ++ [.call "/repo/b", .select 64]

theorem timely_of_not_store {basePath : String} {a : Act} (h : ∀ i, a ≠ .store i) (s : State) : Timely basePath s a := by
  cases a with
  | store i => exact absurd rfl (h i)
  | _ => trivial

/-- The flag is stored before the worker comes to the channel. -/
theorem directory_scans_kept_overflow :
    ∃ s, Run "/repo" (Timely "/repo") s ∧ s.calls.length = 65 ∧ ∀ c ∈ s.calls, c.covered = true := by
  have hfull : (exec "/repo" overflow .init).any (fun s => s.requests ≠ [] ∧
      (step "/repo" s (.store 64)).any fun t => (exec "/repo" (List.replicate 70 .worker) t).any fun u =>
        u.requests = [] ∧ u.worker = .wait ∧ (∀ c ∈ u.calls, c.phase = .returned) ∧ u.calls.length = 65) =
            true := by
    decide +kernel
  obtain ⟨s, hs, hp⟩ := (Option.any_eq_true ..).1 hfull
  obtain ⟨hreq, hp⟩ := of_decide_eq_true hp
  obtain ⟨t, ht, hp⟩ := (Option.any_eq_true ..).1 hp
  obtain ⟨u, hu, hp⟩ := (Option.any_eq_true ..).1 hp
  obtain ⟨hdone, hw, hret, hlength⟩ := of_decide_eq_true hp
  have hr : Run "/repo" (Timely "/repo") s :=
    Run.init.exec (fun a ha => timely_of_not_store fun i h => by subst h; simp [overflow] at ha) hs
  have hr := hr.step (.store 64) (fun _ _ => .inr (.inl hreq)) ht
  have hr := hr.exec (fun a ha => timely_of_not_store fun i h => by subst h; simp at ha) hu
  exact ⟨u, hr, hlength, (directory_scans_kept "/repo").1 u hr ⟨hret, hdone, hw⟩⟩

/-- Before the flag is stored, the worker has served all the others. -/
def lateFlag : List Act := overflow ++ List.replicate (5 * directoryScanQueueSize + 1) .worker ++ [.store 64]

theorem directory_scan_lost : ∃ s, Run "/repo" (fun _ _ => True) s ∧ s.Quiet ∧ ∃ c ∈ s.calls,
    c.covered = false := by
  have hexec : (exec "/repo" lateFlag .init).any (fun s => s.requests = [] ∧ s.worker = .wait ∧
      (∀ c ∈ s.calls, c.phase = .returned) ∧ ∃ c ∈ s.calls, c.covered = false) = true := by decide +kernel
  obtain ⟨s, hs, hp⟩ := (Option.any_eq_true ..).1 hexec
  obtain ⟨hreq, hw, hret, hlost⟩ := of_decide_eq_true hp
  exact ⟨s, Run.init.exec (fun _ _ _ => trivial) hs, ⟨hret, hreq, hw⟩, hlost⟩

end Renop.DirectoryScan
