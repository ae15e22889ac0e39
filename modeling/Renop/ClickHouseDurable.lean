import Renop.ClickHouseCommit

/-!
# Runs of transactions on one server

A `Server` is the durable backend, whether a process is up, and (for the specification only) the
rows that the successful commits have left. The lock of the backend admits one open transaction; any
`Exec` may fail, so a rollback or a commit may leave its journal rows behind, and a restart runs
`recoverTransactions`.

`finish` unlocks the backend also after a failed restore. A later transaction may then write a row
that an old journal row still answers for, and the next restart takes its commit back
(`recovery_reverts_commit`). As long as no transaction touches such a row and no commit is interrupted
half way, recovery always ends with exactly the committed rows (`recovery_keeps_commits`).
-/

namespace Renop.ClickHouse
open Crash Prog Backend

variable {Row : Type} {base : String → Contents Row} {mutationKeys : MutationKeys Row}

/-! ### Commits that are not interrupted, or at once -/

/-- The verdicts of the three statements for each of `n` tables: no crash, no failing journal delete. -/
def Uninterrupted (n : Nat) (fs : List Fault) : Prop :=
  ∀ i < 3 * n, fs[i]? ≠ some .crash ∧ (i % 3 = 0 → fs[i]? ≠ some .fail)

theorem Uninterrupted.cons {n : Nat} {fs : List Fault} (h : Uninterrupted (n + 1) fs) :
    fs.head? ≠ some .fail ∧ fs.head? ≠ some .crash ∧ fs.tail.head? ≠ some .crash ∧
      fs.tail.tail.head? ≠ some .crash ∧ Uninterrupted n fs.tail.tail.tail := by
  have h0 := h 0 (by omega)
  have h1 := h 1 (by omega)
  have h2 := h 2 (by omega)
  simp only [List.head?_eq_getElem?, List.getElem?_tail]
  refine ⟨h0.2 rfl, h0.1, h1.1, h2.1, fun i hi => ?_⟩
  have h3 := h (i + 3) (by omega)
  simp only [List.getElem?_tail]
  exact ⟨h3.1, fun hm => h3.2 (by omega)⟩

section Commit
variable {s₀ : Backend Row} {tx : Transaction} {restoreOrder : List (String × String)}

/-- An uninterrupted loop commits every table and returns. -/
theorem commitTables_uninterrupted {id : String} (order : List (String × String)) (C : List String) :
    Triple (fun s fs => Committing base s₀ id C order s ∧ Uninterrupted order.length fs)
      (commitTables id restoreOrder order)
      (fun _ s _ => ∃ C', (∀ t, t ∈ C ∨ (∃ p ∈ order, p.1 = t) → t ∈ C') ∧ Committing base s₀ id C' [] s)
      (fun _ _ _ => False) (fun _ => False) := by
  induction order generalizing C with
  | nil =>
    refine Triple.pure () fun s _ hs => ⟨C, ?_, hs.1⟩
    rintro t (ht | ⟨p, hp, -⟩)
    exacts [ht, absurd hp List.not_mem_nil]
  | cons p order ih =>
    refine Triple.bind (Q := fun r s fs => r = .ok () ∧ Committing base s₀ id (p.1 :: C) order s ∧
        (∀ j ∈ s.journal, j.snapshotName ≠ p.2) ∧ (∀ q ∈ order, q.1 ≠ p.1) ∧
        fs.head? ≠ some .crash ∧ fs.tail.head? ≠ some .crash ∧ Uninterrupted order.length fs.tail.tail)
      (Triple.attempt_step ?_ ?_ ?_) ?_
    · rintro s fs ⟨hc, hu⟩ - -
      exact ⟨rfl, hc.deleteJournal, hc.unnamed, fun q hq => hc.head_ne hq, hu.cons.2.2⟩
    · exact fun s fs hs => absurd rfl hs.2.cons.1
    · exact fun s fs hs => absurd rfl hs.2.cons.2.1
    rintro (e | _)
    · exact fun s fs hs => by cases hs.1
    refine Triple.bind (Q := fun _ s fs => Committing base s₀ id (p.1 :: C) order s ∧
        (∀ j ∈ s.journal, j.snapshotName ≠ p.2) ∧ fs.head? ≠ some .crash ∧ Uninterrupted order.length fs.tail)
      (Triple.attempt_step ?_ ?_ ?_) fun _ => ?_
    · rintro s fs ⟨-, hc, hn, hne, -, hu⟩ - -
      exact ⟨hc.deleteKeys (List.mem_cons_self ..) hne, hn, hu⟩
    · rintro s fs ⟨-, hc, hn, -, -, hu⟩
      exact ⟨hc, hn, hu⟩
    · exact fun s fs hs => hs.2.2.2.2.1 rfl
    refine Triple.bind (Q := fun _ s fs => Committing base s₀ id (p.1 :: C) order s ∧ Uninterrupted order.length fs)
      (Triple.attempt_step ?_ ?_ ?_) fun _ => (ih (p.1 :: C)).conseq (fun _ _ hs => hs) ?_ (fun _ _ _ hs => hs)
      fun _ hs => hs
    · rintro s fs ⟨hc, hn, -, hu⟩ - -
      exact ⟨hc.dropSnapshot hn, hu⟩
    · rintro s fs ⟨hc, hn, -, hu⟩
      exact ⟨hc, hu⟩
    · exact fun s fs hs => hs.2.2.1 rfl
    · rintro _ s fs ⟨C', hC', hc⟩
      refine ⟨C', fun t ht => hC' t ?_, hc⟩
      rcases ht with ht | ⟨q, hq, rfl⟩
      · exact .inl (List.mem_cons_of_mem _ ht)
      rcases List.mem_cons.1 hq with rfl | hq
      exacts [.inl (List.mem_cons_self ..), .inr ⟨q, hq, rfl⟩]

theorem commitTables_first (p : String × String) (order : List (String × String)) (hnd : restoreOrder.Nodup) :
    Triple (fun s fs => Pending base tx.id (fun j => j.transactionId ≠ tx.id) restoreOrder none s ∧
        (fs.head? = some .fail ∨ fs.head? = some .crash))
      (commitTables tx.id restoreOrder (p :: order)) (fun _ _ _ => False) (fun _ s _ => s.Inv base) (Inv base) := by
  refine Triple.bind (Q := fun r s _ => r = .error .exec ∧
      Pending base tx.id (fun j => j.transactionId ≠ tx.id) restoreOrder none s)
    (Triple.attempt_step ?_ ?_ ?_) ?_
  · exact fun s fs hs h1 h2 => absurd hs.2 (by simp [h1, h2])
  · exact fun s fs hs => ⟨rfl, hs.1⟩
  · exact fun s fs hs => hs.1.inv
  rintro (e | _)
  swap
  · exact fun s fs hs => by cases hs.1
  have hrest : Triple (fun s _ => Pending base tx.id (fun j => j.transactionId ≠ tx.id) restoreOrder none s)
      (restoreSnapshots tx.id restoreOrder none) (fun _ s _ => s.Inv base) (fun _ s _ => s.Inv base) (Inv base) :=
    Triple.conseq (restoreSnapshots_spec (A := Sched.any) restoreOrder none hnd (by simp))
      (fun s _ hs => ⟨hs, trivial⟩) (fun _ s _ hs => hs.1.1) (fun _ s _ hs => hs.1) fun s hs => hs.1
  refine Triple.bind ((Triple.attempt hrest).conseq (fun s fs hs => hs.2) (fun _ _ _ hs => hs) (fun _ _ _ hs => hs)
    fun _ hs => hs) ?_
  rintro (_ | _) s fs hs <;> exact hs

end Commit

/-! ### The server -/

structure Server (Row : Type) where
  backend : Backend Row
  /-- A process runs: its start has recovered the journal. -/
  up : Bool
  /-- Specification only: the rows left by the commits that returned `nil`. -/
  committed : String → Contents Row

inductive Event (Row : Type)
  | begin (id : String)
  | exec (st : Statement Row) (fs : List Fault)
  | commit (order restoreOrder : List (String × String)) (fs : List Fault)
  | rollback (order : List (String × String)) (fs : List Fault)
  /-- The process, if there is one, is gone; a new one starts and recovers. -/
  | restart (scan : Scan) (fs : List Fault)

namespace Server

/-- The outcome of a call: after a crash no process is up. -/
def after (sv : Server Row) (r : Outcome (Backend Row) ClickHouseError Unit) : Server Row :=
  match r with
  | .done _ s _ => { sv with backend := s }
  | .crashed s => { sv with backend := s.lost, up := false }

/-- The rows under the keys that transaction `id` has recorded are now the committed ones. -/
def record (sv : Server Row) (id : String) : Server Row :=
  { sv with committed := fun t k =>
      if ⟨id, t, k⟩ ∈ sv.backend.keys then sv.backend.tables t k else sv.committed t k }

def step (mutationKeys : MutationKeys Row) (sv : Server Row) : Event Row → Server Row
  | .begin id => if sv.up ∧ sv.backend.tx = none then { sv with backend := begin id sv.backend } else sv
  | .exec st fs => if sv.up then sv.after (exec mutationKeys st sv.backend fs) else sv
  | .rollback order fs => if sv.up then sv.after (rollback order sv.backend fs) else sv
  | .commit order restoreOrder fs =>
    match sv.up, sv.backend.tx with
    | true, some tx =>
      let r := commit order restoreOrder sv.backend fs
      if r.succeeded then (sv.record tx.id).after r else sv.after r
    | _, _ => sv
  | .restart scan fs =>
    let r := recoverTransactions scan sv.backend.lost fs
    { sv with backend := r.state.lost, up := r.succeeded }

def run (mutationKeys : MutationKeys Row) (sv : Server Row) (events : List (Event Row)) : Server Row :=
  events.foldl (step mutationKeys) sv

/-- What the environment promises: ids are new (`uuid.NewString`), the two loops walk the map of
snapshots, statements are on user tables. -/
def Legal (sv : Server Row) : Event Row → Prop
  | .begin id => validClickHouseIdentifier id = true ∧ (∀ k ∈ sv.backend.keys, k.transactionId ≠ id) ∧
      ∀ j ∈ sv.backend.journal, j.transactionId ≠ id
  | .exec st _ => snapshotted st.table = true
  | .commit order restoreOrder _ => ∀ tx, sv.backend.tx = some tx →
      order.Perm tx.snapshots ∧ restoreOrder.Perm tx.snapshots
  | .rollback order _ => ∀ tx, sv.backend.tx = some tx → order.Perm tx.snapshots
  | .restart .. => True

/-- A statement touches no row that a journal row of another transaction still answers for, and a
commit is stopped at its first journal delete or not at all. -/
def Unhurt (mutationKeys : MutationKeys Row) (sv : Server Row) : Event Row → Prop
  | .exec st _ => Clear mutationKeys st sv.backend
  | .commit _ _ fs => ∀ tx, sv.backend.tx = some tx →
      fs.head? = some .fail ∨ fs.head? = some .crash ∨ Uninterrupted tx.snapshots.length fs
  | _ => True

/-- `P` holds at every event of the run. -/
def Along (mutationKeys : MutationKeys Row) (P : Server Row → Event Row → Prop) : Server Row → List (Event Row) → Prop
  | _, [] => True
  | sv, e :: events => P sv e ∧ Along mutationKeys P (step mutationKeys sv e) events

/-- The committed rows are recoverable. -/
def Sound (sv : Server Row) : Prop := Open sv.committed sv.backend

end Server

theorem Open.closed {s : Backend Row} (h : s.Inv base) (htx : s.tx = none) : Open base s :=
  ⟨h, fun tx h => by rw [htx] at h; cases h⟩

theorem Open.lost {s : Backend Row} (h : s.Inv base) : Open base s.lost := .closed h.lost rfl

theorem Open.begin {s : Backend Row} (h : Open base s) {id : String} (hid : validClickHouseIdentifier id = true)
    (hk : ∀ k ∈ s.keys, k.transactionId ≠ id) (hj : ∀ j ∈ s.journal, j.transactionId ≠ id) :
    Open base (begin id s) := by
  refine ⟨h.1.congr rfl rfl rfl fun _ _ => rfl, fun tx htx => ?_⟩
  obtain rfl := Option.some.inj htx
  exact ⟨fun p hp => absurd hp List.not_mem_nil, fun j hj' he => absurd he (hj j hj'),
    fun k hk' he => absurd he (hk k hk'), hid, List.nodup_nil⟩

/-- A commit that returns has made its rows the base of recovery, one that does not has left it alone. -/
theorem commit_unhurt {s : Backend Row} {tx : Transaction} (ho : Open base s) (htx : s.tx = some tx)
    {order restoreOrder : List (String × String)} (hperm : order.Perm tx.snapshots)
    (hperm' : restoreOrder.Perm tx.snapshots) {fs : List Fault}
    (hfs : fs.head? = some .fail ∨ fs.head? = some .crash ∨ Uninterrupted tx.snapshots.length fs) :
    match commit order restoreOrder s fs with
    | .done (.ok _) s' _ => s'.Inv (fun t k => if ⟨tx.id, t, k⟩ ∈ s.keys then s.tables t k else base t k) ∧
      s'.tx = none
    | .done (.error _) s' _ => s'.Inv base ∧ s'.tx = none
    | .crashed s' => s'.Inv base := by
  have htxi := ho.2 tx htx
  rw [commit_eq htx]
  by_cases hu : Uninterrupted tx.snapshots.length fs
  · rw [← hperm.length_eq] at hu
    have h := deferFinish_triple (@commitTables_uninterrupted _ _ _ restoreOrder _ order [])
      s fs ⟨.start ho htx hperm, hu⟩
    revert h
    rcases deferFinish (commitTables tx.id restoreOrder order) s fs with ⟨_ | _, s', fs'⟩ | s'
    · exact fun ⟨_, h, _⟩ => h.elim
    · rintro ⟨s', ⟨C, hC, hc⟩, rfl⟩
      have hbase : partly base s tx.id C =
          fun t k => if ⟨tx.id, t, k⟩ ∈ s.keys then s.tables t k else base t k := by
        funext t k
        refine if_congr (and_iff_right_of_imp fun hk => hC t (.inr ?_)) rfl rfl
        obtain ⟨snapshot, hs⟩ := htxi.ofKeys _ hk rfl
        exact ⟨_, hperm.symm.subset hs, rfl⟩
      rw [← hbase]
      exact ⟨hc.inv.lost, rfl⟩
    · exact fun h => h.elim
  · -- the commit has at least one table, and its first journal delete is the step that stops it
    have hnd : restoreOrder.Nodup := (hperm'.nodup_iff).2 (List.Nodup.of_map _ htxi.nodup)
    have hpend : Pending base tx.id (fun j => j.transactionId ≠ tx.id) restoreOrder none s :=
      .start ho htx hperm' fun j _ => Decidable.em _
    cases order with
    | nil =>
      rw [← hperm.length_eq] at hu
      exact absurd (fun i hi => absurd hi (by simp)) hu
    | cons p order =>
      have h := deferFinish_triple (@commitTables_first _ base tx _ p order hnd)
        s fs ⟨hpend, hfs.imp_right fun h => h.resolve_right hu⟩
      revert h
      rcases deferFinish (commitTables tx.id restoreOrder (p :: order)) s fs with ⟨_ | _, s', fs'⟩ | s'
      · rintro ⟨s', hs', rfl⟩; exact ⟨hs'.lost, rfl⟩
      · exact fun ⟨_, h, _⟩ => h.elim
      · exact fun h => h

namespace Server

theorem Sound.after {sv : Server Row} {r : Outcome (Backend Row) ClickHouseError Unit}
    (h : Open sv.committed r.state) : (sv.after r).Sound := by
  cases r with
  | done r s fs => exact h
  | crashed s => exact Open.lost h.1

theorem Sound.closed {sv : Server Row} {m : TxM Row Unit} {fs : List Fault}
    (h : (deferFinish m sv.backend fs).state.Inv sv.committed) : (sv.after (deferFinish m sv.backend fs)).Sound := by
  have hclosed := deferFinish_closed m sv.backend fs
  revert h hclosed
  rcases deferFinish m sv.backend fs with ⟨r, s, fs'⟩ | s
  exacts [fun h htx => Open.closed h htx, fun h _ => Open.lost h]

theorem rollback_sound {sv : Server Row} (h : sv.Sound) {order : List (String × String)}
    (hl : ∀ tx, sv.backend.tx = some tx → order.Perm tx.snapshots) (fs : List Fault) :
    (sv.after (rollback order sv.backend fs)).Sound := by
  cases htx : sv.backend.tx with
  | none => rw [rollback_none htx]; exact h
  | some tx =>
    have hinv : (rollback order sv.backend fs).state.Inv sv.committed :=
      (rollback_spec (A := Sched.any) (J := fun j => j.transactionId ≠ tx.id) (hl tx htx)).run_state
        (fun _ _ hs => hs.1) ⟨h, htx, fun _ _ => Decidable.em _⟩ fs
    rw [rollback_eq htx] at hinv ⊢
    exact Sound.closed hinv

theorem step_sound (hcov : mutationKeys.Covers) {sv : Server Row} {e : Event Row} (h : sv.Sound) (hl : sv.Legal e)
    (hu : sv.Unhurt mutationKeys e) : (sv.step mutationKeys e).Sound := by
  cases e with
  | begin id =>
    simp only [step]
    split_ifs
    · exact Open.begin h hl.1 hl.2.1 hl.2.2
    · exact h
  | exec st fs =>
    simp only [step]
    split_ifs
    · exact Sound.after ((exec_spec hcov st hl).run_state (fun _ _ hs => hs) ⟨h, hu⟩ fs)
    · exact h
  | rollback order fs =>
    simp only [step]
    split_ifs
    · exact rollback_sound h hl fs
    · exact h
  | commit order restoreOrder fs =>
    simp only [step]
    split
    · rename_i tx hup htx
      have hc := commit_unhurt h htx (hl tx htx).1 (hl tx htx).2 (hu tx htx)
      revert hc
      rcases commit order restoreOrder sv.backend fs with ⟨_ | _, s', fs'⟩ | s'
      · exact fun hc => Open.closed (s := s') hc.1 hc.2
      · exact fun hc => Open.closed (s := s') hc.1 hc.2
      · exact fun hc => Open.lost (s := s') hc
    · exact h
  | restart scan fs =>
    have hr : (recoverTransactions scan sv.backend.lost fs).state.Inv sv.committed :=
      (recoverTransactions_spec scan).run_state (fun _ _ hs => hs.1) h.1.lost fs
    exact Open.lost hr

theorem run_sound (hcov : mutationKeys.Covers) (events : List (Event Row)) {sv : Server Row} (h : sv.Sound)
    (hl : Along mutationKeys Legal sv events) (hu : Along mutationKeys (Unhurt mutationKeys) sv events) :
    (sv.run mutationKeys events).Sound := by
  induction events generalizing sv with
  | nil => exact h
  | cons e events ih => exact ih (step_sound hcov h hl.1 hu.1) hl.2 hu.2

end Server

/-- In a run in which no statement touches a row that an old journal row answers for and no commit is
interrupted half way, a recovery that returns leaves exactly the committed rows; and one that meets no
fault returns, however many were interrupted before. -/
theorem recovery_keeps_commits (hcov : mutationKeys.Covers) (s : Backend Row) (hj : s.journal = [])
    (htx : s.tx = none) (events : List (Event Row)) (sv : Server Row)
    (hsv : sv = Server.run mutationKeys ⟨s, true, s.tables⟩ events)
    (hl : Server.Along mutationKeys Server.Legal ⟨s, true, s.tables⟩ events)
    (hu : Server.Along mutationKeys (Server.Unhurt mutationKeys) ⟨s, true, s.tables⟩ events) :
    (∀ scan fs s' fs', recoverTransactions scan sv.backend.lost fs = .done (.ok ()) s' fs' →
      s'.tables = sv.committed) ∧
    ∀ attempts scan, ∃ s', recoverTransactions scan (recoverInterrupted attempts sv.backend.lost) [] =
      .done (.ok ()) s' [] ∧ s'.tables = sv.committed := by
  have hinit : Server.Sound ⟨s, true, s.tables⟩ := Open.closed (Inv.init hj) htx
  have hs : sv.Sound := by rw [hsv]; exact Server.run_sound hcov events hinit hl hu
  refine ⟨fun scan fs s' fs' hrun => ?_, fun attempts scan => ?_⟩
  · have := recoverTransactions_spec (A := Sched.any) scan sv.backend.lost fs ⟨hs.1.lost, trivial⟩
    rw [hrun] at this
    exact this.1.2.2
  · obtain ⟨s', h1, -, h2⟩ := recover_base hs.1.lost attempts scan
    exact ⟨s', h1, h2⟩

/-- Three transactions: the first commits `a`, the rollback of the second fails, the third commits `b`. -/
def threeTransactions : List (Event Nat) :=
  [.begin "f1", .exec (.insert "files" [("a", 1)]) [],
    .commit [("files", "_renop_tx_f1_0")] [("files", "_renop_tx_f1_0")] [],
    .begin "f2", .exec (.insert "files" [("a", 2)]) [], .rollback [("files", "_renop_tx_f2_0")] [.ok, .ok, .fail],
    .begin "f3", .exec (.insert "files" [("b", 3)]) [],
    .commit [("files", "_renop_tx_f3_0")] [("files", "_renop_tx_f3_0")] []]

/-- The row of the failed rollback is not touched again, so the restart keeps both commits. -/
theorem recovery_keeps_commits_three :
    ∃ s', recoverTransactions .stored (Server.run insertKeys ⟨emptyBackend, true, emptyBackend.tables⟩
        threeTransactions).backend.lost [] = .done (.ok ()) s' [] ∧
      s'.tables "files" "a" = some 1 ∧ s'.tables "files" "b" = some 3 := by
  have hl : Server.Along insertKeys Server.Legal ⟨emptyBackend, true, emptyBackend.tables⟩ threeTransactions := by
    refine ⟨⟨by decide, by decide, by decide⟩, rfl, fun tx htx => ?_, ⟨by decide, by decide, by decide⟩, rfl,
      fun tx htx => ?_, ⟨by decide, by decide, by decide⟩, rfl, fun tx htx => ?_, trivial⟩
    all_goals
      obtain rfl := Option.some.inj htx
      decide
  have hu : Server.Along insertKeys (Server.Unhurt insertKeys) ⟨emptyBackend, true, emptyBackend.tables⟩
      threeTransactions := by
    refine ⟨trivial, ?_, fun _ _ => .inr (.inr fun i _ => by simp), trivial, ?_, trivial, trivial, ?_,
      fun _ _ => .inr (.inr fun i _ => by simp), trivial⟩
    · exact fun tx _ ks _ k _ j hj => absurd hj List.not_mem_nil
    · exact fun tx _ ks _ k _ j hj => absurd hj List.not_mem_nil
    · -- the journal row of `f2` answers for `a` only
      intro tx _ ks hks k hk j hj _ _
      obtain rfl := Except.ok.inj hks
      obtain rfl := List.mem_singleton.1 hk
      obtain rfl := List.mem_singleton.1 hj
      rintro (hk | ⟨rows, r, h1, h2⟩)
      · revert hk; decide
      · obtain rfl : [("a", 1)] = rows := Option.some.inj h1
        simp at h2
  obtain ⟨s', h1, h2⟩ := (recovery_keeps_commits insertKeys_covers emptyBackend rfl rfl _ _ rfl hl hu).2 [] .stored
  exact ⟨s', h1, by rw [h2]; rfl, by rw [h2]; rfl⟩

/-- A rollback fails, and the next transaction writes the same row. -/
def failedRollback : List (Event Nat) :=
  [.begin "f1", .exec (.insert "files" [("a", 1)]) [], .rollback [("files", "_renop_tx_f1_0")] [.fail],
    .begin "f2", .exec (.insert "files" [("a", 2)]) [],
    .commit [("files", "_renop_tx_f2_0")] [("files", "_renop_tx_f2_0")] []]

/-- The second commit has returned `nil`, and the restart puts its row back to what it was before the
first transaction. -/
theorem recovery_reverts_commit :
    Server.Along insertKeys Server.Legal ⟨emptyBackend, true, emptyBackend.tables⟩ failedRollback ∧
    (Server.run insertKeys ⟨emptyBackend, true, emptyBackend.tables⟩ failedRollback).committed "files" "a" = some 2 ∧
    ∃ s', recoverTransactions .stored
        (Server.run insertKeys ⟨emptyBackend, true, emptyBackend.tables⟩ failedRollback).backend.lost [] =
          .done (.ok ()) s' [] ∧ s'.tables "files" "a" = none := by
  refine ⟨?_, rfl, _, rfl, rfl⟩
  refine ⟨⟨by decide, by decide, by decide⟩, rfl, fun tx htx => ?_, ⟨by decide, by decide, by decide⟩, rfl,
    fun tx htx => ?_, trivial⟩
  all_goals
    obtain rfl := Option.some.inj htx
    decide

end Renop.ClickHouse
