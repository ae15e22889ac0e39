import Renop.ClickHouseDurable

/-!
# Atomic commits in a run

A run whose commits meet at most one failing `Exec` each, and whose rollbacks meet none, may crash
anywhere and start from any database. In every state of it in which a transaction can begin the journal
is empty (`run_ready`): a recovery that returns has emptied it, and so has a commit or a rollback that
does not crash. So the journal rows that a transaction meets are its own, and its commit is atomic
exactly when its statements change at most one table (`commit_atomic_iff`).
-/

namespace Renop.ClickHouse
open Crash Prog Backend

variable {Row : Type} {mutationKeys : MutationKeys Row}

/-! ### A recovery from any database -/

theorem restoreSnapshot_deletes (id table snapshot : String) :
    Spec Sched.any (fun _ => True) (fun _ : Backend Row => True) (restoreSnapshot id table snapshot)
      (fun _ s => ∀ j ∈ s.journal, ¬ (j.transactionId = id ∧ j.tableName = table)) := by
  have hany : Sched.any.mayFail := ⟨[], trivial⟩
  have hexec : ∀ f : Backend Row → Backend Row, Spec Sched.any (fun _ => True) (fun _ => True) (connExec f)
      (fun _ _ => True) := fun f => connExec_spec (fun _ hs => hs) fun _ hs => hs
  have hjournal : Spec Sched.any (fun _ => True) (fun _ : Backend Row => True)
      (connExec (Backend.deleteJournal id table))
      (fun _ s => ∀ j ∈ s.journal, ¬ (j.transactionId = id ∧ j.tableName = table)) :=
    connExec_spec (fun _ hs => hs) fun _ _ j hj => (mem_deleteJournal.1 hj).2
  have hinsert : Spec Sched.any (fun _ => True) (fun _ : Backend Row => True)
      (connTry (Backend.insertSnapshot table snapshot)) (fun _ _ => True) := by
    refine Spec.step_or (fun _ hs => hs) fun s hs => ?_
    unfold Backend.insertSnapshot
    cases s.snapshot? snapshot with
    | none => exact .inr ⟨hany, _, rfl⟩
    | some rows => exact .inl ⟨(), _, rfl, hs⟩
  unfold restoreSnapshot
  split_ifs
  swap
  · exact Spec.throw _ fun _ hs => ⟨hs, hany⟩
  refine Spec.bind (Q := fun _ _ => True) (connQuery_spec (fun _ hs => hs) fun _ hs => hs) fun b => ?_
  cases b with
  | false =>
    exact Spec.bind (hexec _) fun _ => Spec.bind hjournal fun _ => Spec.pure () fun _ hs => hs
  | true =>
    refine Spec.bind (Spec.mapError (hexec _)) fun _ => Spec.bind (Spec.mapError hinsert) fun _ =>
      Spec.bind (hexec _) fun _ => Spec.bind hjournal fun _ => Spec.mapError ?_
    exact connExec_spec (fun _ _ => trivial) fun _ hs => hs

theorem recoverTransactions_empties (scan : Scan) :
    Spec Sched.any (fun _ => True) (fun _ : Backend Row => True) (recoverTransactions scan)
      (fun _ s => s.journal = []) := by
  refine Spec.bind (Q := fun entries s => ∀ j ∈ s.journal, j ∈ entries)
    (connQuery_spec (fun _ hs => hs) fun s _ j hj => (scan.entries_perm _).symm.subset hj) fun entries => ?_
  have hentries : Spec Sched.any (fun _ => True) (fun s : Backend Row => ∀ j ∈ s.journal, j ∈ entries)
      (Prog.forEach entries fun j => restoreSnapshot j.transactionId j.tableName j.snapshotName)
      (fun _ s => ∀ j ∈ s.journal, j ∈ ([] : List JournalRow)) := by
    refine Spec.forEach (R := fun left (s : Backend Row) => ∀ j ∈ s.journal, j ∈ left) (fun e left => ?_) entries
    refine Spec.of_state fun s₀ hs₀ => ?_
    have hshrinks : ∀ s fs, s = s₀ → Shrinks s₀ (restoreSnapshot e.transactionId e.tableName e.snapshotName s
        fs).state := by
      rintro s fs rfl
      exact restoreSnapshot_shrinks _ _ _ s fs
    refine (((restoreSnapshot_deletes _ _ _).and_state hshrinks).weaken fun _ _ => trivial).conseq
      (fun _ hs => ⟨trivial, hs⟩) fun _ s hs j hj => ?_
    · refine (List.mem_cons.1 (hs₀ j (hs.2.journal j hj))).resolve_left ?_
      rintro rfl
      exact hs.1 j hj ⟨rfl, rfl⟩
  refine Spec.bind hentries fun _ => ?_
  have hempty : ∀ s : Backend Row, (∀ j ∈ s.journal, j ∈ ([] : List JournalRow)) → s.journal = [] := fun s h =>
    List.eq_nil_iff_forall_not_mem.2 fun j hj => List.not_mem_nil (h j hj)
  refine Spec.bind (Q := fun _ s => s.journal = []) ?_ fun _ =>
    Spec.mapError (connExec_spec (fun _ _ => trivial) fun _ hs => hs)
  refine Spec.bind (Q := fun _ s => s.journal = []) (connQuery_spec (fun _ _ => trivial) hempty) fun names => ?_
  refine Spec.forEach (R := fun _ (s : Backend Row) => s.journal = []) (fun name rest => ?_) names
  split_ifs
  · exact Spec.mapError (connExec_spec (fun _ _ => trivial) fun _ hs => hs)
  · exact Spec.pure () fun _ hs => hs

/-! ### Runs -/

/-- At most one `Exec` of a commit fails and none of a rollback; anything may crash. -/
def Event.OneFailure : Event Row → Prop
  | .commit _ _ fs => fs.count .fail ≤ 1
  | .rollback _ fs => Fault.fail ∉ fs
  | _ => True

namespace Server

/-- A process that is up has nothing in the journal but the rows of its open transaction. -/
def Ready (sv : Server Row) : Prop :=
  sv.up = true → match sv.backend.tx with
    | none => sv.backend.journal = []
    | some tx => ∃ base, Own base tx.id sv.backend

theorem Ready.closed {sv : Server Row} (hj : sv.backend.journal = []) (htx : sv.backend.tx = none) : sv.Ready := by
  intro _
  rw [htx]
  exact hj

theorem Ready.down {sv : Server Row} (h : sv.up = false) : sv.Ready := fun hup => by rw [h] at hup; cases hup

theorem Ready.opened {sv : Server Row} {base : String → Contents Row} {id : String} (h : Own base id sv.backend) :
    sv.Ready := by
  intro _
  have ⟨_, _, hT⟩ := h
  obtain ⟨tx, htx, rfl⟩ := hT.opened
  rw [htx]
  exact ⟨base, h⟩

theorem Ready.own {sv : Server Row} (h : sv.Ready) (hup : sv.up = true) {tx : Transaction}
    (htx : sv.backend.tx = some tx) : ∃ base, Own base tx.id sv.backend := by
  have := h hup
  rwa [htx] at this

theorem journal_of_spent {s s' : Backend Row} {id : String} (h : ∀ j ∈ s.journal, j.transactionId = id ∨ False)
    (hs : Shrinks s s') (hspent : Spent id s') : s'.journal = [] :=
  List.eq_nil_iff_forall_not_mem.2 fun j hj => hspent j hj ((h j (hs.journal j hj)).resolve_right not_false)

theorem commit_ready {sv : Server Row} (h : sv.Ready) (hup : sv.up = true) {tx : Transaction}
    (htx : sv.backend.tx = some tx) {order restoreOrder : List (String × String)} (hperm : order.Perm tx.snapshots)
    (hperm' : restoreOrder.Perm tx.snapshots) {fs : List Fault} (hfs : fs.count .fail ≤ 1) (c : String → Contents Row) :
    Ready (Server.after { sv with committed := c } (commit order restoreOrder sv.backend fs)) := by
  obtain ⟨base, ho, T, hT⟩ := h.own hup htx
  have hpart := commit_partial ho htx hperm hperm' hfs
  have hshr : Shrinks sv.backend (commit order restoreOrder sv.backend fs).state := by
    rw [commit_eq htx]
    exact deferFinish_shrinks (commitTables_shrinks _ _ _) _ _
  revert hpart hshr
  rcases commit order restoreOrder sv.backend fs with ⟨r, s, fs'⟩ | s
  · rintro ⟨-, hspent, hnone⟩ hshr
    have hclosed : Server.Ready ⟨s, sv.up, c⟩ := .closed (journal_of_spent hT.foreign hshr hspent) hnone
    exact hclosed
  · exact fun _ _ => .down rfl

theorem rollback_ready {sv : Server Row} (h : sv.Ready) (hup : sv.up = true) {order : List (String × String)}
    (hl : ∀ tx, sv.backend.tx = some tx → order.Perm tx.snapshots) {fs : List Fault} (hfs : Fault.fail ∉ fs) :
    (sv.after (rollback order sv.backend fs)).Ready := by
  cases htx : sv.backend.tx with
  | none => rw [rollback_none htx]; exact h
  | some tx =>
    obtain ⟨base, ho, T, hT⟩ := h.own hup htx
    have hroll := rollback_spec (A := Sched.crashOnly) (J := fun _ => False) (hl tx htx) sv.backend fs
      ⟨⟨ho, htx, hT.foreign⟩, hfs⟩
    have hclosed := deferFinish_closed (restoreSnapshots tx.id order none) sv.backend fs
    rw [rollback_eq htx] at hroll ⊢
    revert hroll hclosed
    rcases deferFinish (restoreSnapshots tx.id order none) sv.backend fs with ⟨_ | _, s, fs'⟩ | s
    · exact fun hroll _ => absurd hroll.2.2 Sched.not_mayFail_crashOnly
    · exact fun hroll hclosed => .closed (List.eq_nil_iff_forall_not_mem.2 hroll.1.2) hclosed
    · exact fun _ _ => .down rfl

theorem exec_ready (hcov : mutationKeys.Covers) {sv : Server Row} (h : sv.Ready) (hup : sv.up = true)
    {st : Statement Row} (hsnap : snapshotted st.table = true) (fs : List Fault) :
    (sv.after (exec mutationKeys st sv.backend fs)).Ready := by
  cases htx : sv.backend.tx with
  | none =>
    have : exec mutationKeys st sv.backend fs = .done (.error .txDone) sv.backend fs := by
      unfold exec
      simp only [bind_eq, Prog.bind, Prog.read, htx, Prog.throw]
    rw [this]; exact h
  | some tx =>
    obtain ⟨base, ho⟩ := h.own hup htx
    have hexec := Spec.run_state (exec_own hcov st hsnap) (fun _ _ hs => hs) ho fs
    revert hexec
    rcases exec mutationKeys st sv.backend fs with ⟨r, s, fs'⟩ | s
    · exact fun ho => (.opened ho : Server.Ready ⟨s, sv.up, sv.committed⟩)
    · exact fun _ => .down rfl

theorem step_ready (hcov : mutationKeys.Covers) {sv : Server Row} {e : Event Row} (h : sv.Ready) (hl : sv.Legal e)
    (hf : e.OneFailure) : (sv.step mutationKeys e).Ready := by
  cases e with
  | begin id =>
    simp only [step]
    split_ifs with hc
    · have hj := h hc.1
      rw [hc.2] at hj
      exact .opened (begin_own hj hl.1 hl.2.1)
    · exact h
  | exec st fs =>
    simp only [step]
    split_ifs with hup
    exacts [exec_ready hcov h hup hl fs, h]
  | rollback order fs =>
    simp only [step]
    split_ifs with hup
    exacts [rollback_ready h hup hl hf, h]
  | commit order restoreOrder fs =>
    simp only [step]
    split
    · rename_i tx hup htx
      split_ifs
      exacts [commit_ready h hup htx (hl tx htx).1 (hl tx htx).2 hf _,
        commit_ready h hup htx (hl tx htx).1 (hl tx htx).2 hf sv.committed]
    · exact h
  | restart scan fs =>
    have hr := recoverTransactions_empties scan sv.backend.lost fs ⟨trivial, trivial⟩
    simp only [step]
    revert hr
    rcases recoverTransactions scan sv.backend.lost fs with ⟨_ | _, s, fs'⟩ | s
    exacts [fun _ => .down rfl, fun hr => .closed hr.1 rfl, fun _ => .down rfl]

theorem run_ready (hcov : mutationKeys.Covers) (events : List (Event Row)) {sv : Server Row} (h : sv.Ready)
    (hl : Along mutationKeys (fun sv e => sv.Legal e ∧ e.OneFailure) sv events) : (sv.run mutationKeys events).Ready := by
  induction events generalizing sv with
  | nil => exact h
  | cons e events ih => exact ih (step_ready hcov h hl.1.1 hl.1.2) hl.2

end Server

/-- A transaction that begins in a run whose commits met at most one failing `Exec` each, and whose
rollbacks met none: its `commit` is atomic under a crash anywhere and a failing `Exec` anywhere, whatever
the order in which the maps are walked, exactly when its statements change at most one table. -/
theorem commit_atomic_iff (hcov : mutationKeys.Covers) (s₀ : Backend Row) (events : List (Event Row))
    (sv : Server Row) (hsv : sv = Server.run mutationKeys ⟨s₀, false, s₀.tables⟩ events)
    (hl : Server.Along mutationKeys (fun sv e => sv.Legal e ∧ e.OneFailure) ⟨s₀, false, s₀.tables⟩ events)
    (hup : sv.up = true) (htx : sv.backend.tx = none) (id : String) (hid : sv.Legal (.begin id))
    (sts : List (Statement Row)) (hsnap : ∀ st ∈ sts, snapshotted st.table = true) (fs fs₁ : List Fault)
    (s₁ : Backend Row) (hrun : Prog.forEach sts (exec mutationKeys) (begin id sv.backend) fs = .done (.ok ()) s₁ fs₁) :
    (∀ tx, s₁.tx = some tx → ∀ order restoreOrder, order.Perm tx.snapshots → restoreOrder.Perm tx.snapshots →
      ∀ gs, gs.count .fail ≤ 1 → ∀ attempts scan,
        ∃ s', recoverTransactions scan (recoverInterrupted attempts (commit order restoreOrder s₁ gs).state.lost) [] =
            .done (.ok ()) s' [] ∧
          (s'.tables = sv.backend.tables ∨ s'.tables = appliedAll sts sv.backend.tables)) ↔
    ∀ t t', appliedAll sts sv.backend.tables t ≠ sv.backend.tables t →
      appliedAll sts sv.backend.tables t' ≠ sv.backend.tables t' → t = t' := by
  have hready : sv.Ready := by rw [hsv]; exact Server.run_ready hcov events (.down rfl) hl
  have hj := hready hup
  rw [htx] at hj
  exact atomic_of_empty hcov sv.backend hj id hid.1 hid.2.1 sts hsnap fs fs₁ s₁ hrun

/-- A process starts, and a commit of two tables meets a failing journal delete. -/
def failedCommit : List (Event Nat) :=
  [.restart .stored [], .begin "f1", .exec (.insert "files" [("a", 1)]) [], .exec (.insert "users" [("b", 2)]) [],
    .commit [("users", "_renop_tx_f1_1"), ("files", "_renop_tx_f1_0")]
      [("files", "_renop_tx_f1_0"), ("users", "_renop_tx_f1_1")] [.fail]]

/-- The next transaction writes one table; its journal row is deleted or not, whatever fails. -/
theorem commit_atomic_one_table :
    ∃ sv s₁ tx, sv = Server.run insertKeys ⟨emptyBackend, false, emptyBackend.tables⟩ failedCommit ∧
      Prog.forEach [.insert "files" [("a", 1)]] (exec insertKeys) (begin "f00d" sv.backend) [] = .done (.ok ()) s₁ [] ∧
      s₁.tx = some tx ∧
      ∃ s', recoverTransactions .stored (recoverInterrupted [(.stored, [.ok, .crash])]
          (commit tx.snapshots tx.snapshots s₁ [.fail, .ok, .crash]).state.lost) [] = .done (.ok ()) s' [] ∧
        (s'.tables = sv.backend.tables ∨ s'.tables = appliedAll [.insert "files" [("a", 1)]] sv.backend.tables) := by
  refine ⟨_, _, _, rfl, rfl, rfl, ?_⟩
  have hl : Server.Along insertKeys (fun sv e => sv.Legal e ∧ e.OneFailure)
      ⟨emptyBackend, false, emptyBackend.tables⟩ failedCommit := by
    refine ⟨⟨trivial, trivial⟩, ⟨⟨by decide, by decide, by decide⟩, trivial⟩, ⟨rfl, trivial⟩,
      ⟨rfl, trivial⟩, ⟨fun tx htx => ?_, show _ ≤ 1 by decide⟩, trivial⟩
    obtain rfl := Option.some.inj htx
    decide
  refine (commit_atomic_iff insertKeys_covers emptyBackend failedCommit _ rfl hl rfl rfl "f00d"
    ⟨by decide, by decide, by decide⟩ [.insert "files" [("a", 1)]] (by decide) [] [] _ rfl).2 ?_ _ rfl _ _
    (List.Perm.refl _) (List.Perm.refl _) [.fail, .ok, .crash] (by decide) [(.stored, [.ok, .crash])] .stored
  have hfiles : ∀ T t, appliedAll [.insert "files" [("a", (1 : Nat))]] T t ≠ T t → t = "files" := by
    intro T t ht
    by_contra hne
    exact ht (if_neg hne)
  exact fun t t' ht ht' => (hfiles _ t ht).trans (hfiles _ t' ht').symm

/-- The journal row of `files` is deleted, then the process crashes: recovery keeps the new rows of
`files` and takes back those of `users`. -/
theorem commit_mixes_tables :
    ∃ s₁ tx s', Prog.forEach twoTables (exec insertKeys) (begin "f00d" emptyBackend) [] = .done (.ok ()) s₁ [] ∧
      s₁.tx = some tx ∧ [("files", "_renop_tx_f00d_0"), ("users", "_renop_tx_f00d_1")].Perm tx.snapshots ∧
      recoverTransactions .stored (commit [("files", "_renop_tx_f00d_0"), ("users", "_renop_tx_f00d_1")]
        [("files", "_renop_tx_f00d_0"), ("users", "_renop_tx_f00d_1")] s₁ [.ok, .crash]).state.lost [] =
          .done (.ok ()) s' [] ∧
      ¬ (s'.tables = emptyBackend.tables ∨ s'.tables = appliedAll twoTables emptyBackend.tables) := by
  refine ⟨_, _, _, rfl, rfl, by decide, rfl, ?_⟩
  rintro (h | h)
  · have := congrFun (congrFun h "files") "a"
    revert this; decide
  · have := congrFun (congrFun h "users") "b"
    revert this; decide

end Renop.ClickHouse
