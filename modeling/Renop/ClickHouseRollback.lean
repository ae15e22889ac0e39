import Mathlib.Data.List.Nodup
import Renop.ClickHouseExec

/-!
# Rolling a transaction back

`Framed id J T s`: the open transaction is `id`, the user tables are `T`, and every journal row is
one of the transaction or of `J`. A failed `exec` leaves `T`, a successful one applies its statement
(`exec_frame`). With no journal row but its own, a transaction never meets a row that another one
answers for, so `execAll` keeps the tables at `begin` recoverable (`execAll_own`).

`restoreSnapshots` goes on after an error, so a failed table keeps its journal row and the others
are restored; without faults nothing of the transaction is left.
-/

namespace Renop.ClickHouse
open Crash Prog Backend

variable {Row : Type} {A : Sched} {base : String → Contents Row} {mutationKeys : MutationKeys Row}

/-! ### The frame of `exec` -/

structure Framed (id : String) (J : JournalRow → Prop) (T : String → Contents Row) (s : Backend Row) : Prop where
  opened : ∃ tx, s.tx = some tx ∧ tx.id = id
  tables : s.tables = T
  foreign : ∀ j ∈ s.journal, j.transactionId = id ∨ J j

/-- The tables after a statement. -/
def applied (st : Statement Row) (T : String → Contents Row) : String → Contents Row :=
  fun t => if t = st.table then st.apply (T st.table) else T t

section Frame
variable {id : String} {J : JournalRow → Prop} {T : String → Contents Row}

theorem Framed.congr {s s' : Backend Row} (h : Framed id J T s) (htx : s'.tx = s.tx) (ht : s'.tables = s.tables)
    (hj : s'.journal = s.journal) : Framed id J T s' :=
  ⟨by rw [htx]; exact h.opened, by rw [ht]; exact h.tables, by rw [hj]; exact h.foreign⟩

theorem connExec_frame {f : Backend Row → Backend Row} (hf : ∀ s, (f s).tx = s.tx ∧ (f s).tables = s.tables ∧
    (f s).journal = s.journal) : Spec A (Framed id J T) (Framed id J T) (connExec f) (fun _ => Framed id J T) :=
  connExec_spec (fun _ hs => hs) fun s hs => hs.congr (hf s).1 (hf s).2.1 (hf s).2.2

theorem connQuery_frame {α : Type} (f : Backend Row → α) :
    Spec A (Framed id J T) (Framed id J T) (connQuery f) (fun _ => Framed id J T) :=
  connQuery_spec (fun _ hs => hs) fun _ hs => hs

theorem snapshotOf_frame (tx : Transaction) (htx : tx.id = id) (table : String) :
    Spec Sched.any (Framed id J T) (Framed id J T) (snapshotOf tx table) (fun _ => Framed id J T) := by
  have hany : Sched.any.mayFail := ⟨[], trivial⟩
  unfold snapshotOf
  cases tx.snapshots.lookup table with
  | some snapshot => exact Spec.pure _ fun _ hs => hs
  | none =>
    set snapshot := "_renop_tx_" ++ tx.id ++ "_" ++ toString tx.snapshots.length
    refine Spec.bind (Q := fun _ => Framed id J T) (Spec.mapError (Spec.step_or (fun _ hs => hs) fun s hs => ?_))
      fun _ => ?_
    · unfold Backend.createSnapshot
      cases s.snapshot? snapshot with
      | some rows => exact .inr ⟨hany, _, rfl⟩
      | none => exact .inl ⟨(), _, rfl, hs.congr rfl rfl rfl⟩
    have hins : Spec Sched.any (Framed id J T) (Framed id J T)
        (connExec (Backend.insertJournal ⟨tx.id, table, snapshot⟩)) (fun _ => Framed id J T) := by
      refine connExec_spec (fun _ hs => hs) fun s hs => ⟨hs.opened, hs.tables, fun j hj => ?_⟩
      rcases List.mem_cons.1 hj with rfl | hj
      · exact .inl htx
      · exact hs.foreign j (List.mem_filter.1 hj).1
    refine Spec.bind (hins.attempt fun _ hs => hs) ?_
    rintro (e | _)
    · have hdrop := @connExec_frame _ Sched.any id J T
        (Backend.dropSnapshot snapshot) fun s => ⟨rfl, rfl, rfl⟩
      refine Spec.bind (Q := fun _ => Framed id J T) ((hdrop.attempt fun _ hs => hs).conseq (fun s hs => hs.1) ?_)
        fun _ => Spec.throw _ fun s hs => ⟨hs, hany⟩
      rintro (_ | _) s hs
      exacts [hs.1, hs]
    · refine Spec.bind (Spec.modify (Q := fun _ => Framed id J T) fun s hs => ?_) fun _ => Spec.pure _ fun _ hs => hs
      exact ⟨⟨_, rfl, htx⟩, hs.tables, hs.foreign⟩

theorem saveKey_frame (id' table snapshot key : String) :
    Spec Sched.any (Framed id J T) (Framed id J T) (saveKey id' table snapshot key) (fun _ => Framed id J T) := by
  have hany : Sched.any.mayFail := ⟨[], trivial⟩
  refine Spec.bind (Spec.mapError (connQuery_frame _)) fun b => ?_
  cases b with
  | true => exact Spec.pure () fun _ hs => hs
  | false =>
    refine Spec.bind (Q := fun _ => Framed id J T) (Spec.mapError (Spec.step_or (fun _ hs => hs) fun s hs => ?_))
      fun _ => Spec.mapError (connExec_frame fun s => ⟨rfl, rfl, rfl⟩)
    unfold Backend.copyRow
    cases s.snapshot? snapshot with
    | none => exact .inr ⟨hany, _, rfl⟩
    | some rows => exact .inl ⟨(), _, rfl, hs.congr rfl rfl rfl⟩

theorem ensureSnapshot_frame (tx : Transaction) (htx : tx.id = id) (st : Statement Row) :
    Spec Sched.any (Framed id J T) (Framed id J T) (ensureSnapshot mutationKeys tx st) (fun _ => Framed id J T) := by
  have hany : Sched.any.mayFail := ⟨[], trivial⟩
  unfold ensureSnapshot
  split_ifs
  swap
  · exact Spec.throw _ fun s hs => ⟨hs, hany⟩
  refine Spec.bind (snapshotOf_frame tx htx _) fun snapshot => ?_
  refine Spec.bind (Q := fun _ => Framed id J T) ?_ fun ks =>
    Spec.forEach (R := fun _ => Framed id J T) (fun k _ => saveKey_frame _ _ _ k) ks
  have hstep : ∀ e, Spec Sched.any (Framed id J T) (Framed id J T) (Prog.step e fun s =>
      (mutationKeys st (s.tables st.table)).map fun ks => (ks, s)) (fun _ => Framed id J T) := by
    refine fun e => Spec.step_or (fun _ hs => hs) fun s hs => ?_
    cases mutationKeys st (s.tables st.table) with
    | error e' => exact .inr ⟨hany, e', rfl⟩
    | ok ks => exact .inl ⟨ks, s, rfl, hs⟩
  cases st with
  | insert table rows =>
    refine Spec.check fun s hs => ?_
    cases mutationKeys (.insert table rows) (s.tables _) with
    | error e => exact ⟨hs, hany⟩
    | ok ks => exact hs
  | alterUpdate table set cond => exact hstep _
  | deleteFrom table cond => exact hstep _

theorem execUnlocked_frame (st : Statement Row) :
    Spec Sched.any (Framed id J T) (Framed id J T) (execUnlocked st) (fun _ => Framed id J (applied st T)) := by
  refine Spec.bind (Q := fun _ => Framed id J T) ?_ fun _ => connExec_spec (fun _ hs => hs) fun s hs =>
    ⟨hs.opened, ?_, hs.foreign⟩
  · cases st with
    | insert table rows => exact Spec.pure () fun _ hs => hs
    | alterUpdate table set cond => exact connQuery_frame _
    | deleteFrom table cond => exact connQuery_frame _
  · obtain ⟨-, rfl, -⟩ := hs; rfl

theorem exec_frame (st : Statement Row) :
    Spec Sched.any (Framed id J T) (Framed id J T) (exec mutationKeys st)
      (fun _ => Framed id J (applied st T)) := by
  unfold exec
  rw [bind_eq]
  refine Spec.bind (Q := fun tx? s => tx? = s.tx ∧ Framed id J T s) (Spec.read fun s hs => ⟨rfl, hs⟩) fun tx? => ?_
  intro s fs hs
  obtain ⟨tx, htx, hid⟩ := hs.1.2.opened
  obtain rfl : tx? = some tx := hs.1.1.trans htx
  dsimp only
  by_cases hsnap : snapshotted st.table = true
  · simp only [if_pos hsnap]
    exact (Spec.bind (ensureSnapshot_frame tx hid st) fun _ => execUnlocked_frame st) s fs ⟨hs.1.2, hs.2⟩
  · simp only [if_neg hsnap]
    exact execUnlocked_frame st s fs ⟨hs.1.2, hs.2⟩

end Frame

/-! ### The statements of one transaction -/

/-- The open transaction `id` is the only one with journal rows. -/
def Own (base : String → Contents Row) (id : String) (s : Backend Row) : Prop :=
  Open base s ∧ ∃ T, Framed id (fun _ => False) T s

theorem Own.clear {id : String} {s : Backend Row} (h : Own base id s) (st : Statement Row) :
    Clear mutationKeys st s := by
  obtain ⟨-, T, ⟨tx, htx, hid⟩, -, hf⟩ := h
  intro tx' htx' ks _ k _ j hj _ hne
  obtain rfl : tx = tx' := Option.some.inj (htx.symm.trans htx')
  exact absurd ((hf j hj).elim (fun h => h.trans hid.symm) False.elim) hne

theorem begin_own {s : Backend Row} (hj : s.journal = []) {id : String} (hid : validClickHouseIdentifier id = true)
    (hfresh : ∀ k ∈ s.keys, k.transactionId ≠ id) : Own s.tables id (begin id s) := by
  refine ⟨⟨(Inv.init hj).congr rfl rfl rfl fun _ _ => rfl, fun tx htx => ?_⟩, s.tables,
    ⟨_, rfl, rfl⟩, rfl, fun j hj' => ?_⟩
  · obtain rfl := Option.some.inj htx
    refine ⟨fun p hp => absurd hp List.not_mem_nil, fun j hj' _ => ?_, fun k hk he => absurd he (hfresh k hk), hid, ?_⟩
    · rw [show (begin id s).journal = [] from hj] at hj'; exact absurd hj' List.not_mem_nil
    · exact List.nodup_nil
  · rw [show (begin id s).journal = [] from hj] at hj'; exact absurd hj' List.not_mem_nil

theorem exec_own (hcov : mutationKeys.Covers) {id : String} (st : Statement Row) (hsnap : snapshotted st.table = true) :
    Spec Sched.any (Own base id) (Own base id) (exec mutationKeys st) (fun _ => Own base id) := by
  refine Spec.of_state fun s₀ hs₀ => ?_
  have ⟨ho, T, hT⟩ := hs₀
  refine (((exec_spec hcov st hsnap).and (exec_frame st)).weaken fun s hs => ⟨hs.1, T, hs.2⟩).conseq ?_ ?_
  · rintro s rfl; exact ⟨⟨ho, hs₀.clear st⟩, hT⟩
  · exact fun _ s hs => ⟨hs.1, _, hs.2⟩

theorem execAll_own (hcov : mutationKeys.Covers) {id : String} (sts : List (Statement Row))
    (hsnap : ∀ st ∈ sts, snapshotted st.table = true) :
    Spec Sched.any (Own base id) (Own base id) (execAll mutationKeys sts) (fun _ => Own base id) := by
  induction sts with
  | nil => exact Spec.pure () fun _ hs => hs
  | cons st sts ih =>
    refine Spec.bind (Q := fun _ => Own base id) (Spec.bind (Q := fun _ => Own base id) ?_ fun _ =>
      Spec.pure () fun _ hs => hs) fun _ => ih fun st' h => hsnap st' (List.mem_cons_of_mem _ h)
    refine ((exec_own hcov st (hsnap st (List.mem_cons_self ..))).attempt fun _ hs => hs).conseq (fun _ hs => hs) ?_
    rintro (_ | _) s hs
    exacts [hs.1, hs]

/-! ### `rollback` -/

/-- Before the tables of `order` are restored: each still has its journal row, and unless some table
failed before, all other journal rows are in `J`. -/
structure Pending (base : String → Contents Row) (id : String) (J : JournalRow → Prop)
    (order : List (String × String)) (acc : Option ClickHouseError) (s : Backend Row) : Prop where
  inv : s.Inv base
  mem : ∀ p ∈ order, ⟨id, p.1, p.2⟩ ∈ s.journal
  only : acc = none → ∀ j ∈ s.journal, J j ∨ ∃ p ∈ order, j = ⟨id, p.1, p.2⟩

section Restore
variable {id : String} {J : JournalRow → Prop}

theorem Pending.tail {p : String × String} {order : List (String × String)} {acc : Option ClickHouseError}
    {s s' : Backend Row} (hnd : (p :: order).Nodup) (h : Pending base id J (p :: order) acc s)
    (hinv : s'.Inv base) (hj : JournalUpTo (· ∈ s.journal) ⟨id, p.1, p.2⟩ s')
    {acc' : Option ClickHouseError} (hacc : acc' = none → acc = none ∧ ⟨id, p.1, p.2⟩ ∉ s'.journal) :
    Pending base id J order acc' s' := by
  refine ⟨hinv, fun q hq => ?_, fun he j hj' => ?_⟩
  · refine hj.1 _ (h.mem q (List.mem_cons_of_mem _ hq)) fun e => ?_
    obtain ⟨-, e1, e2⟩ := JournalRow.mk.inj e
    exact (List.nodup_cons.1 hnd).1 (by rwa [← show q = p from Prod.ext e1 e2])
  · rcases h.only (hacc he).1 j (hj.2 j hj') with hJ | ⟨q, hq, rfl⟩
    · exact .inl hJ
    rcases List.mem_cons.1 hq with rfl | hq
    · exact absurd hj' (hacc he).2
    · exact .inr ⟨q, hq, rfl⟩

theorem Pending.start {tx : Transaction} {s : Backend Row} (ho : Open base s) (htx : s.tx = some tx)
    {order : List (String × String)} (hperm : order.Perm tx.snapshots)
    (hJ : ∀ j ∈ s.journal, j.transactionId = tx.id ∨ J j) : Pending base tx.id J order none s := by
  have htxi := ho.2 tx htx
  refine ⟨ho.1, fun p hp => htxi.inJournal p (hperm.subset hp), fun _ j hj => (hJ j hj).symm.imp_right fun he => ?_⟩
  exact ⟨_, hperm.symm.subset (htxi.ofJournal j hj he), by rw [← he]⟩

theorem restoreSnapshots_spec (order : List (String × String)) (acc : Option ClickHouseError)
    (hnd : order.Nodup) (hacc : acc ≠ none → A.mayFail) :
    Spec A (Inv base) (Pending base id J order acc) (restoreSnapshots id order acc)
      (fun _ s => s.Inv base ∧ ∀ j ∈ s.journal, J j) := by
  induction order generalizing acc with
  | nil =>
    cases acc with
    | none =>
      refine Spec.pure () fun s hs => ⟨hs.inv, fun j hj => (hs.only rfl j hj).resolve_right ?_⟩
      rintro ⟨p, hp, -⟩; exact absurd hp List.not_mem_nil
    | some e => exact Spec.throw e fun s hs => ⟨hs.inv, hacc (by simp)⟩
  | cons p order ih =>
    obtain ⟨hp, hnd'⟩ := List.nodup_cons.1 hnd
    refine Spec.of_state fun s₀ hs₀ => ?_
    refine Spec.bind (((restoreSnapshot_spec (· ∈ s₀.journal) ⟨id, p.1, p.2⟩
      (hs₀.mem p (List.mem_cons_self ..))).attempt fun s hs => hs.1).conseq ?_ fun _ _ hs => hs) ?_
    · rintro s rfl; exact ⟨hs₀.inv, fun _ => Iff.rfl⟩
    rintro (e | _)
    · -- the table failed: go on with the others, the error is kept
      refine Spec.of_state fun s hs => (ih (joinError acc e) hnd' fun _ => hs.2).conseq ?_ fun _ _ hs => hs
      rintro s' rfl
      exact hs₀.tail hnd hs.1.1 hs.1.2 fun h => by simp [joinError] at h
    · refine (ih acc hnd' hacc).conseq (fun s hs => ?_) fun _ _ hs => hs
      refine hs₀.tail hnd hs.1 ⟨fun j h1 h2 => (hs.2 j).2 ⟨h1, h2⟩, fun j hj => ((hs.2 j).1 hj).1⟩ fun h =>
        ⟨h, ?_⟩
      exact fun hm => ((hs.2 _).1 hm).2 rfl

end Restore

theorem deferFinish_triple {m : TxM Row Unit} {P : Backend Row → List Fault → Prop}
    {Q : Unit → Backend Row → List Fault → Prop} {E : ClickHouseError → Backend Row → List Fault → Prop}
    {C : Backend Row → Prop} (h : Triple P m Q E C) :
    Triple P (deferFinish m) (fun a s fs => ∃ s₀, Q a s₀ fs ∧ s = s₀.lost)
      (fun e s fs => ∃ s₀, E e s₀ fs ∧ s = s₀.lost) C := by
  refine Triple.bind (Triple.attempt h) ?_
  rintro (e | _) s fs hs <;> exact ⟨s, hs, rfl⟩

theorem deferFinish_spec {m : TxM Row Unit} {P : Backend Row → Prop} {Q : Unit → Backend Row → Prop}
    (h : Spec A (Inv base) P m Q) :
    Spec A (Inv base) P (deferFinish m) (fun _ s => ∃ s₀, Q () s₀ ∧ s = s₀.lost) := by
  refine Triple.conseq (deferFinish_triple h) (fun _ _ hs => hs) ?_ ?_ fun _ hs => hs
  · rintro _ _ fs ⟨s, hs, rfl⟩; exact ⟨⟨s, hs.1, rfl⟩, hs.2⟩
  · rintro _ _ fs ⟨s, hs, rfl⟩; exact ⟨hs.1.lost, hs.2⟩

theorem deferFinish_closed (m : TxM Row Unit) (s : Backend Row) (fs : List Fault) :
    match deferFinish m s fs with
    | .done _ s' _ => s'.tx = none
    | .crashed _ => True := by
  have h := deferFinish_triple (P := fun _ _ => True) (m := m) (Q := fun _ _ _ => True) (E := fun _ _ _ => True)
    (C := fun _ => True) (fun s fs _ => by split <;> trivial) s fs trivial
  revert h
  rcases deferFinish m s fs with ⟨_ | _, s', fs'⟩ | s'
  · rintro ⟨_, -, rfl⟩; rfl
  · rintro ⟨_, -, rfl⟩; rfl
  · exact id

theorem rollback_none {s : Backend Row} (htx : s.tx = none) (order : List (String × String)) (fs : List Fault) :
    rollback order s fs = .done (.error .txDone) s fs := by
  unfold rollback
  simp only [bind_eq, Prog.bind, Prog.read, htx, Prog.throw]

theorem rollback_eq {s : Backend Row} {tx : Transaction} (htx : s.tx = some tx) (order : List (String × String))
    (fs : List Fault) : rollback order s fs = deferFinish (restoreSnapshots tx.id order none) s fs := by
  unfold rollback
  simp only [bind_eq, Prog.bind, Prog.read, htx]

theorem rollback_spec {tx : Transaction} {order : List (String × String)} (hperm : order.Perm tx.snapshots)
    {J : JournalRow → Prop} :
    Spec A (Inv base) (fun s => Open base s ∧ s.tx = some tx ∧ ∀ j ∈ s.journal, j.transactionId = tx.id ∨ J j)
      (rollback order) (fun _ s => s.Inv base ∧ ∀ j ∈ s.journal, J j) := by
  unfold rollback
  rw [bind_eq]
  refine Spec.bind (Q := fun tx? s => tx? = some tx ∧ Open base s ∧ s.tx = some tx ∧
      ∀ j ∈ s.journal, j.transactionId = tx.id ∨ J j)
    (Spec.read fun s hs => ⟨hs.2.1, hs⟩) fun tx? => Spec.of_state fun s₀ hs₀ => ?_
  obtain ⟨rfl, ho, htx, hJ⟩ := hs₀
  have hnd : order.Nodup := (hperm.nodup_iff).2 (List.Nodup.of_map _ (ho.2 tx htx).nodup)
  refine (deferFinish_spec (restoreSnapshots_spec (J := J) order none hnd (by simp))).conseq ?_ ?_
  · rintro s rfl
    exact Pending.start ho htx hperm hJ
  · rintro _ s ⟨s', hs', rfl⟩
    exact ⟨hs'.1.lost, hs'.2⟩

/-! ### A transaction that does not commit -/

/-- A transaction that is rolled back, or that a crash ends before `commit`, leaves every user table
as it was at `begin`: a rollback without faults at once, everything else after the recovery at
restart, however often that recovery is itself interrupted. -/
theorem rollback_and_recovery_restore (hcov : mutationKeys.Covers) (s : Backend Row) (hj : s.journal = [])
    (id : String) (hid : validClickHouseIdentifier id = true) (hfresh : ∀ k ∈ s.keys, k.transactionId ≠ id)
    (sts : List (Statement Row)) (hsnap : ∀ st ∈ sts, snapshotted st.table = true) (fs : List Fault) :
    (∀ attempts scan, ∃ s', recoverTransactions scan
        (recoverInterrupted attempts (execAll mutationKeys sts (begin id s) fs).state.lost) [] =
          .done (.ok ()) s' [] ∧ s'.tables = s.tables) ∧
    ∀ r s₁ fs₁, execAll mutationKeys sts (begin id s) fs = .done r s₁ fs₁ →
      ∃ tx, s₁.tx = some tx ∧ ∀ order, order.Perm tx.snapshots →
        (∃ s', rollback order s₁ [] = .done (.ok ()) s' [] ∧ s'.tables = s.tables) ∧
        ∀ gs attempts scan, ∃ s', recoverTransactions scan
          (recoverInterrupted attempts (rollback order s₁ gs).state.lost) [] = .done (.ok ()) s' [] ∧
            s'.tables = s.tables := by
  have hown : Own s.tables id (execAll mutationKeys sts (begin id s) fs).state :=
    (execAll_own hcov sts hsnap).run_state (fun _ _ hs => hs) (begin_own hj hid hfresh) fs
  refine ⟨fun attempts scan => ?_, fun r s₁ fs₁ hrun => ?_⟩
  · obtain ⟨s', h1, -, h2⟩ := recover_base hown.1.1.lost attempts scan
    exact ⟨s', h1, h2⟩
  rw [hrun] at hown
  obtain ⟨ho, T, ⟨tx, htx, rfl⟩, -, hf⟩ := hown
  refine ⟨tx, htx, fun order hperm => ⟨?_, fun gs attempts scan => ?_⟩⟩
  · obtain ⟨_, s', h1, h2, h3⟩ := (rollback_spec (A := Sched.clean) hperm).run_clean ⟨ho, htx, hf⟩
    exact ⟨s', h1, h2.tables_eq h3⟩
  · have hI : (rollback order s₁ gs).state.Inv s.tables :=
      (rollback_spec (A := Sched.any) hperm).run_state (fun _ _ hs => hs.1) ⟨ho, htx, hf⟩ gs
    obtain ⟨s', h1, -, h2⟩ := recover_base hI.lost attempts scan
    exact ⟨s', h1, h2⟩

/-- The keys of an `INSERT`, which are in the statement itself; other statements are not listed. -/
def insertKeys : MutationKeys Row
  | .insert _ rows, _ => .ok (rows.map Prod.fst)
  | _, _ => .error .exec

theorem insertKeys_covers : (insertKeys : MutationKeys Row).Covers := by
  rintro (⟨table, rows⟩ | _ | _) c ks hks k hne
  · obtain rfl := Except.ok.inj hks
    rcases foldl_upsert rows c k with ⟨he, -⟩ | ⟨r, hr, -⟩
    · exact absurd he hne
    · exact List.mem_map.2 ⟨(k, r), hr, rfl⟩
  · cases hks
  · cases hks

/-- A database with no rows and nothing left over. -/
def emptyBackend : Backend Row := ⟨fun _ _ => none, [], [], [], none⟩

/-- Two tables are written, the first of them twice. -/
def twoTables : List (Statement Nat) :=
  [.insert "files" [("a", 1)], .insert "users" [("b", 2)], .insert "files" [("c", 3)]]

/-- The process crashes while it saves a key and then twice during recovery; or it rolls back. -/
theorem rollback_and_recovery_restore_two_tables :
    (∃ s', recoverTransactions .stored (recoverInterrupted [(.stored, [.ok, .ok, .crash]), (.stored, [.ok, .fail])]
        (execAll insertKeys twoTables (begin "f00d" emptyBackend) (List.replicate 13 .ok ++ [.crash])).state.lost) [] =
      .done (.ok ()) s' [] ∧ s'.tables = fun _ _ => none) ∧
    ∃ s₁, execAll insertKeys twoTables (begin "f00d" emptyBackend) [] = .done (.ok ()) s₁ [] ∧
      ∃ s', rollback [("files", "_renop_tx_f00d_0"), ("users", "_renop_tx_f00d_1")] s₁ [] = .done (.ok ()) s' [] ∧
        s'.tables = fun _ _ => none := by
  have h := rollback_and_recovery_restore insertKeys_covers emptyBackend rfl "f00d" (by decide)
    (by simp [emptyBackend]) twoTables (by decide)
  refine ⟨(h _).1 _ _, _, rfl, ?_⟩
  obtain ⟨tx, htx, hroll⟩ := (h []).2 _ _ _ rfl
  refine (hroll _ ?_).1
  obtain rfl := Option.some.inj htx
  decide

end Renop.ClickHouse
