import Renop.ClickHouseRollback

/-!
# Committing, table by table

`commit` deletes the journal rows of a transaction one at a time, and each deletion commits one table
for good: `partly base s₀ id C` is what recovery produces once the tables `C` are committed, with `s₀`
the state when `commit` began. `Committing` is the invariant of the loop.

A fault between two deletions leaves some tables committed and the others not. With at most one
failing `Exec` and a crash anywhere this is the only thing that can go wrong (`commit_partial`):
recovery ends with the new rows in some tables and the old ones in the others. So a transaction that
began with an empty journal commits atomically exactly when its statements change at most one table
(`atomic_of_empty`). A commit that returns leaves no journal row of its transaction (`commit_partial`).
-/

namespace Renop.ClickHouse
open Crash Prog Backend

variable {Row : Type} {A : Sched} {base : String → Contents Row} {mutationKeys : MutationKeys Row}

/-- `base`, except that the rows transaction `id` recorded for the tables `C` are as in `s₀`. -/
def partly (base : String → Contents Row) (s₀ : Backend Row) (id : String) (C : List String) : String → Contents Row :=
  fun t k => if t ∈ C ∧ ⟨id, t, k⟩ ∈ s₀.keys then s₀.tables t k else base t k

/-- The loop of `commit` that started in `s₀` has committed the tables `C`; those of `order` are left. -/
structure Committing (base : String → Contents Row) (s₀ : Backend Row) (id : String) (C : List String)
    (order : List (String × String)) (s : Backend Row) : Prop where
  inv : s.Inv (partly base s₀ id C)
  tables : s.tables = s₀.tables
  sub : ∀ k ∈ s.keys, k ∈ s₀.keys
  keys : ∀ p ∈ order, ∀ k, ⟨id, p.1, k⟩ ∈ s₀.keys → ⟨id, p.1, k⟩ ∈ s.keys
  mem : ∀ p ∈ order, ⟨id, p.1, p.2⟩ ∈ s.journal
  own : ∀ j ∈ s.journal, j.transactionId = id → (j.tableName, j.snapshotName) ∈ order
  nodup : (order.map Prod.fst).Nodup

section Loop
variable {s₀ s : Backend Row} {id : String} {C : List String} {p : String × String} {order : List (String × String)}

theorem Committing.start {tx : Transaction} (ho : Open base s) (htx : s.tx = some tx)
    (hperm : order.Perm tx.snapshots) : Committing base s tx.id [] order s := by
  have htxi := ho.2 tx htx
  have hbase : partly base s tx.id [] = base := by funext t k; simp [partly]
  refine ⟨by rw [hbase]; exact ho.1, rfl, fun _ h => h, fun _ _ _ h => h, ?_, ?_, ?_⟩
  · exact fun p hp => htxi.inJournal p (hperm.subset hp)
  · exact fun j hj he => hperm.symm.subset (htxi.ofJournal j hj he)
  · exact ((hperm.map Prod.fst).nodup_iff).2 htxi.nodup

theorem commit_eq {tx : Transaction} (htx : s.tx = some tx) (restoreOrder : List (String × String)) (fs : List Fault) :
    commit order restoreOrder s fs = deferFinish (commitTables tx.id restoreOrder order) s fs := by
  unfold commit
  simp only [bind_eq, Prog.bind, Prog.read, htx]

theorem Committing.head_ne (h : Committing base s₀ id C (p :: order) s) {q : String × String} (hq : q ∈ order) :
    q.1 ≠ p.1 := by
  intro e
  refine (List.nodup_cons.1 h.nodup).1 ?_
  rw [← e]; exact List.mem_map_of_mem hq

theorem Committing.deleteJournal (h : Committing base s₀ id C (p :: order) s) :
    Committing base s₀ id (p.1 :: C) order (s.deleteJournal id p.1) := by
  have hbase : commitBase (partly base s₀ id C) s id p.1 = partly base s₀ id (p.1 :: C) := by
    funext t k
    unfold commitBase partly
    rw [h.tables]
    by_cases ht : t = p.1
    · subst ht
      have : ⟨id, p.1, k⟩ ∈ s.keys ↔ ⟨id, p.1, k⟩ ∈ s₀.keys :=
        ⟨h.sub _, h.keys p (List.mem_cons_self ..) k⟩
      by_cases hk : ⟨id, p.1, k⟩ ∈ s₀.keys <;> simp [this, hk]
    · simp [ht]
  refine ⟨?_, h.tables, h.sub, fun q hq => h.keys q (List.mem_cons_of_mem _ hq), fun q hq => ?_, fun j hj he => ?_,
    (List.nodup_cons.1 h.nodup).2⟩
  · rw [← hbase]; exact h.inv.forget (h.mem p (List.mem_cons_self ..))
  · refine mem_deleteJournal.2 ⟨h.mem q (List.mem_cons_of_mem _ hq), fun e => h.head_ne hq e.2⟩
  · obtain ⟨hj, hne⟩ := mem_deleteJournal.1 hj
    refine (List.mem_cons.1 (h.own j hj he)).resolve_left fun e => hne ⟨he, ?_⟩
    rw [← e]

theorem Committing.unnamed (h : Committing base s₀ id C (p :: order) s) :
    ∀ j ∈ (s.deleteJournal id p.1).journal, j.snapshotName ≠ p.2 := by
  intro j hj e
  obtain ⟨hj, hne⟩ := mem_deleteJournal.1 hj
  have := h.inv.snapInj j hj _ (h.mem p (List.mem_cons_self ..)) e
  exact hne ⟨by rw [this], by rw [this]⟩

theorem Committing.deleteKeys (h : Committing base s₀ id C order s) {table : String} (hC : table ∈ C)
    (hne : ∀ q ∈ order, q.1 ≠ table) : Committing base s₀ id C order (s.deleteKeys id table) := by
  refine ⟨h.inv.deleteKeys fun k hk => ?_, h.tables, fun k hk => h.sub k (mem_deleteKeys.1 hk).1, fun q hq k hk => ?_,
    h.mem, h.own, h.nodup⟩
  · rw [h.tables]; exact (if_pos ⟨hC, h.sub _ hk⟩).symm
  · exact mem_deleteKeys.2 ⟨h.keys q hq k hk, fun e => hne q hq e.2⟩

theorem Committing.dropSnapshot (h : Committing base s₀ id C order s) {name : String}
    (hn : ∀ j ∈ s.journal, j.snapshotName ≠ name) : Committing base s₀ id C order (s.dropSnapshot name) :=
  ⟨h.inv.dropSnapshot hn, h.tables, h.sub, h.keys, h.mem, h.own, h.nodup⟩

end Loop

/-! ### A table whose snapshot is gone -/

/-- Nothing is left of the table in the emulation: no snapshot, no key row, no journal row. -/
structure Gone (id : String) (p : String × String) (s : Backend Row) : Prop where
  snapshot : s.snapshot? p.2 = none
  keys : ∀ k, ⟨id, p.1, k⟩ ∉ s.keys
  journal : ∀ j ∈ s.journal, ¬ (j.transactionId = id ∧ j.tableName = p.1)

/-- No step adds a key row, a journal row or a snapshot. -/
structure Shrinks (s₀ s : Backend Row) : Prop where
  keys : ∀ k ∈ s.keys, k ∈ s₀.keys
  journal : ∀ j ∈ s.journal, j ∈ s₀.journal
  snapshot : ∀ name, s₀.snapshot? name = none → s.snapshot? name = none

section Shrink
variable {s₀ s : Backend Row} {id : String} {p : String × String}

theorem Gone.mono (h : Gone id p s₀) (hs : Shrinks s₀ s) : Gone id p s :=
  ⟨hs.snapshot _ h.snapshot, fun k hk => h.keys k (hs.keys _ hk), fun j hj => h.journal j (hs.journal j hj)⟩

theorem Shrinks.refl (s : Backend Row) : Shrinks s s := ⟨fun _ h => h, fun _ h => h, fun _ h => h⟩

theorem Shrinks.deleteKeys (h : Shrinks s₀ s) (id table : String) : Shrinks s₀ (s.deleteKeys id table) :=
  ⟨fun k hk => h.keys k (mem_deleteKeys.1 hk).1, h.journal, h.snapshot⟩

theorem Shrinks.deleteJournal (h : Shrinks s₀ s) (id table : String) : Shrinks s₀ (s.deleteJournal id table) :=
  ⟨h.keys, fun j hj => h.journal j (mem_deleteJournal.1 hj).1, h.snapshot⟩

theorem Shrinks.dropSnapshot (h : Shrinks s₀ s) (name : String) : Shrinks s₀ (s.dropSnapshot name) := by
  refine ⟨h.keys, h.journal, fun name' hn => ?_⟩
  rw [snapshot?_dropSnapshot]
  split_ifs
  exacts [rfl, h.snapshot name' hn]

theorem Shrinks.frame : Frame (@Shrinks Row) :=
  ⟨.refl, fun _ _ _ h h' => ⟨fun k hk => h.keys k (h'.keys k hk), fun j hj => h.journal j (h'.journal j hj),
    fun name hn => h'.snapshot name (h.snapshot name hn)⟩⟩

theorem connExec_shrinks {f : Backend Row → Backend Row} (hf : ∀ s, Shrinks s (f s)) :
    Within Shrinks (connExec f) := by
  refine Within.step Shrinks.frame fun s a s' h => ?_
  obtain ⟨-, rfl⟩ := Prod.mk.inj (Except.ok.inj h)
  exact hf s

theorem connQuery_shrinks {α : Type} (f : Backend Row → α) : Within Shrinks (connQuery f) := by
  refine Within.step Shrinks.frame fun s a s' h => ?_
  obtain ⟨-, rfl⟩ := Prod.mk.inj (Except.ok.inj h)
  exact .refl _

theorem restoreSnapshot_shrinks (id table snapshot : String) :
    Within (@Shrinks Row) (restoreSnapshot id table snapshot) := by
  have hinsert : Within (@Shrinks Row) (connTry (Backend.insertSnapshot table snapshot)) := by
    refine Within.step Shrinks.frame fun s a s' h => ?_
    unfold Backend.insertSnapshot at h
    cases hs : s.snapshot? snapshot with
    | none => rw [hs] at h; cases h
    | some rows =>
      rw [hs] at h
      obtain ⟨-, rfl⟩ := Prod.mk.inj (Except.ok.inj h)
      exact ⟨fun _ h => h, fun _ h => h, fun _ h => h⟩
  have hdelete : Within (@Shrinks Row) (connExec (Backend.deleteRecorded id table)) :=
    connExec_shrinks fun s => ⟨fun _ h => h, fun _ h => h, fun _ h => h⟩
  have hkeys := connExec_shrinks fun s : Backend Row => (Shrinks.refl s).deleteKeys id table
  have hjournal := connExec_shrinks fun s : Backend Row => (Shrinks.refl s).deleteJournal id table
  have hdrop := connExec_shrinks fun s : Backend Row => (Shrinks.refl s).dropSnapshot snapshot
  unfold restoreSnapshot
  split_ifs
  swap
  · exact Within.throw Shrinks.frame _
  refine Within.bind Shrinks.frame (connQuery_shrinks _) fun b => ?_
  cases b with
  | false =>
    exact Within.bind Shrinks.frame hkeys fun _ => Within.bind Shrinks.frame hjournal fun _ => Within.pure Shrinks.frame ()
  | true =>
    exact Within.bind Shrinks.frame (hdelete.mapError _) fun _ => Within.bind Shrinks.frame (hinsert.mapError _) fun _ =>
      Within.bind Shrinks.frame hkeys fun _ => Within.bind Shrinks.frame hjournal fun _ => hdrop.mapError _

theorem restoreSnapshots_shrinks (id : String) (order : List (String × String)) (acc : Option ClickHouseError) :
    Within (@Shrinks Row) (restoreSnapshots id order acc) := by
  induction order generalizing acc with
  | nil =>
    cases acc with
    | none => exact Within.pure Shrinks.frame ()
    | some e => exact Within.throw Shrinks.frame e
  | cons p order ih =>
    refine Within.bind Shrinks.frame (restoreSnapshot_shrinks _ _ _).attempt ?_
    rintro (e | _)
    exacts [ih _, ih _]

theorem commitTables_shrinks (id : String) (restoreOrder order : List (String × String)) :
    Within (@Shrinks Row) (commitTables id restoreOrder order) := by
  induction order with
  | nil => exact Within.pure Shrinks.frame ()
  | cons p order ih =>
    have hjournal := connExec_shrinks fun s : Backend Row => (Shrinks.refl s).deleteJournal id p.1
    have hkeys := connExec_shrinks fun s : Backend Row => (Shrinks.refl s).deleteKeys id p.1
    have hdrop := connExec_shrinks fun s : Backend Row => (Shrinks.refl s).dropSnapshot p.2
    refine Within.bind Shrinks.frame hjournal.attempt ?_
    rintro (e | _)
    · refine Within.bind Shrinks.frame (restoreSnapshots_shrinks _ _ _).attempt ?_
      rintro (_ | _)
      exacts [Within.throw Shrinks.frame _, Within.throw Shrinks.frame _]
    · exact Within.bind Shrinks.frame hkeys.attempt fun _ => Within.bind Shrinks.frame hdrop.attempt fun _ => ih

theorem deferFinish_shrinks {m : TxM Row Unit} (h : Within Shrinks m) : Within Shrinks (deferFinish m) := by
  refine Within.bind Shrinks.frame h.attempt fun r => Within.bind Shrinks.frame (Within.modify fun s => ?_) fun _ => ?_
  · exact ⟨fun _ h => h, fun _ h => h, fun _ h => h⟩
  · cases r with
    | ok a => exact Within.pure Shrinks.frame ()
    | error e => exact Within.throw Shrinks.frame e

theorem restoreSnapshot_gone (S : JournalRow → Prop)
    (hv : validClickHouseIdentifier p.1 = true ∧ validClickHouseIdentifier p.2 = true) :
    Spec A (fun s => s.Inv base ∧ JournalIs S s) (fun s => (s.Inv base ∧ JournalIs S s) ∧ Gone id p s)
      (restoreSnapshot id p.1 p.2) (fun _ s => s.Inv base ∧ JournalIs S s) := by
  unfold restoreSnapshot
  rw [if_pos (by rw [hv.1, hv.2]; rfl)]
  refine Spec.bind (Q := fun b s => b = false ∧ (s.Inv base ∧ JournalIs S s) ∧ Gone id p s)
    (connQuery_spec (fun s hs => hs.1) fun s hs => ⟨by rw [hs.2.snapshot]; rfl, hs⟩) fun b => ?_
  cases b with
  | true => exact fun s fs hs => absurd hs.1.1 (by simp)
  | false =>
    refine Spec.bind (Q := fun _ s => (s.Inv base ∧ JournalIs S s) ∧ Gone id p s) ?_ fun _ =>
      Spec.bind (Q := fun _ s => s.Inv base ∧ JournalIs S s) ?_ fun _ => Spec.pure () fun _ hs => hs
    · refine connExec_spec (fun s hs => hs.2.1) fun s ⟨_, ⟨hinv, hS⟩, hg⟩ => ⟨⟨?_, hS⟩, ?_⟩
      · exact hinv.deleteKeys fun k hk => absurd hk (hg.keys k)
      · exact hg.mono ((Shrinks.refl s).deleteKeys _ _)
    · refine connExec_spec (fun s hs => hs.1) fun s ⟨⟨hinv, hS⟩, hg⟩ => ⟨hinv.deleteJournal hg.keys, fun j => ?_⟩
      rw [mem_deleteJournal, and_iff_left_of_imp (hg.journal j)]
      exact hS j

/-- No journal row of transaction `id` is left. -/
def Spent (id : String) (s : Backend Row) : Prop := ∀ j ∈ s.journal, j.transactionId ≠ id

/-- Each table of `order` still has its journal row or is gone, and no other journal row is the
transaction's. -/
structure Restorable (id : String) (order : List (String × String)) (s : Backend Row) : Prop where
  tables : ∀ q ∈ order, ⟨id, q.1, q.2⟩ ∈ s.journal ∨ Gone id q s
  own : ∀ j ∈ s.journal, j.transactionId = id → (j.tableName, j.snapshotName) ∈ order

/-- Restoring every table of the transaction when some of them are committed already, and nothing
fails any more. -/
theorem restoreSnapshots_gone (order : List (String × String)) (hnd : order.Nodup)
    (hv : ∀ q ∈ order, validClickHouseIdentifier q.1 = true ∧ validClickHouseIdentifier q.2 = true) :
    Spec Sched.crashOnly (Inv base) (fun s => s.Inv base ∧ Restorable id order s)
      (restoreSnapshots id order none) (fun _ s => s.Inv base ∧ Spent id s) := by
  induction order with
  | nil => exact Spec.pure () fun _ hs => ⟨hs.1, fun j hj he => absurd (hs.2.own j hj he) List.not_mem_nil⟩
  | cons q order ih =>
    obtain ⟨hq, hnd⟩ := List.nodup_cons.1 hnd
    refine Spec.of_state fun s₀ hs₀ => ?_
    have hrestore : Spec Sched.crashOnly (Inv base) (fun s => s = s₀) (restoreSnapshot id q.1 q.2)
        (fun _ s => s.Inv base ∧ Restorable id order s) := by
      have hshr : ∀ s fs, s = s₀ → Shrinks s₀ (restoreSnapshot id q.1 q.2 s fs).state := by
        rintro s fs rfl; exact restoreSnapshot_shrinks _ _ _ s fs
      rcases hs₀.2.tables q (List.mem_cons_self ..) with hmem | hgone
      · refine (((restoreSnapshot_spec (· ∈ s₀.journal) ⟨id, q.1, q.2⟩ hmem).and_state hshr).weaken
          fun s hs => hs.1.1).conseq ?_ ?_
        · rintro s rfl; exact ⟨⟨hs₀.1, fun _ => Iff.rfl⟩, rfl⟩
        · rintro _ s ⟨⟨hinv, hJ⟩, hs⟩
          refine ⟨hinv, fun q' hq' => (hs₀.2.tables q' (List.mem_cons_of_mem _ hq')).imp (fun hm => ?_)
            fun hg => hg.mono hs, fun j hj he => ?_⟩
          · refine (hJ _).2 ⟨hm, fun e => ?_⟩
            obtain ⟨-, e1, e2⟩ := JournalRow.mk.inj e
            exact hq (by rwa [← show q' = q from Prod.ext e1 e2])
          · obtain ⟨hj₀, hne⟩ := (hJ j).1 hj
            refine (List.mem_cons.1 (hs₀.2.own j hj₀ he)).resolve_left fun e => hne ?_
            rw [← e, ← he]
      · refine (((restoreSnapshot_gone (p := q) (· ∈ s₀.journal) (hv q (List.mem_cons_self ..))).and_state hshr).weaken
          fun s hs => hs.1.1).conseq ?_ ?_
        · rintro s rfl; exact ⟨⟨⟨hs₀.1, fun _ => Iff.rfl⟩, hgone⟩, rfl⟩
        · rintro _ s ⟨⟨hinv, hJ⟩, hs⟩
          refine ⟨hinv, fun q' hq' => (hs₀.2.tables q' (List.mem_cons_of_mem _ hq')).imp (hJ _).2
            fun hg => hg.mono hs, fun j hj he => ?_⟩
          refine (List.mem_cons.1 (hs₀.2.own j ((hJ j).1 hj) he)).resolve_left fun e => ?_
          exact hgone.journal j ((hJ j).1 hj) ⟨he, by rw [← e]⟩
    refine Spec.bind (hrestore.attempt fun _ hs => hs) ?_
    rintro (e | _)
    · exact fun s fs hs => absurd hs.1.2 Sched.not_mayFail_crashOnly
    · exact ih hnd fun q' hq' => hv q' (List.mem_cons_of_mem _ hq')

end Shrink

/-! ### The loop with at most one failing `Exec` -/

section Partial
variable {s₀ : Backend Row} {id : String} {restoreOrder : List (String × String)}

/-- Recovery will find some tables committed and the others not. -/
def Partial (base : String → Contents Row) (s₀ : Backend Row) (id : String) (s : Backend Row) : Prop :=
  ∃ C, s.Inv (partly base s₀ id C)

/-- While an `Exec` may still fail, every committed table is completely cleaned up. -/
def Spare (id : String) (restoreOrder order : List (String × String)) (s : Backend Row) (fs : List Fault) : Prop :=
  Fault.fail ∈ fs → fs.count .fail ≤ 1 ∧ ∀ q ∈ restoreOrder, q ∈ order ∨ Gone id q s

theorem Spare.tail {order : List (String × String)} {s s' : Backend Row} {fs : List Fault}
    (h : Spare id restoreOrder order s fs) (hs : Shrinks s s') : Spare id restoreOrder order s' fs.tail := by
  intro hf
  have := h (List.mem_of_mem_tail hf)
  refine ⟨Nat.le_trans ((List.tail_sublist fs).count_le _) this.1, fun q hq => (this.2 q hq).imp_right fun hg =>
    hg.mono hs⟩

theorem Spare.no_fail {order : List (String × String)} {s : Backend Row} {fs : List Fault}
    (h : Spare id restoreOrder order s (.fail :: fs)) : Fault.fail ∉ fs := by
  intro hf
  have := (h (List.mem_cons_self ..)).1
  rw [List.count_cons_self] at this
  exact absurd (List.count_pos_iff.2 hf) (by omega)

/-- What holds when the journal row of `p` was deleted, or not. -/
def Headed {ε : Type} (base : String → Contents Row) (s₀ : Backend Row) (id : String)
    (restoreOrder : List (String × String)) (C : List String) (p : String × String) (order : List (String × String)) :
    Except ε Unit → Backend Row → List Fault → Prop
  | .ok (), s, fs => Committing base s₀ id (p.1 :: C) order s ∧ (∀ j ∈ s.journal, j.snapshotName ≠ p.2) ∧
      (∀ q ∈ order, q.1 ≠ p.1) ∧ Spare id restoreOrder (p :: order) s fs
  | .error _, s, fs => Committing base s₀ id C (p :: order) s ∧ Fault.fail ∉ fs ∧
      ∀ q ∈ restoreOrder, q ∈ p :: order ∨ Gone id q s

/-- Wherever the loop stops, each table is committed or not; where it returns, no journal row of the
transaction is left. -/
theorem commitTables_partly (hnd : restoreOrder.Nodup)
    (hv : ∀ q ∈ restoreOrder, validClickHouseIdentifier q.1 = true ∧ validClickHouseIdentifier q.2 = true)
    (order : List (String × String)) (hsub : ∀ q ∈ order, q ∈ restoreOrder) (C : List String) :
    Triple (fun s fs => Committing base s₀ id C order s ∧ Spare id restoreOrder order s fs)
      (commitTables id restoreOrder order) (fun _ s _ => Partial base s₀ id s ∧ Spent id s)
      (fun _ s _ => Partial base s₀ id s ∧ Spent id s) (Partial base s₀ id) := by
  induction order generalizing C with
  | nil => exact Triple.pure () fun s _ hs => ⟨⟨C, hs.1.inv⟩, fun j hj he =>
      absurd (hs.1.own j hj he) List.not_mem_nil⟩
  | cons p order ih =>
    -- the three statements of one iteration; `fail` in the first one leaves the loop
    refine Triple.bind (Q := Headed base s₀ id restoreOrder C p order) (Triple.attempt_step ?_ ?_ fun s fs hs =>
      ⟨C, hs.1.inv⟩) ?_
    · rintro s fs ⟨hc, hsp⟩ - -
      exact ⟨hc.deleteJournal, hc.unnamed, fun q hq => hc.head_ne hq, hsp.tail ((Shrinks.refl s).deleteJournal _ _)⟩
    · rintro s fs ⟨hc, hsp⟩
      exact ⟨hc, hsp.no_fail, (hsp (List.mem_cons_self ..)).2⟩
    rintro (e | _)
    · -- the tables before `p` are gone, the others are restored
      have hrest : Triple (fun s fs => Committing base s₀ id C (p :: order) s ∧ Fault.fail ∉ fs ∧
            ∀ q ∈ restoreOrder, q ∈ p :: order ∨ Gone id q s)
          (restoreSnapshots id restoreOrder none) (fun _ s _ => Partial base s₀ id s ∧ Spent id s)
          (fun _ s _ => Partial base s₀ id s ∧ Spent id s) (Partial base s₀ id) := by
        refine Triple.conseq (@restoreSnapshots_gone _ (partly base s₀ id C) _ restoreOrder hnd hv) ?_
          (fun _ s _ hs => ⟨⟨C, hs.1.1⟩, hs.1.2⟩) (fun _ s _ hs => absurd hs.2.2 Sched.not_mayFail_crashOnly)
          fun s hs => ⟨C, hs.1⟩
        rintro s fs ⟨hc, hf, hq⟩
        exact ⟨⟨hc.inv, fun q hq' => (hq q hq').imp_left (hc.mem q), fun j hj he => hsub _ (hc.own j hj he)⟩, hf⟩
      refine Triple.bind (Triple.attempt hrest) ?_
      rintro (_ | _) s fs hs <;> exact hs
    · refine Triple.bind (Q := fun _ s fs => Committing base s₀ id (p.1 :: C) order s ∧
          (∀ j ∈ s.journal, j.snapshotName ≠ p.2) ∧ (∀ q ∈ order, q.1 ≠ p.1) ∧
          Spare id restoreOrder (p :: order) s fs ∧ (Fault.fail ∈ fs → ∀ k, ⟨id, p.1, k⟩ ∉ s.keys))
        (Triple.attempt_step ?_ ?_ fun s fs hs => ⟨_, hs.1.inv⟩) fun _ => ?_
      · rintro s fs ⟨hc, hn, hne, hsp⟩ - -
        refine ⟨hc.deleteKeys (List.mem_cons_self ..) hne, hn, hne, hsp.tail ((Shrinks.refl s).deleteKeys _ _), ?_⟩
        exact fun _ k hk => (mem_deleteKeys.1 hk).2 ⟨rfl, rfl⟩
      · rintro s fs ⟨hc, hn, hne, hsp⟩
        exact ⟨hc, hn, hne, fun hf => absurd hf hsp.no_fail, fun hf => absurd hf hsp.no_fail⟩
      refine Triple.bind (Q := fun _ s fs => Committing base s₀ id (p.1 :: C) order s ∧ Spare id restoreOrder order s fs)
        (Triple.attempt_step ?_ ?_ fun s fs hs => ⟨_, hs.1.inv⟩) fun _ =>
          ih (fun q hq => hsub q (List.mem_cons_of_mem _ hq)) _
      · rintro s fs ⟨hc, hn, hne, hsp, hk⟩ - -
        refine ⟨hc.dropSnapshot hn, fun hf => ?_⟩
        obtain ⟨h1, h2⟩ := (hsp.tail ((Shrinks.refl s).dropSnapshot p.2)) hf
        refine ⟨h1, fun q hq => (h2 q hq).elim (fun hm => ?_) .inr⟩
        rcases List.mem_cons.1 hm with rfl | hm
        · refine .inr ⟨by simp, hk (List.mem_of_mem_tail hf), fun j hj he => ?_⟩
          exact hne _ (hc.own j hj he.1) he.2
        · exact .inl hm
      · rintro s fs ⟨hc, -, -, hsp, -⟩
        exact ⟨hc, fun hf => absurd hf hsp.no_fail⟩

theorem commit_partial {tx : Transaction} {order : List (String × String)} (ho : Open base s₀) (htx : s₀.tx = some tx)
    (hperm : order.Perm tx.snapshots) (hperm' : restoreOrder.Perm tx.snapshots) {gs : List Fault}
    (hgs : gs.count .fail ≤ 1) :
    match commit order restoreOrder s₀ gs with
    | .done _ s _ => Partial base s₀ tx.id s ∧ Spent tx.id s ∧ s.tx = none
    | .crashed s => Partial base s₀ tx.id s := by
  have htxi := ho.2 tx htx
  have hv : ∀ q ∈ restoreOrder, validClickHouseIdentifier q.1 = true ∧ validClickHouseIdentifier q.2 = true :=
    fun q hq => ho.1.valid _ (htxi.inJournal q (hperm'.subset hq))
  have hnd : restoreOrder.Nodup := (hperm'.nodup_iff).2 (List.Nodup.of_map _ htxi.nodup)
  have hsub : ∀ q ∈ order, q ∈ restoreOrder := fun q hq => hperm'.symm.subset (hperm.subset hq)
  have h := deferFinish_triple (@commitTables_partly _ base s₀ tx.id _ hnd hv order hsub [])
    s₀ gs ⟨.start ho htx hperm, fun _ => ⟨hgs, fun q hq => .inl (hperm.symm.subset (hperm'.subset hq))⟩⟩
  rw [commit_eq htx]
  revert h
  rcases deferFinish (commitTables tx.id restoreOrder order) s₀ gs with ⟨_ | _, s, fs⟩ | s
  · rintro ⟨s', ⟨⟨C, hC⟩, hs'⟩, rfl⟩; exact ⟨⟨C, hC.lost⟩, hs', rfl⟩
  · rintro ⟨s', ⟨⟨C, hC⟩, hs'⟩, rfl⟩; exact ⟨⟨C, hC.lost⟩, hs', rfl⟩
  · exact fun h => h

theorem commit_partial_state {tx : Transaction} {order : List (String × String)} (ho : Open base s₀)
    (htx : s₀.tx = some tx) (hperm : order.Perm tx.snapshots) (hperm' : restoreOrder.Perm tx.snapshots)
    {gs : List Fault} (hgs : gs.count .fail ≤ 1) : Partial base s₀ tx.id (commit order restoreOrder s₀ gs).state := by
  have h := commit_partial ho htx hperm hperm' hgs
  revert h
  rcases commit order restoreOrder s₀ gs with ⟨r, s, fs⟩ | s
  exacts [fun h => h.1, fun h => h]

end Partial

/-! ### Atomicity -/

/-- The tables after a list of statements. -/
def appliedAll (sts : List (Statement Row)) (T : String → Contents Row) : String → Contents Row :=
  sts.foldl (fun T st => applied st T) T

theorem exec_all_applied (hcov : mutationKeys.Covers) {id : String} (sts : List (Statement Row))
    (hsnap : ∀ st ∈ sts, snapshotted st.table = true) (T : String → Contents Row) :
    Spec Sched.any (fun _ => True) (fun s => Own base id s ∧ s.tables = T) (Prog.forEach sts (exec mutationKeys))
      (fun _ s => Own base id s ∧ s.tables = appliedAll sts T) := by
  induction sts generalizing T with
  | nil => exact Spec.pure () fun _ hs => hs
  | cons st sts ih =>
    refine Spec.bind (Q := fun _ s => Own base id s ∧ s.tables = applied st T) ?_ fun _ =>
      ih (fun st' h => hsnap st' (List.mem_cons_of_mem _ h)) (applied st T)
    refine (((@exec_own _ base _ hcov id st (hsnap st (List.mem_cons_self ..))).and
      (@exec_frame _ _ id (fun _ => False) T st)).weaken fun _ _ => trivial).conseq ?_ ?_
    · rintro s ⟨ho, rfl⟩
      obtain ⟨T, hT⟩ := ho.2
      exact ⟨ho, hT.opened, rfl, hT.foreign⟩
    · exact fun _ s hs => ⟨hs.1, hs.2.tables⟩

theorem partly_eq {id : String} {s : Backend Row} (h : Own base id s) (C : List String) (t : String) :
    partly base s id C t = if t ∈ C then s.tables t else base t := by
  obtain ⟨ho, T, hT⟩ := h
  funext k
  unfold partly
  by_cases ht : t ∈ C
  · rw [if_pos ht]
    by_cases hk : ⟨id, t, k⟩ ∈ s.keys
    · rw [if_pos ⟨ht, hk⟩]
    rw [if_neg fun h => hk h.2]
    by_contra hne
    obtain ⟨j, hj, rfl, hk'⟩ := ho.1.covered t k (Ne.symm hne)
    rw [(hT.foreign j hj).elim (fun h => h) False.elim] at hk'
    exact hk hk'
  · rw [if_neg ht, if_neg fun h => ht h.1]

/-- A transaction that begins with an empty journal: its `commit` is atomic under a crash anywhere and
a failing `Exec` anywhere, whatever the order in which the maps are walked, exactly when the statements
change the contents of at most one table. -/
theorem atomic_of_empty (hcov : mutationKeys.Covers) (s : Backend Row) (hj : s.journal = [])
    (id : String) (hid : validClickHouseIdentifier id = true) (hfresh : ∀ k ∈ s.keys, k.transactionId ≠ id)
    (sts : List (Statement Row)) (hsnap : ∀ st ∈ sts, snapshotted st.table = true) (fs fs₁ : List Fault)
    (s₁ : Backend Row) (hrun : Prog.forEach sts (exec mutationKeys) (begin id s) fs = .done (.ok ()) s₁ fs₁) :
    (∀ tx, s₁.tx = some tx → ∀ order restoreOrder, order.Perm tx.snapshots → restoreOrder.Perm tx.snapshots →
      ∀ gs, gs.count .fail ≤ 1 → ∀ attempts scan,
        ∃ s', recoverTransactions scan (recoverInterrupted attempts (commit order restoreOrder s₁ gs).state.lost) [] =
            .done (.ok ()) s' [] ∧
          (s'.tables = s.tables ∨ s'.tables = appliedAll sts s.tables)) ↔
    ∀ t t', appliedAll sts s.tables t ≠ s.tables t → appliedAll sts s.tables t' ≠ s.tables t' → t = t' := by
  have hown : Own s.tables id s₁ ∧ s₁.tables = appliedAll sts s.tables := by
    have := @exec_all_applied _ _ _ hcov id sts hsnap s.tables (begin id s) fs
      ⟨⟨begin_own hj hid hfresh, rfl⟩, trivial⟩
    rw [hrun] at this
    exact this.1
  rw [← hown.2]
  have ⟨ho, T, hT⟩ := hown.1
  constructor
  · -- the journal row of `t` is deleted first, and the process crashes right after
    intro h t t' ht ht'
    by_contra hne
    obtain ⟨tx, htx, rfl⟩ := hT.opened
    obtain ⟨k, hk⟩ := Function.ne_iff.1 ht
    obtain ⟨j, hjm, rfl, hkey⟩ := ho.1.covered t k hk
    have hjid : j.transactionId = tx.id := (hT.foreign j hjm).elim (fun h => h) False.elim
    have hmem := (ho.2 tx htx).ofJournal j hjm hjid
    obtain ⟨s', hrec, htables⟩ := h tx htx _ _ (List.perm_cons_erase hmem).symm (List.Perm.refl _)
      [.ok, .crash] (by decide) [] .stored
    have hcrash : (commit ((j.tableName, j.snapshotName) :: tx.snapshots.erase (j.tableName, j.snapshotName))
        tx.snapshots s₁ [.ok, .crash]).state = s₁.deleteJournal j.transactionId j.tableName := by
      rw [commit_eq htx, hjid]
      rfl
    have hinv := (ho.1.forget hjm).lost
    rw [← hcrash] at hinv
    obtain ⟨s'', hrec', -, htables'⟩ := recover_base hinv [] .stored
    obtain rfl : s'' = s' := (Outcome.done.inj (hrec'.symm.trans hrec)).2.1
    rw [htables'] at htables
    rcases htables with he | he
    · refine hk (.trans ?_ (congrFun (congrFun he j.tableName) k))
      exact (if_pos ⟨rfl, hkey⟩).symm
    · refine ht' (.trans (congrFun he t').symm ?_)
      funext k'
      exact if_neg fun h => hne h.1.symm
  · intro hone tx htx order restoreOrder hperm hperm' gs hgs attempts scan
    obtain ⟨C, hC⟩ := commit_partial_state ho htx hperm hperm' hgs
    obtain ⟨s', h1, -, h2⟩ := recover_base hC.lost attempts scan
    refine ⟨s', h1, ?_⟩
    obtain ⟨tx', htx', rfl⟩ := hT.opened
    obtain rfl : tx = tx' := Option.some.inj (htx.symm.trans htx')
    have hmix := partly_eq hown.1 C
    by_cases hsome : ∃ t ∈ C, s₁.tables t ≠ s.tables t
    · obtain ⟨t, htC, hne⟩ := hsome
      refine .inr (h2.trans (funext fun t' => ?_))
      rw [hmix t']
      split_ifs with ht'
      · rfl
      · by_contra hne'
        exact ht' (hone t t' hne (Ne.symm hne') ▸ htC)
    · refine .inl (h2.trans (funext fun t' => ?_))
      rw [hmix t']
      split_ifs with ht'
      · by_contra hne'
        exact hsome ⟨t', ht', hne'⟩
      · rfl

end Renop.ClickHouse
