import Renop.ClickHouseInv

/-!
# `restoreSnapshot` and `recoverTransactions`

Both keep `Inv base` at every step, so also where they fail or crash (`restoreSnapshot_spec`,
`recoverTransactions_spec`); a run of `recoverTransactions` that returns leaves no journal row, so
the user tables are `base`. `restoreSnapshot_gone` is the other case of the code: a table whose
snapshot has been dropped is left alone.
-/

namespace Renop.ClickHouse
open Crash Prog Backend

variable {Row : Type} {A : Sched} {base : String → Contents Row}

theorem connExec_spec {I P : Backend Row → Prop} {Q : Unit → Backend Row → Prop}
    {f : Backend Row → Backend Row} (hI : ∀ s, P s → I s) (hf : ∀ s, P s → Q () (f s)) :
    Spec A I P (connExec f) Q :=
  Spec.step hI fun s hs => ⟨(), f s, rfl, hf s hs⟩

theorem connQuery_spec {α : Type} {I P : Backend Row → Prop} {Q : α → Backend Row → Prop}
    {f : Backend Row → α} (hI : ∀ s, P s → I s) (hf : ∀ s, P s → Q (f s) s) :
    Spec A I P (connQuery f) Q :=
  Spec.step hI fun s hs => ⟨f s, s, rfl, hf s hs⟩

/-- The journal rows are those of `S`. -/
def JournalIs (S : JournalRow → Prop) (s : Backend Row) : Prop := ∀ j, j ∈ s.journal ↔ S j

/-- The journal rows are those of `S`, with or without `j`. -/
def JournalUpTo (S : JournalRow → Prop) (j : JournalRow) (s : Backend Row) : Prop :=
  (∀ j', S j' → j' ≠ j → j' ∈ s.journal) ∧ ∀ j' ∈ s.journal, S j'

theorem JournalIs.upTo {S : JournalRow → Prop} {s : Backend Row} (h : JournalIs S s) (j : JournalRow) :
    JournalUpTo S j s :=
  ⟨fun j' hj' _ => (h j').2 hj', fun j' hj' => (h j').1 hj'⟩

/-- Every key recorded under `j` has no row, or its old one. -/
def Cleared (base : String → Contents Row) (j : JournalRow) (s : Backend Row) : Prop :=
  ∀ k, ⟨j.transactionId, j.tableName, k⟩ ∈ s.keys →
    s.tables j.tableName k = none ∨ s.tables j.tableName k = base j.tableName k

/-- Every key recorded under `j` has its old row back. -/
def Restored (base : String → Contents Row) (j : JournalRow) (s : Backend Row) : Prop :=
  ∀ k, ⟨j.transactionId, j.tableName, k⟩ ∈ s.keys → s.tables j.tableName k = base j.tableName k

/-- `restoreSnapshot` of a journal row removes that row and no other; wherever it stops, `base` can
still be recovered. -/
theorem restoreSnapshot_spec (S : JournalRow → Prop) (j : JournalRow) (hj : S j) :
    Spec A (fun s => s.Inv base ∧ JournalUpTo S j s) (fun s => s.Inv base ∧ JournalIs S s)
      (restoreSnapshot j.transactionId j.tableName j.snapshotName)
      (fun _ s => s.Inv base ∧ JournalIs (fun j' => S j' ∧ j' ≠ j) s) := by
  set I : Backend Row → Prop := fun s => s.Inv base ∧ JournalUpTo S j s with hIdef
  set P : Backend Row → Prop := fun s => s.Inv base ∧ JournalIs S s with hPdef
  have hI : ∀ s, P s → I s := fun s h => ⟨h.1, h.2.upTo j⟩
  have hmem : ∀ s, P s → j ∈ s.journal := fun s h => (h.2 j).2 hj
  have hdelete : Spec A I P (connExec (Backend.deleteRecorded j.transactionId j.tableName))
      (fun _ s => P s ∧ Cleared base j s) := by
    refine connExec_spec hI fun s hs => ⟨⟨hs.1.deleteRecorded (hmem s hs), hs.2⟩, fun k hk => .inl ?_⟩
    have hk' : ⟨j.transactionId, j.tableName, k⟩ ∈ s.keys := hk
    simp [Backend.deleteRecorded, setTable, hk']
  have hinsert : Spec A I (fun s => P s ∧ Cleared base j s)
      (connTry (Backend.insertSnapshot j.tableName j.snapshotName)) (fun _ s => P s ∧ Restored base j s) := by
    refine Spec.step (fun s hs => hI s hs.1) fun s hs => ?_
    obtain ⟨s', h1, h2, h3, h4, -, -, h5⟩ := hs.1.1.insertSnapshot (hmem s hs.1) hs.2
    exact ⟨(), s', h1, ⟨h2, fun j' => by rw [h3]; exact hs.1.2 j'⟩, fun k hk => h5 k (by rw [← h4]; exact hk)⟩
  have hkeys : Spec A I (fun s => P s ∧ Restored base j s)
      (connExec (Backend.deleteKeys j.transactionId j.tableName))
      (fun _ s => P s ∧ ∀ k, ⟨j.transactionId, j.tableName, k⟩ ∉ s.keys) := by
    refine connExec_spec (fun s hs => hI s hs.1) fun s hs => ⟨⟨hs.1.1.deleteKeys hs.2, hs.1.2⟩, fun k hk => ?_⟩
    exact (mem_deleteKeys.1 hk).2 ⟨rfl, rfl⟩
  have hjournal : Spec A I (fun s => P s ∧ ∀ k, ⟨j.transactionId, j.tableName, k⟩ ∉ s.keys)
      (connExec (Backend.deleteJournal j.transactionId j.tableName))
      (fun _ s => (s.Inv base ∧ JournalIs (fun j' => S j' ∧ j' ≠ j) s) ∧
        ∀ j' ∈ s.journal, j'.snapshotName ≠ j.snapshotName) := by
    refine connExec_spec (fun s hs => hI s hs.1) fun s hs =>
      ⟨⟨hs.1.1.deleteJournal hs.2, fun j' => ?_⟩, fun j' hj' he => ?_⟩
    · rw [mem_deleteJournal, hs.1.2 j']
      refine and_congr_right fun hj' => not_congr ⟨fun h => ?_, fun h => by rw [h]; exact ⟨rfl, rfl⟩⟩
      exact hs.1.1.keyInj j' ((hs.1.2 j').2 hj') j (hmem s hs.1) h.1 h.2
    · obtain ⟨hm, hne⟩ := mem_deleteJournal.1 hj'
      have := hs.1.1.snapInj j' hm j (hmem s hs.1) he
      exact hne ⟨by rw [this], by rw [this]⟩
  have hdrop : Spec A I (fun s => (s.Inv base ∧ JournalIs (fun j' => S j' ∧ j' ≠ j) s) ∧
        ∀ j' ∈ s.journal, j'.snapshotName ≠ j.snapshotName)
      (connExec (Backend.dropSnapshot j.snapshotName))
      (fun _ s => s.Inv base ∧ JournalIs (fun j' => S j' ∧ j' ≠ j) s) := by
    refine connExec_spec (fun s hs => ⟨hs.1.1, ?_, ?_⟩) fun s hs => ⟨hs.1.1.dropSnapshot hs.2, hs.1.2⟩
    · exact fun j' h1 h2 => (hs.1.2 j').2 ⟨h1, h2⟩
    · exact fun j' h1 => ((hs.1.2 j').1 h1).1
  unfold restoreSnapshot
  split_ifs with hvalid
  swap
  · -- the names of a journal row are valid identifiers
    intro s fs hs
    have hv := hs.1.1.valid j (hmem s hs.1)
    simp [hv.1, hv.2] at hvalid
  refine Spec.bind (Q := fun b s => b = true ∧ P s) (connQuery_spec hI fun s hs => ?_) fun b => ?_
  · obtain ⟨rows, hrows, -⟩ := hs.1.images j (hmem s hs)
    exact ⟨by rw [hrows]; rfl, hs⟩
  cases b with
  | false => exact fun s fs hs => absurd hs.1.1 (by simp)
  | true =>
    refine Spec.bind (Spec.mapError (hdelete.conseq (fun s hs => hs.2) fun _ _ => id)) fun _ => ?_
    exact Spec.bind (Spec.mapError hinsert) fun _ => Spec.bind hkeys fun _ =>
      Spec.bind hjournal fun _ => Spec.mapError hdrop

theorem dropOrphans_spec (scan : Scan) (active : List String) :
    Spec A (Inv base) (fun s : Backend Row => s.Inv base ∧ s.journal = []) (dropOrphans scan active)
      (fun _ s => s.Inv base ∧ s.journal = []) := by
  refine Spec.bind (Q := fun _ s => s.Inv base ∧ s.journal = [])
    (connQuery_spec (fun s hs => hs.1) fun s hs => hs) fun names => ?_
  refine Spec.forEach (R := fun _ (s : Backend Row) => s.Inv base ∧ s.journal = []) (fun name rest => ?_) names
  split_ifs
  · refine Spec.mapError (connExec_spec (fun s hs => hs.1) fun s hs => ⟨hs.1.dropSnapshot ?_, hs.2⟩)
    intro j hj; rw [hs.2] at hj; exact absurd hj List.not_mem_nil
  · exact Spec.pure () fun s hs => hs

theorem restoreEntries_spec (entries : List JournalRow) (hnd : entries.Nodup) :
    Spec A (Inv base) (fun s : Backend Row => s.Inv base ∧ JournalIs (· ∈ entries) s)
      (Prog.forEach entries fun j => restoreSnapshot j.transactionId j.tableName j.snapshotName)
      (fun _ s => s.Inv base ∧ s.journal = []) := by
  induction entries with
  | nil =>
    refine Spec.pure () fun s hs => ⟨hs.1, List.eq_nil_iff_forall_not_mem.2 fun j hj => ?_⟩
    exact absurd ((hs.2 j).1 hj) List.not_mem_nil
  | cons j es ih =>
    obtain ⟨hj, hnd⟩ := List.nodup_cons.1 hnd
    refine Spec.bind ((restoreSnapshot_spec (· ∈ j :: es) j (List.mem_cons_self ..)).weaken
      fun s hs => hs.1) fun _ => (ih hnd).conseq (fun s hs => ⟨hs.1, fun j' => ?_⟩) fun _ _ => id
    rw [hs.2 j']
    show j' ∈ j :: es ∧ j' ≠ j ↔ j' ∈ es
    rw [List.mem_cons]
    refine ⟨fun h => h.1.resolve_left h.2, fun h => ⟨.inr h, ?_⟩⟩
    rintro rfl; exact hj h

theorem recoverTransactions_spec (scan : Scan) :
    Spec A (Inv base) (fun s : Backend Row => s.Inv base) (recoverTransactions scan)
      (fun _ s => s.Inv base ∧ s.journal = [] ∧ s.tables = base) := by
  refine Spec.bind (Q := fun es s => s.Inv base ∧ JournalIs (· ∈ es) s ∧ es.Nodup)
    (connQuery_spec (fun s hs => hs) fun s hs => ⟨hs, fun _ => (scan.entries_perm _).mem_iff.symm,
      (scan.entries_perm _).nodup_iff.2 hs.nodup⟩) fun entries => ?_
  intro s fs hs
  have hnd := hs.1.2.2
  revert s fs
  refine fun s fs hs => (Spec.bind (restoreEntries_spec entries hnd) fun _ =>
    Spec.bind (dropOrphans_spec scan _) fun _ => Spec.mapError (connExec_spec (fun s hs => hs.1) fun s hs => ?_))
    s fs ⟨⟨hs.1.1, hs.1.2.1⟩, hs.2⟩
  have hj : ∀ j, j ∉ s.journal := by rw [hs.2]; exact fun _ => List.not_mem_nil
  have hI : s.deleteOrphanKeys.Inv base := by
    have he := hs.1.tables_eq hj
    exact ⟨fun j h => absurd h (hj j), fun t k hne => absurd (congrFun (congrFun he t) k) hne,
      fun j h => absurd h (hj j), fun j h => absurd h (hj j), fun j h => absurd h (hj j), hs.1.nodup,
      fun j h => absurd h (hj j)⟩
  exact ⟨hI, hs.2, hI.tables_eq hj⟩

/-- What any number of interrupted recoveries leaves. -/
def recoverInterrupted (attempts : List (Scan × List Fault)) (s : Backend Row) : Backend Row :=
  attempts.foldl (fun s a => (recoverTransactions a.1 s a.2).state.lost) s

theorem recover_base {s : Backend Row} (h : s.Inv base) (attempts : List (Scan × List Fault)) (scan : Scan) :
    ∃ s', recoverTransactions scan (recoverInterrupted attempts s) [] = .done (.ok ()) s' [] ∧
      s'.journal = [] ∧ s'.tables = base := by
  have hI : (recoverInterrupted attempts s).Inv base := by
    unfold recoverInterrupted
    induction attempts generalizing s with
    | nil => exact h
    | cons a attempts ih =>
      exact ih ((recoverTransactions_spec a.1).run_state (fun _ _ hq => hq.1) h a.2).lost
  obtain ⟨_, s', h1, h2⟩ := (recoverTransactions_spec scan).run_clean hI
  exact ⟨s', h1, h2.2⟩

end Renop.ClickHouse
