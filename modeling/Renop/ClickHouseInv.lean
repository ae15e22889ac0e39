import Renop.ClickHouse

/-!
# The before-image invariant

`Inv base s`: wherever a user table differs from `base`, a journal row has recorded the key, and the
snapshot of a journal row holds exactly old rows (`base`), one for each recorded key that had one. So
putting every snapshot back gives `base`. Here `base` is the contents that recovery has to produce:
those before the open transaction and before every transaction that could not be rolled back.

The lemmas say what each statement of the emulation does to `Inv`. `restored` is the only one that
reaches `base`: deleting the recorded rows and inserting the snapshot. `forget` is the commit of one
table: without its journal row, the current rows of the recorded keys become the new `base`.
-/

namespace Renop.ClickHouse
open Crash

section Lookup
variable {α : Type}

theorem lookup_filter_ne (l : List (String × α)) (name name' : String) :
    (l.filter fun p => p.1 != name).lookup name' = if name' = name then none else l.lookup name' := by
  induction l with
  | nil => simp
  | cons p l ih =>
    by_cases hp : p.1 = name
    · rw [List.filter_cons_of_neg (by simp [hp]), ih]
      split_ifs with h
      · rfl
      · rw [List.lookup_cons, hp, beq_false_of_ne h]
    · rw [List.filter_cons_of_pos (by simp [hp]), List.lookup_cons, List.lookup_cons, ih]
      by_cases h : name' = p.1
      · subst h; simp [hp]
      · rw [beq_false_of_ne h]

theorem lookup_map_update (l : List (String × α)) (name name' : String) (f : α → α) :
    (l.map fun p => if p.1 = name then (p.1, f p.2) else p).lookup name' =
      if name' = name then (l.lookup name').map f else l.lookup name' := by
  induction l with
  | nil => simp
  | cons p l ih =>
    rw [List.map_cons, List.lookup_cons, List.lookup_cons, ih]
    by_cases h : name' = p.1
    · subst h; by_cases hp : p.1 = name <;> simp [hp]
    · have : name' ≠ (if p.1 = name then (p.1, f p.2) else p).1 := by split_ifs <;> exact h
      rw [beq_false_of_ne h, beq_false_of_ne this]

end Lookup

variable {Row : Type}

theorem foldl_upsert (rows : List (String × Row)) (c : Contents Row) (k : String) :
    rows.foldl Contents.upsert c k = c k ∧ (∀ r, (k, r) ∉ rows) ∨
      ∃ r, (k, r) ∈ rows ∧ rows.foldl Contents.upsert c k = some r := by
  induction rows generalizing c with
  | nil => exact .inl ⟨rfl, by simp⟩
  | cons p rows ih =>
    rw [List.foldl_cons]
    rcases ih (c.upsert p) with ⟨h1, h2⟩ | ⟨r, h1, h2⟩
    · by_cases hk : k = p.1
      · exact .inr ⟨p.2, by simp [hk], by rw [h1]; simp [Contents.upsert, hk]⟩
      · refine .inl ⟨by rw [h1]; simp [Contents.upsert, hk], fun r hr => ?_⟩
        rcases List.mem_cons.1 hr with rfl | hr
        · exact hk rfl
        · exact h2 r hr
    · exact .inr ⟨r, List.mem_cons_of_mem _ h1, h2⟩

namespace Backend

/-- The journal row has recorded `k`, or its snapshot holds a row of `k`. -/
def Covers (s : Backend Row) (j : JournalRow) (k : String) : Prop :=
  ⟨j.transactionId, j.tableName, k⟩ ∈ s.keys ∨
    ∃ rows r, s.snapshot? j.snapshotName = some rows ∧ (k, r) ∈ rows

/-- The snapshot of `j` holds old rows only, and one for each recorded key that had a row. -/
def Images (base : String → Contents Row) (s : Backend Row) (j : JournalRow) : Prop :=
  ∃ rows, s.snapshot? j.snapshotName = some rows ∧
    (∀ p ∈ rows, base j.tableName p.1 = some p.2) ∧
    ∀ k r, ⟨j.transactionId, j.tableName, k⟩ ∈ s.keys → base j.tableName k = some r → (k, r) ∈ rows

structure Inv (base : String → Contents Row) (s : Backend Row) : Prop where
  images : ∀ j ∈ s.journal, s.Images base j
  covered : ∀ t k, s.tables t k ≠ base t k →
    ∃ j ∈ s.journal, j.tableName = t ∧ ⟨j.transactionId, t, k⟩ ∈ s.keys
  valid : ∀ j ∈ s.journal,
    validClickHouseIdentifier j.tableName = true ∧ validClickHouseIdentifier j.snapshotName = true
  snapInj : ∀ j ∈ s.journal, ∀ j' ∈ s.journal, j.snapshotName = j'.snapshotName → j = j'
  keyInj : ∀ j ∈ s.journal, ∀ j' ∈ s.journal,
    j.transactionId = j'.transactionId → j.tableName = j'.tableName → j = j'
  nodup : s.journal.Nodup
  /-- No two journal rows answer for one row of a table. -/
  disj : ∀ j ∈ s.journal, ∀ j' ∈ s.journal, j.tableName = j'.tableName →
    ∀ k, s.Covers j k → s.Covers j' k → j = j'

variable {base : String → Contents Row} {s : Backend Row}

@[simp] theorem snapshot?_dropSnapshot (name name' : String) :
    (s.dropSnapshot name).snapshot? name' = if name' = name then none else s.snapshot? name' :=
  lookup_filter_ne _ _ _

theorem mem_deleteJournal {id table : String} {j : JournalRow} :
    j ∈ (s.deleteJournal id table).journal ↔
      j ∈ s.journal ∧ ¬ (j.transactionId = id ∧ j.tableName = table) := by
  simp only [deleteJournal, List.mem_filter, Bool.not_eq_true', Bool.and_eq_false_iff, beq_eq_false_iff_ne]
  tauto

theorem mem_insertJournal {row j : JournalRow}
    (hid : ∀ j ∈ s.journal, ¬ (j.transactionId = row.transactionId ∧ j.tableName = row.tableName)) :
    j ∈ (s.insertJournal row).journal ↔ j = row ∨ j ∈ s.journal := by
  simp only [insertJournal, List.mem_cons, List.mem_filter]
  refine or_congr_right ⟨fun h => h.1, fun hj => ⟨hj, ?_⟩⟩
  have := hid j hj
  simp only [Bool.not_eq_true', Bool.and_eq_false_iff, beq_eq_false_iff_ne]
  tauto

theorem mem_deleteKeys {id table : String} {k : KeyRow} :
    k ∈ (s.deleteKeys id table).keys ↔ k ∈ s.keys ∧ ¬ (k.transactionId = id ∧ k.tableName = table) := by
  simp only [deleteKeys, List.mem_filter, Bool.not_eq_true', Bool.and_eq_false_iff, beq_eq_false_iff_ne]
  tauto

theorem mem_insertKey {row k : KeyRow} : k ∈ (s.insertKey row).keys ↔ k = row ∨ k ∈ s.keys := by
  unfold insertKey
  split_ifs with h
  · exact ⟨.inr, fun hk => hk.elim (fun e => e ▸ h) id⟩
  · simp

namespace Inv

theorem tables_eq (h : s.Inv base) (hj : ∀ j, j ∉ s.journal) : s.tables = base := by
  funext t k
  by_contra hne
  obtain ⟨j, hmem, -⟩ := h.covered t k hne
  exact hj j hmem

theorem init (hj : s.journal = []) : s.Inv s.tables :=
  ⟨by simp [hj], fun _ _ h => absurd rfl h, by simp [hj], by simp [hj], by simp [hj], by simp [hj], by simp [hj]⟩

theorem congr {s' : Backend Row} (h : s.Inv base) (ht : s'.tables = s.tables)
    (hj : s'.journal = s.journal) (hk : s'.keys = s.keys)
    (hs : ∀ j ∈ s.journal, s'.snapshot? j.snapshotName = s.snapshot? j.snapshotName) : s'.Inv base := by
  have hc : ∀ j ∈ s.journal, ∀ k, s'.Covers j k → s.Covers j k := by
    intro j hjm k hcov
    unfold Covers at hcov ⊢
    rwa [hk, hs j hjm] at hcov
  refine ⟨fun j hjm => ?_, ?_, ?_, ?_, ?_, ?_, ?_⟩
  · rw [hj] at hjm
    obtain ⟨rows, h1, h2, h3⟩ := h.images j hjm
    exact ⟨rows, by rw [hs j hjm]; exact h1, h2, by rw [hk]; exact h3⟩
  · rw [ht, hj, hk]; exact h.covered
  · rw [hj]; exact h.valid
  · rw [hj]; exact h.snapInj
  · rw [hj]; exact h.keyInj
  · rw [hj]; exact h.nodup
  · rw [hj]; exact fun j hjm j' hjm' ht k h1 h2 =>
      h.disj j hjm j' hjm' ht k (hc j hjm k h1) (hc j' hjm' k h2)

theorem lost (h : s.Inv base) : s.lost.Inv base := h.congr rfl rfl rfl fun _ _ => rfl

theorem createSnapshot (h : s.Inv base) {name : String} (hn : s.snapshot? name = none) :
    Inv base { s with snapshots := (name, []) :: s.snapshots } := by
  refine h.congr rfl rfl rfl fun j hj => ?_
  obtain ⟨rows, h1, -⟩ := h.images j hj
  have hne : j.snapshotName ≠ name := fun e => by rw [e, hn] at h1; cases h1
  show List.lookup _ ((name, []) :: s.snapshots) = _
  rw [List.lookup_cons, beq_false_of_ne hne]; rfl

theorem dropSnapshot (h : s.Inv base) {name : String} (hn : ∀ j ∈ s.journal, j.snapshotName ≠ name) :
    (s.dropSnapshot name).Inv base := by
  refine h.congr rfl rfl rfl fun j hj => ?_
  rw [snapshot?_dropSnapshot, ite_eq_right_iff.2 fun e => absurd e (hn j hj)]

/-- A journal row for a new snapshot of a table the transaction has no key rows for. -/
theorem insertJournal (h : s.Inv base) {row : JournalRow}
    (hs : s.snapshot? row.snapshotName = some []) (hn : ∀ j ∈ s.journal, j.snapshotName ≠ row.snapshotName)
    (hk : ∀ k, ⟨row.transactionId, row.tableName, k⟩ ∉ s.keys)
    (hid : ∀ j ∈ s.journal, ¬ (j.transactionId = row.transactionId ∧ j.tableName = row.tableName))
    (hv : validClickHouseIdentifier row.tableName = true ∧ validClickHouseIdentifier row.snapshotName = true) :
    (s.insertJournal row).Inv base := by
  have hmem : ∀ j, j ∈ (s.insertJournal row).journal ↔ j = row ∨ j ∈ s.journal := fun j => mem_insertJournal hid
  have hcov : ∀ k, ¬ (s.insertJournal row).Covers row k := by
    rintro k (hk' | ⟨rows, r, h1, h2⟩)
    · exact hk k hk'
    · have : rows = [] := by rw [show (s.insertJournal row).snapshot? row.snapshotName = some [] from hs] at h1
                             exact (Option.some.inj h1).symm
      simp [this] at h2
  refine ⟨fun j hj => ?_, fun t k hne => ?_, fun j hj => ?_, fun j hj j' hj' he => ?_,
    fun j hj j' hj' h1 h2 => ?_, ?_, fun j hj j' hj' ht k h1 h2 => ?_⟩
  · rcases (hmem j).1 hj with rfl | hj
    · exact ⟨[], hs, by simp, fun k r hkr => absurd hkr (hk k)⟩
    · exact h.images j hj
  · obtain ⟨j, hj, h1, h2⟩ := h.covered t k hne
    exact ⟨j, (hmem j).2 (.inr hj), h1, h2⟩
  · rcases (hmem j).1 hj with rfl | hj
    · exact hv
    · exact h.valid j hj
  · rcases (hmem j).1 hj with rfl | hj <;> rcases (hmem j').1 hj' with rfl | hj'
    · rfl
    · exact absurd he.symm (hn j' hj')
    · exact absurd he (hn _ ‹_›)
    · exact h.snapInj j hj j' hj' he
  · rcases (hmem j).1 hj with rfl | hj <;> rcases (hmem j').1 hj' with rfl | hj'
    · rfl
    · exact absurd ⟨h1.symm, h2.symm⟩ (hid j' hj')
    · exact absurd ⟨h1, h2⟩ (hid _ ‹_›)
    · exact h.keyInj j hj j' hj' h1 h2
  · refine List.nodup_cons.2 ⟨fun hm => hn _ (List.mem_filter.1 hm).1 rfl, h.nodup.filter _⟩
  · rcases (hmem j).1 hj with rfl | hj
    · exact absurd h1 (hcov k)
    rcases (hmem j').1 hj' with rfl | hj'
    · exact absurd h2 (hcov k)
    · exact h.disj j hj j' hj' ht k h1 h2


theorem disj_extend {s' : Backend Row} {j : JournalRow} {key : String} (h : s.Inv base)
    (hcov : ∀ j' ∈ s.journal, ∀ k, s'.Covers j' k → s.Covers j' k ∨ (j' = j ∧ k = key))
    (hfree : ∀ j' ∈ s.journal, j'.tableName = j.tableName → s.Covers j' key → j' = j) :
    ∀ j₁ ∈ s.journal, ∀ j₂ ∈ s.journal, j₁.tableName = j₂.tableName →
      ∀ k, s'.Covers j₁ k → s'.Covers j₂ k → j₁ = j₂ := by
  intro j₁ hj₁ j₂ hj₂ ht k hc₁ hc₂
  rcases hcov j₁ hj₁ k hc₁ with hc₁ | ⟨e₁, k₁⟩ <;> rcases hcov j₂ hj₂ k hc₂ with
    hc₂ | ⟨e₂, k₂⟩
  · exact h.disj j₁ hj₁ j₂ hj₂ ht k hc₁ hc₂
  · rw [e₂]; exact hfree j₁ hj₁ (by rw [ht, e₂]) (k₂ ▸ hc₁)
  · rw [e₁]; exact (hfree j₂ hj₂ (by rw [← ht, e₁]) (k₁ ▸ hc₂)).symm
  · rw [e₁, e₂]

/-- Saving the current row of a key that still has its old row. -/
theorem copyRow (h : s.Inv base) {j : JournalRow} (hj : j ∈ s.journal) {key : String}
    (hb : s.tables j.tableName key = base j.tableName key)
    (hfree : ∀ j' ∈ s.journal, j'.tableName = j.tableName → s.Covers j' key → j' = j) :
    ∃ s', Backend.copyRow j.tableName j.snapshotName key s = .ok ((), s') ∧ s'.Inv base ∧
      s'.journal = s.journal ∧ s'.keys = s.keys ∧ s'.tables = s.tables ∧ s'.tx = s.tx ∧
      (∀ j' ∈ s.journal, j' ≠ j → s'.snapshot? j'.snapshotName = s.snapshot? j'.snapshotName) ∧
      ∃ rows, s'.snapshot? j.snapshotName = some rows ∧ ∀ r, base j.tableName key = some r → (key, r) ∈ rows := by
  obtain ⟨rows, h1, h2, h3⟩ := h.images j hj
  set new : List (String × Row) := (s.tables j.tableName key).elim [] fun r => [(key, r)] with hnew
  have hnew' : ∀ p ∈ new, p.1 = key ∧ base j.tableName p.1 = some p.2 := by
    intro p hp
    rw [hnew] at hp
    cases hr : s.tables j.tableName key with
    | none => rw [hr] at hp; simp at hp
    | some r =>
      rw [hr] at hp
      obtain rfl := List.mem_singleton.1 hp
      exact ⟨rfl, by rw [← hb, hr]⟩
  set s' : Backend Row := { s with snapshots := s.snapshots.map fun p =>
    if p.1 = j.snapshotName then (p.1, p.2 ++ new) else p } with hs'
  have hsnap : ∀ name, s'.snapshot? name =
      if name = j.snapshotName then (s.snapshot? name).map (· ++ new) else s.snapshot? name :=
    fun name => lookup_map_update s.snapshots j.snapshotName name (· ++ new)
  have hself : s'.snapshot? j.snapshotName = some (rows ++ new) := by rw [hsnap, if_pos rfl, h1]; rfl
  have hother : ∀ j' ∈ s.journal, j' ≠ j → s'.snapshot? j'.snapshotName = s.snapshot? j'.snapshotName := by
    intro j' hj' hne
    rw [hsnap, if_neg fun e => hne (h.snapInj j' hj' j hj e)]
  have hcov : ∀ j' ∈ s.journal, ∀ k, s'.Covers j' k → s.Covers j' k ∨ (j' = j ∧ k = key) := by
    rintro j' hj' k (hk | ⟨rows', r, hr1, hr2⟩)
    · exact .inl (.inl hk)
    · by_cases hne : j' = j
      · subst hne
        rw [hself] at hr1; obtain rfl := Option.some.inj hr1
        rcases List.mem_append.1 hr2 with hr2 | hr2
        · exact .inl (.inr ⟨rows, r, h1, hr2⟩)
        · exact .inr ⟨rfl, (hnew' _ hr2).1⟩
      · rw [hother j' hj' hne] at hr1
        exact .inl (.inr ⟨rows', r, hr1, hr2⟩)
  refine ⟨s', ?_, ⟨fun j' hj' => ?_, h.covered, h.valid, h.snapInj, h.keyInj, h.nodup, ?_⟩, rfl, rfl, rfl, rfl,
    hother, rows ++ new, hself, fun r hr => ?_⟩
  · simp only [Backend.copyRow, h1, hs', hnew]
    cases s.tables j.tableName key <;> rfl
  · by_cases hne : j' = j
    · subst hne
      refine ⟨rows ++ new, hself, fun p hp => ?_, fun k r hk hr => List.mem_append_left _ (h3 k r hk hr)⟩
      rcases List.mem_append.1 hp with hp | hp
      exacts [h2 p hp, (hnew' p hp).2]
    · obtain ⟨rows', h1', h2', h3'⟩ := h.images j' hj'
      exact ⟨rows', by rw [hother j' hj' hne]; exact h1', h2', h3'⟩
  · exact h.disj_extend hcov hfree
  · refine List.mem_append_right _ ?_
    rw [hnew, hb, hr]; exact List.mem_singleton_self _

theorem insertKey (h : s.Inv base) {j : JournalRow} (hj : j ∈ s.journal) {key : String}
    (himg : ∃ rows, s.snapshot? j.snapshotName = some rows ∧
      ∀ r, base j.tableName key = some r → (key, r) ∈ rows)
    (hfree : ∀ j' ∈ s.journal, j'.tableName = j.tableName → s.Covers j' key → j' = j) :
    (s.insertKey ⟨j.transactionId, j.tableName, key⟩).Inv base := by
  have hcov : ∀ j' ∈ s.journal, ∀ k, (s.insertKey ⟨j.transactionId, j.tableName, key⟩).Covers j' k →
      s.Covers j' k ∨ (j' = j ∧ k = key) := by
    rintro j' hj' k (hk | hk)
    · rcases mem_insertKey.1 hk with he | hk
      · obtain ⟨h1, h2, h3⟩ := KeyRow.mk.inj he
        exact .inr ⟨h.keyInj j' hj' j hj h1 h2, h3⟩
      · exact .inl (.inl hk)
    · exact .inl (.inr hk)
  refine ⟨fun j' hj' => ?_, fun t k hne => ?_, h.valid, h.snapInj, h.keyInj, h.nodup, ?_⟩
  · obtain ⟨rows, h1, h2, h3⟩ := h.images j' hj'
    refine ⟨rows, h1, h2, fun k r hk hr => ?_⟩
    rcases mem_insertKey.1 hk with he | hk
    · obtain ⟨e1, e2, rfl⟩ := KeyRow.mk.inj he
      obtain rfl := h.keyInj j' hj' j hj e1 e2
      obtain ⟨rows', h1', h4⟩ := himg
      rw [h1] at h1'; obtain rfl := Option.some.inj h1'
      exact h4 r hr
    · exact h3 k r hk hr
  · obtain ⟨j', hj', h1, h2⟩ := h.covered t k hne
    exact ⟨j', hj', h1, mem_insertKey.2 (.inr h2)⟩
  · exact h.disj_extend hcov hfree

theorem runStatement (h : s.Inv base) (st : Statement Row)
    (hrec : ∀ k, st.apply (s.tables st.table) k ≠ s.tables st.table k →
      ∃ j ∈ s.journal, j.tableName = st.table ∧ ⟨j.transactionId, st.table, k⟩ ∈ s.keys) :
    (s.runStatement st).Inv base := by
  refine ⟨h.images, fun t k hne => ?_, h.valid, h.snapInj, h.keyInj, h.nodup, h.disj⟩
  by_cases ht : t = st.table
  · subst ht
    have he : (s.runStatement st).tables st.table k = st.apply (s.tables st.table) k := by
      simp [Backend.runStatement, setTable]
    by_cases hk : st.apply (s.tables st.table) k = s.tables st.table k
    · exact h.covered _ _ (by rw [← hk, ← he]; exact hne)
    · exact hrec k hk
  · have he : (s.runStatement st).tables t k = s.tables t k := by
      simp [Backend.runStatement, setTable, ht]
    exact h.covered t k (by rw [← he]; exact hne)

theorem deleteRecorded (h : s.Inv base) {j : JournalRow} (hj : j ∈ s.journal) :
    (s.deleteRecorded j.transactionId j.tableName).Inv base := by
  refine ⟨h.images, fun t k hne => ?_, h.valid, h.snapInj, h.keyInj, h.nodup, h.disj⟩
  by_cases hrec : t = j.tableName ∧ ⟨j.transactionId, j.tableName, k⟩ ∈ s.keys
  · obtain ⟨rfl, hk⟩ := hrec
    exact ⟨j, hj, rfl, hk⟩
  · refine h.covered t k fun he => hne ?_
    rw [← he]
    by_cases ht : t = j.tableName
    · subst ht
      have : ⟨j.transactionId, j.tableName, k⟩ ∉ s.keys := fun hk => hrec ⟨rfl, hk⟩
      simp [Backend.deleteRecorded, setTable, this]
    · simp [Backend.deleteRecorded, setTable, ht]

theorem insertSnapshot (h : s.Inv base) {j : JournalRow} (hj : j ∈ s.journal)
    (hdel : ∀ k, ⟨j.transactionId, j.tableName, k⟩ ∈ s.keys → s.tables j.tableName k = none ∨
      s.tables j.tableName k = base j.tableName k) :
    ∃ s', Backend.insertSnapshot j.tableName j.snapshotName s = .ok ((), s') ∧ s'.Inv base ∧
      s'.journal = s.journal ∧ s'.keys = s.keys ∧ s'.snapshots = s.snapshots ∧ s'.tx = s.tx ∧
      ∀ k, ⟨j.transactionId, j.tableName, k⟩ ∈ s.keys → s'.tables j.tableName k = base j.tableName k := by
  obtain ⟨rows, h1, h2, h3⟩ := h.images j hj
  set s' := s.setTable j.tableName (rows.foldl Contents.upsert (s.tables j.tableName)) with hs'
  have hval : ∀ k, s'.tables j.tableName k = s.tables j.tableName k ∧ (∀ r, (k, r) ∉ rows) ∨
      s'.tables j.tableName k = base j.tableName k := by
    intro k
    have he : s'.tables j.tableName k = rows.foldl Contents.upsert (s.tables j.tableName) k := by
      simp [hs', setTable]
    rw [he]
    rcases foldl_upsert rows (s.tables j.tableName) k with hk | ⟨r, hr, hk⟩
    · exact .inl hk
    · exact .inr (by rw [hk]; exact (h2 _ hr).symm)
  refine ⟨s', by simp only [Backend.insertSnapshot, h1]; rfl,
    ⟨h.images, fun t k hne => ?_, h.valid, h.snapInj, h.keyInj, h.nodup, h.disj⟩, rfl, rfl, rfl, rfl, fun k hk => ?_⟩
  · by_cases ht : t = j.tableName
    · subst ht
      rcases hval k with ⟨he, -⟩ | he
      · exact h.covered _ _ (by rw [← he]; exact hne)
      · exact absurd he hne
    · have he : s'.tables t k = s.tables t k := by simp [hs', setTable, ht]
      exact h.covered t k (by rw [← he]; exact hne)
  · rcases hval k with ⟨he, hno⟩ | he
    · rcases hdel k hk with hd | hd
      · rw [he, hd]
        cases hb : base j.tableName k with
        | none => rfl
        | some r => exact absurd (h3 k r hk hb) (hno r)
      · rw [he, hd]
    · exact he

theorem deleteKeys (h : s.Inv base) {id table : String}
    (hres : ∀ k, ⟨id, table, k⟩ ∈ s.keys → s.tables table k = base table k) :
    (s.deleteKeys id table).Inv base := by
  have hcov : ∀ j ∈ s.journal, ∀ k, (s.deleteKeys id table).Covers j k → s.Covers j k :=
    fun j _ k hc => hc.imp (fun hk => (mem_deleteKeys.1 hk).1) fun hr => hr
  refine ⟨fun j hj => ?_, fun t k hne => ?_, h.valid, h.snapInj, h.keyInj, h.nodup, ?_⟩
  · obtain ⟨rows, h1, h2, h3⟩ := h.images j hj
    exact ⟨rows, h1, h2, fun k r hk hr => h3 k r (mem_deleteKeys.1 hk).1 hr⟩
  · obtain ⟨j, hj, h1, h2⟩ := h.covered t k hne
    refine ⟨j, hj, h1, mem_deleteKeys.2 ⟨h2, ?_⟩⟩
    rintro ⟨e1, e2⟩
    dsimp only at e1 e2
    subst e1 e2
    exact hne (hres k h2)
  · exact fun j hj j' hj' ht k h1 h2 => h.disj j hj j' hj' ht k (hcov j hj k h1) (hcov j' hj' k h2)

theorem deleteJournal (h : s.Inv base) {id table : String} (hk : ∀ k, ⟨id, table, k⟩ ∉ s.keys) :
    (s.deleteJournal id table).Inv base := by
  have hsub : ∀ j ∈ (s.deleteJournal id table).journal, j ∈ s.journal := fun j hj => (mem_deleteJournal.1 hj).1
  refine ⟨fun j hj => h.images j (hsub j hj), fun t k hne => ?_, fun j hj => h.valid j (hsub j hj),
    fun j hj j' hj' => h.snapInj j (hsub j hj) j' (hsub j' hj'),
    fun j hj j' hj' => h.keyInj j (hsub j hj) j' (hsub j' hj'), h.nodup.filter _,
    fun j hj j' hj' => h.disj j (hsub j hj) j' (hsub j' hj')⟩
  obtain ⟨j, hj, rfl, h2⟩ := h.covered t k hne
  refine ⟨j, mem_deleteJournal.2 ⟨hj, ?_⟩, rfl, h2⟩
  rintro ⟨e1, e2⟩
  rw [e1, e2] at h2
  exact hk k h2

end Inv

/-- `base` with the current rows of the keys that transaction `id` has recorded for `table`. -/
def commitBase (base : String → Contents Row) (s : Backend Row) (id table : String) : String → Contents Row :=
  fun t k => if t = table ∧ ⟨id, table, k⟩ ∈ s.keys then s.tables t k else base t k

theorem Inv.forget (h : s.Inv base) {j : JournalRow} (hj : j ∈ s.journal) :
    (s.deleteJournal j.transactionId j.tableName).Inv
      (commitBase base s j.transactionId j.tableName) := by
  have hsub : ∀ j' ∈ (s.deleteJournal j.transactionId j.tableName).journal, j' ∈ s.journal ∧ j' ≠ j := by
    intro j' hj'
    obtain ⟨h1, h2⟩ := mem_deleteJournal.1 hj'
    exact ⟨h1, fun e => h2 ⟨by rw [e], by rw [e]⟩⟩
  have hbase : ∀ j' ∈ s.journal, j' ≠ j → ∀ k, s.Covers j' k →
      commitBase base s j.transactionId j.tableName j'.tableName k = base j'.tableName k := by
    intro j' hj' hne k hc
    refine if_neg ?_
    rintro ⟨e1, e2⟩
    exact hne (h.disj j' hj' j hj e1 k hc (.inl e2))
  refine ⟨fun j' hj' => ?_, fun t k hne => ?_, fun j' hj' => h.valid j' (hsub j' hj').1,
    fun j' hj' j'' hj'' => h.snapInj j' (hsub j' hj').1 j'' (hsub j'' hj'').1,
    fun j' hj' j'' hj'' => h.keyInj j' (hsub j' hj').1 j'' (hsub j'' hj'').1, h.nodup.filter _,
    fun j' hj' j'' hj'' => h.disj j' (hsub j' hj').1 j'' (hsub j'' hj'').1⟩
  · obtain ⟨hm, hne⟩ := hsub j' hj'
    obtain ⟨rows, h1, h2, h3⟩ := h.images j' hm
    refine ⟨rows, h1, fun p hp => ?_, fun k r hk hr => ?_⟩
    · rw [hbase j' hm hne p.1 (.inr ⟨rows, p.2, h1, hp⟩)]; exact h2 p hp
    · rw [hbase j' hm hne k (.inl hk)] at hr; exact h3 k r hk hr
  · by_cases hrec : t = j.tableName ∧ ⟨j.transactionId, j.tableName, k⟩ ∈ s.keys
    · exact absurd (if_pos hrec : commitBase base s j.transactionId j.tableName t k = _).symm hne
    · have he : commitBase base s j.transactionId j.tableName t k = base t k := if_neg hrec
      rw [he] at hne
      obtain ⟨j', hj', rfl, h2⟩ := h.covered t k hne
      refine ⟨j', mem_deleteJournal.2 ⟨hj', ?_⟩, rfl, h2⟩
      rintro ⟨e1, e2⟩
      rw [e1] at h2
      exact hrec ⟨e2, e2 ▸ h2⟩

end Backend
end Renop.ClickHouse
