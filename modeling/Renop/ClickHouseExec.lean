import Renop.ClickHouseRecover

/-!
# Executing a statement in a transaction

`TxInv s tx` ties the in-memory transaction to its journal and key rows. `exec` keeps it together
with `Inv base` at every step, as long as no journal row of another transaction answers for a row the
statement touches (`Clear`). Until the key is recorded its row is still the old one, so the copy in
the snapshot is genuine; the statement runs only after all its keys are recorded.
-/

namespace Renop.ClickHouse
open Crash Prog Backend

variable {Row : Type} {base : String → Contents Row}

structure TxInv (s : Backend Row) (tx : Transaction) : Prop where
  inJournal : ∀ p ∈ tx.snapshots, ⟨tx.id, p.1, p.2⟩ ∈ s.journal
  ofJournal : ∀ j ∈ s.journal, j.transactionId = tx.id → (j.tableName, j.snapshotName) ∈ tx.snapshots
  ofKeys : ∀ k ∈ s.keys, k.transactionId = tx.id → ∃ snapshot, (k.tableName, snapshot) ∈ tx.snapshots
  idValid : validClickHouseIdentifier tx.id = true
  /-- The snapshots are a map from tables. -/
  nodup : (tx.snapshots.map Prod.fst).Nodup

theorem TxInv.congr {s s' : Backend Row} {tx : Transaction} (h : TxInv s tx) (hj : s'.journal = s.journal)
    (hk : s'.keys = s.keys) : TxInv s' tx :=
  ⟨by rw [hj]; exact h.inJournal, by rw [hj]; exact h.ofJournal, by rw [hk]; exact h.ofKeys, h.idValid, h.nodup⟩

/-- `base` is recoverable, and the open transaction, if any, knows its journal rows. -/
def Open (base : String → Contents Row) (s : Backend Row) : Prop :=
  s.Inv base ∧ ∀ tx, s.tx = some tx → TxInv s tx

/-- No journal row of another transaction answers for a row the statement is about to touch. -/
def Clear (mutationKeys : MutationKeys Row) (st : Statement Row) (s : Backend Row) : Prop :=
  ∀ tx, s.tx = some tx → ∀ ks, mutationKeys st (s.tables st.table) = .ok ks → ∀ k ∈ ks,
    ∀ j ∈ s.journal, j.tableName = st.table → j.transactionId ≠ tx.id → ¬ s.Covers j k

/-! ### Names -/

theorem validClickHouseIdentifier_append {a b : String} (ha : validClickHouseIdentifier a = true)
    (hb : ∀ c ∈ b.toList, validIdentifierChar c = true) : validClickHouseIdentifier (a ++ b) = true := by
  simp only [validClickHouseIdentifier, Bool.and_eq_true, bne_iff_ne, List.all_eq_true] at ha ⊢
  refine ⟨fun h => ha.1 ?_, fun c hc => ?_⟩
  · exact (String.append_eq_empty_iff.1 h).1
  · rw [String.toList_append, List.mem_append] at hc
    exact hc.elim (ha.2 c) (hb c)

theorem validIdentifierChar_of_isDigit {c : Char} (h : c.isDigit = true) : validIdentifierChar c = true := by
  have h' : '0' ≤ c ∧ c ≤ '9' := by
    simpa [Char.isDigit, Char.le_def] using h
  simp [validIdentifierChar, h'.1, h'.2]

theorem validClickHouseIdentifier_snapshot {id : String} (h : validClickHouseIdentifier id = true) (n : Nat) :
    validClickHouseIdentifier ("_renop_tx_" ++ id ++ "_" ++ toString n) = true := by
  have hid : ∀ c ∈ id.toList, validIdentifierChar c = true := by
    simp only [validClickHouseIdentifier, Bool.and_eq_true, List.all_eq_true] at h
    exact h.2
  refine validClickHouseIdentifier_append (validClickHouseIdentifier_append
    (validClickHouseIdentifier_append (by decide) hid) (by simp [validIdentifierChar])) fun c hc => ?_
  rw [Nat.toString_eq_repr, Nat.toList_repr] at hc
  exact validIdentifierChar_of_isDigit (Nat.isDigit_of_mem_toDigits (by decide) (by decide) hc)

/-! ### `snapshotOf` -/

section
variable {tx : Transaction} {table : String} {tables : String → Contents Row} {K : String → Prop}

/-- No journal row of another transaction answers for a key of `K`. -/
def Free (id table : String) (K : String → Prop) (s : Backend Row) : Prop :=
  ∀ k, K k → ∀ j ∈ s.journal, j.tableName = table → j.transactionId ≠ id → ¬ s.Covers j k

/-- What holds before `snapshotOf`: the transaction is open and the tables are `tables`. -/
def Before (base : String → Contents Row) (tx : Transaction) (table : String)
    (tables : String → Contents Row) (K : String → Prop) (s : Backend Row) : Prop :=
  s.Inv base ∧ s.tx = some tx ∧ TxInv s tx ∧ Free tx.id table K s ∧ s.tables = tables

/-- What holds once the table has its snapshot, while the keys are saved. -/
def Saving (base : String → Contents Row) (j : JournalRow) (tables : String → Contents Row)
    (K : String → Prop) (s : Backend Row) : Prop :=
  Open base s ∧ (∃ tx, s.tx = some tx ∧ tx.id = j.transactionId) ∧ j ∈ s.journal ∧
    Free j.transactionId j.tableName K s ∧ s.tables = tables

theorem Before.open {s : Backend Row} (h : Before base tx table tables K s) : Open base s :=
  ⟨h.1, fun tx' htx => by rw [h.2.1] at htx; exact Option.some.inj htx ▸ h.2.2.1⟩

theorem Before.saving {s : Backend Row} (h : Before base tx table tables K s) {snapshot : String}
    (hp : (table, snapshot) ∈ tx.snapshots) : Saving base ⟨tx.id, table, snapshot⟩ tables K s :=
  ⟨h.open, ⟨tx, h.2.1, rfl⟩, h.2.2.1.inJournal _ hp, h.2.2.2⟩

/-- The state between `CREATE TABLE` and the journal row: an empty snapshot nobody names. -/
def Created (base : String → Contents Row) (tx : Transaction) (table snapshot : String)
    (tables : String → Contents Row) (K : String → Prop) (s : Backend Row) : Prop :=
  Before base tx table tables K s ∧ s.snapshot? snapshot = some [] ∧
    ∀ j ∈ s.journal, j.snapshotName ≠ snapshot

theorem createSnapshot_created {s : Backend Row} (h : Before base tx table tables K s) {snapshot : String}
    (hn : s.snapshot? snapshot = none) :
    Created base tx table snapshot tables K { s with snapshots := (snapshot, []) :: s.snapshots } := by
  obtain ⟨hinv, htx, htxi, hfree, ht⟩ := h
  have hne : ∀ j ∈ s.journal, j.snapshotName ≠ snapshot := by
    intro j hj e
    obtain ⟨rows, h1, -⟩ := hinv.images j hj
    rw [e, hn] at h1; cases h1
  refine ⟨⟨hinv.createSnapshot hn, htx, htxi.congr rfl rfl, ?_, ht⟩, ?_, hne⟩
  · rintro k hk j hj ht' hid (hc | ⟨rows, r, h1, h2⟩)
    · exact hfree k hk j hj ht' hid (.inl hc)
    · refine hfree k hk j hj ht' hid (.inr ⟨rows, r, ?_, h2⟩)
      rw [← h1]
      show _ = List.lookup _ ((snapshot, []) :: s.snapshots)
      rw [List.lookup_cons, beq_false_of_ne (hne j hj)]; rfl
  · show List.lookup _ ((snapshot, []) :: s.snapshots) = _
    rw [List.lookup_cons_self]

/-- The journal row and the entry of the transaction's map. -/
theorem insertJournal_saving {s : Backend Row} {snapshot : String}
    (h : Created base tx table snapshot tables K s) (hlook : tx.snapshots.lookup table = none)
    (hv : validClickHouseIdentifier table = true) (hvs : validClickHouseIdentifier snapshot = true) :
    Saving base ⟨tx.id, table, snapshot⟩ tables K
      { s.insertJournal ⟨tx.id, table, snapshot⟩ with
        tx := some { tx with snapshots := (table, snapshot) :: tx.snapshots } } := by
  obtain ⟨⟨hinv, htx, htxi, hfree, ht⟩, hs, hn⟩ := h
  have hno : ∀ snap, (table, snap) ∉ tx.snapshots := by
    intro snap hm
    rw [List.lookup_eq_none_iff] at hlook
    exact absurd (hlook _ hm) (by simp)
  have hk : ∀ k, ⟨tx.id, table, k⟩ ∉ s.keys := by
    intro k hm
    obtain ⟨snap, hsnap⟩ := htxi.ofKeys _ hm rfl
    exact hno snap hsnap
  have hid : ∀ j ∈ s.journal, ¬ (j.transactionId = tx.id ∧ j.tableName = table) := by
    rintro j hj ⟨e1, e2⟩
    exact hno _ (e2 ▸ htxi.ofJournal j hj e1)
  have hmem : ∀ j, j ∈ (s.insertJournal ⟨tx.id, table, snapshot⟩).journal ↔
      j = ⟨tx.id, table, snapshot⟩ ∨ j ∈ s.journal := fun j => mem_insertJournal hid
  have hI := @Backend.Inv.insertJournal _ _ _ hinv ⟨tx.id, table, snapshot⟩ hs hn hk hid ⟨hv, hvs⟩
  refine ⟨⟨hI.congr rfl rfl rfl fun _ _ => rfl, fun tx' htx' => ?_⟩, ⟨_, rfl, rfl⟩, (hmem _).2 (.inl rfl), ?_, ht⟩
  · obtain rfl := Option.some.inj htx'
    refine ⟨fun p hp => (hmem _).2 ?_, fun j hj he => ?_, fun k hk' he => ?_, htxi.idValid, ?_⟩
    · rcases List.mem_cons.1 hp with rfl | hp
      exacts [.inl rfl, .inr (htxi.inJournal p hp)]
    · rcases (hmem j).1 hj with rfl | hj
      exacts [List.mem_cons_self .., List.mem_cons_of_mem _ (htxi.ofJournal j hj he)]
    · obtain ⟨snap, hsnap⟩ := htxi.ofKeys k hk' he
      exact ⟨snap, List.mem_cons_of_mem _ hsnap⟩
    · refine List.nodup_cons.2 ⟨fun hm => ?_, htxi.nodup⟩
      obtain ⟨p, hp, rfl⟩ := List.mem_map.1 hm
      exact hno p.2 hp
  · intro k hk' j hj ht' hne hc
    rcases (hmem j).1 hj with rfl | hj
    exacts [hne rfl, hfree k hk' j hj ht' hne hc]

theorem snapshotOf_spec (hv : validClickHouseIdentifier table = true) :
    Spec Sched.any (Open base) (Before base tx table tables K) (snapshotOf tx table)
      (fun snapshot s => Saving base ⟨tx.id, table, snapshot⟩ tables K s) := by
  have hany : Sched.any.mayFail := ⟨[], trivial⟩
  unfold snapshotOf
  cases hlook : tx.snapshots.lookup table with
  | some snapshot =>
    refine Spec.pure _ fun s hs => hs.saving ?_
    obtain ⟨l₁, l₂, h, -⟩ := List.lookup_eq_some_iff.1 hlook
    rw [h]; simp
  | none =>
    set snapshot := "_renop_tx_" ++ tx.id ++ "_" ++ toString tx.snapshots.length with hsnap
    refine Spec.bind (Q := fun _ s => Created base tx table snapshot tables K s)
      (Spec.mapError (Spec.step_or (fun s hs => hs.open) fun s hs => ?_)) fun _ => ?_
    · unfold Backend.createSnapshot
      cases hs' : s.snapshot? snapshot with
      | some rows => exact .inr ⟨hany, _, rfl⟩
      | none => exact .inl ⟨(), _, rfl, createSnapshot_created hs hs'⟩
    refine Spec.bind (Spec.attempt (connExec_spec (I := Created base tx table snapshot tables K)
      (Q := fun _ s => ∃ s₀, Created base tx table snapshot tables K s₀ ∧
        s = s₀.insertJournal ⟨tx.id, table, snapshot⟩) (fun s hs => hs) fun s hs => ⟨s, hs, rfl⟩)
      fun s hs => hs.1.open) ?_
    rintro (e | _)
    · -- the journal row was not written: drop the snapshot again, whether or not that works
      have hdrop : Spec Sched.any (Open base) (Created base tx table snapshot tables K)
          (connExec (Backend.dropSnapshot snapshot)) (fun _ => Open base) := by
        refine connExec_spec (fun s hs => hs.1.open) fun s hs => ?_
        obtain ⟨⟨hinv, htx, htxi, -⟩, -, hn⟩ := hs
        refine ⟨hinv.dropSnapshot hn, fun tx' htx' => ?_⟩
        rw [show (s.dropSnapshot snapshot).tx = s.tx from rfl, htx] at htx'
        obtain rfl := Option.some.inj htx'
        exact htxi.congr rfl rfl
      refine Spec.bind (Q := fun _ => Open base) ((hdrop.attempt fun _ => id).conseq (fun s hs => hs.1) ?_)
        fun _ => Spec.throw _ fun s hs => ⟨hs, hany⟩
      rintro (_ | _) s hs
      exacts [hs.1, hs]
    · refine Spec.bind (Spec.modify (Q := fun _ s => Saving base ⟨tx.id, table, snapshot⟩ tables K s) ?_)
        fun _ => Spec.pure _ fun s hs => hs
      rintro s ⟨s₀, hs₀, rfl⟩
      exact insertJournal_saving hs₀ hlook hv
        (validClickHouseIdentifier_snapshot hs₀.1.2.2.1.idValid _)

/-! ### The keys and the statement -/

theorem Free.of_eq {id : String} {s s' : Backend Row} (h : Free id table K s) (hj : s'.journal = s.journal)
    (hc : ∀ j ∈ s.journal, j.transactionId ≠ id → ∀ k, s'.Covers j k → s.Covers j k) : Free id table K s' := by
  intro k hk j hjm ht hne hcov
  rw [hj] at hjm
  exact h k hk j hjm ht hne (hc j hjm hne k hcov)

theorem Saving.only {j : JournalRow} {s : Backend Row} (h : Saving base j tables K s) {k : String} (hk : K k) :
    ∀ j' ∈ s.journal, j'.tableName = j.tableName → s.Covers j' k → j' = j := by
  intro j' hj' ht hc
  by_contra hne
  refine h.2.2.2.1 k hk j' hj' ht (fun he => hne ?_) hc
  exact h.1.1.keyInj j' hj' j h.2.2.1 he ht

theorem Saving.old {j : JournalRow} {s : Backend Row} (h : Saving base j tables K s) {k : String} (hk : K k)
    (hrec : ⟨j.transactionId, j.tableName, k⟩ ∉ s.keys) : s.tables j.tableName k = base j.tableName k := by
  by_contra hne
  obtain ⟨j', hj', ht, hk'⟩ := h.1.1.covered _ _ hne
  have := h.only hk j' hj' ht (.inl (ht ▸ hk'))
  exact hrec (this ▸ hk')

/-- The keys of `D` are recorded under `j`. -/
def Recorded (j : JournalRow) (D : String → Prop) (s : Backend Row) : Prop :=
  ∀ k, D k → ⟨j.transactionId, j.tableName, k⟩ ∈ s.keys

theorem saveKey_spec (j : JournalRow) (D : String → Prop) {key : String} (hkey : K key) :
    Spec Sched.any (Open base) (fun s => Saving base j tables K s ∧ Recorded j D s)
      (saveKey j.transactionId j.tableName j.snapshotName key)
      (fun _ s => Saving base j tables K s ∧ Recorded j (fun k => k = key ∨ D k) s) := by
  refine Spec.bind (Q := fun b s => (Saving base j tables K s ∧ Recorded j D s) ∧
      (b = decide (⟨j.transactionId, j.tableName, key⟩ ∈ s.keys)))
    (Spec.mapError (connQuery_spec (fun s hs => hs.1.1) fun s hs => ⟨hs, rfl⟩)) fun b => ?_
  cases b with
  | true =>
    refine Spec.pure () fun s hs => ⟨hs.1.1, fun k hk => ?_⟩
    rcases hk with rfl | hk
    exacts [of_decide_eq_true hs.2.symm, hs.1.2 k hk]
  | false =>
    refine Spec.bind (Q := fun _ s => (Saving base j tables K s ∧ ∃ rows, s.snapshot? j.snapshotName = some rows ∧
        ∀ r, base j.tableName key = some r → (key, r) ∈ rows) ∧ Recorded j D s)
      (Spec.mapError (Spec.step (fun s hs => hs.1.1.1) fun s ⟨⟨hs, hD⟩, hb⟩ => ?_)) fun _ =>
      Spec.mapError (connExec_spec (fun s hs => hs.1.1.1) fun s ⟨hs, hD⟩ => ⟨?_, fun k hk => ?_⟩)
    · replace hs := And.intro hs hb
      have hold := hs.1.old hkey (of_decide_eq_false hs.2.symm)
      obtain ⟨s', h1, h2, h3, h4, h5, h6, hother, h7⟩ := hs.1.1.1.copyRow hs.1.2.2.1 hold (hs.1.only hkey)
      refine ⟨(), s', h1, ⟨⟨⟨h2, fun tx htx => ?_⟩, by rw [h6]; exact hs.1.2.1, by rw [h3]; exact hs.1.2.2.1, ?_,
        by rw [h5]; exact hs.1.2.2.2.2⟩, h7⟩, fun k hk => by rw [h4]; exact hD k hk⟩
      · have := hs.1.1.2 tx (by rw [← h6]; exact htx)
        exact this.congr h3 h4
      · refine hs.1.2.2.2.1.of_eq h3 fun j' hj' hne k hc => ?_
        unfold Covers at hc ⊢
        rwa [h4, hother j' hj' fun e => hne (by rw [e])] at hc
    · obtain ⟨⟨⟨hinv, htxi⟩, ⟨tx, htx, hid⟩, hj, hfree, ht⟩, himg⟩ := hs
      refine ⟨⟨hinv.insertKey hj himg (Saving.only ⟨⟨hinv, htxi⟩, ⟨tx, htx, hid⟩, hj, hfree, ht⟩ hkey), ?_⟩,
        ⟨tx, htx, hid⟩, hj, ?_, ht⟩
      · intro tx' htx'
        obtain ⟨h1, h2, h3, h4, h5⟩ := htxi tx' htx'
        obtain rfl : tx = tx' := Option.some.inj (htx.symm.trans htx')
        refine ⟨h1, h2, fun k hk he => ?_, h4, h5⟩
        rcases mem_insertKey.1 hk with rfl | hk
        · exact ⟨j.snapshotName, h2 j hj hid.symm⟩
        · exact h3 k hk he
      · refine hfree.of_eq rfl fun j' hj' hne k hc => hc.imp (fun hk => ?_) fun hr => hr
        rcases mem_insertKey.1 hk with he | hk
        · exact absurd (KeyRow.mk.inj he).1 hne
        · exact hk
    · rcases hk with rfl | hk
      exacts [mem_insertKey.2 (.inl rfl), mem_insertKey.2 (.inr (hD k hk))]

theorem saveKeys_spec (j : JournalRow) (ks : List String) (hks : ∀ k ∈ ks, K k) :
    Spec Sched.any (Open base) (Saving base j tables K)
      (Prog.forEach ks (saveKey j.transactionId j.tableName j.snapshotName))
      (fun _ s => Saving base j tables K s ∧ Recorded j (· ∈ ks) s) := by
  refine (Spec.forEach (R := fun xs s => (∀ k ∈ xs, K k) ∧ Saving base j tables K s ∧
    Recorded j (fun k => k ∈ ks ∧ k ∉ xs) s) (fun x xs => ?_) ks).conseq ?_ ?_
  · intro s fs hs
    obtain ⟨⟨hxs, hs⟩, hA⟩ := hs
    refine ((saveKey_spec j _ (hxs x (List.mem_cons_self ..))).conseq (fun _ => id) fun _ s hs =>
      ⟨fun k hk => hxs k (List.mem_cons_of_mem _ hk), hs.1, fun k hk => hs.2 k ?_⟩) s fs ⟨hs, hA⟩
    by_cases he : k = x
    · exact .inl he
    · exact .inr ⟨hk.1, fun hm => (List.mem_cons.1 hm).elim he hk.2⟩
  · exact fun s hs => ⟨hks, hs, fun k hk => absurd hk.1 hk.2⟩
  · exact fun _ s hs => ⟨hs.2.1, fun k hk => hs.2.2 k ⟨hk, List.not_mem_nil⟩⟩

end

/-! ### `exec` -/

variable {mutationKeys : MutationKeys Row}

theorem Saving.runStatement (hcov : mutationKeys.Covers) {st : Statement Row} {ks : List String} {j : JournalRow}
    {tables : String → Contents Row} (hks : mutationKeys st (tables st.table) = .ok ks) {K : String → Prop}
    {s : Backend Row} (hj : j.tableName = st.table) (h : Saving base j tables K s)
    (hrec : Recorded j (· ∈ ks) s) : Open base (s.runStatement st) := by
  refine ⟨h.1.1.runStatement st fun k hk => ⟨j, h.2.2.1, hj, ?_⟩, fun tx htx => ?_⟩
  · rw [← hj]
    refine hrec k (hcov st _ ks hks k ?_)
    rw [← h.2.2.2.2]; exact hk
  · exact (h.1.2 tx htx).congr rfl rfl

/-- The keys a statement would touch on the tables `tables`. -/
def touched (mutationKeys : MutationKeys Row) (st : Statement Row) (c : Contents Row) (k : String) : Prop :=
  ∃ ks, mutationKeys st c = .ok ks ∧ k ∈ ks

theorem listMutationKeys_spec (st : Statement Row) {tables : String → Contents Row} {P : Backend Row → Prop}
    (hP : ∀ s, P s → Open base s ∧ s.tables = tables) :
    Spec Sched.any (Open base) P (listMutationKeys mutationKeys st)
      (fun ks s => mutationKeys st (tables st.table) = .ok ks ∧ P s) := by
  have hany : Sched.any.mayFail := ⟨[], trivial⟩
  have hstep : ∀ e, Spec Sched.any (Open base) P (Prog.step e fun s =>
      (mutationKeys st (s.tables st.table)).map fun ks => (ks, s))
      (fun ks s => mutationKeys st (tables st.table) = .ok ks ∧ P s) := by
    refine fun e => Spec.step_or (fun s hs => (hP s hs).1) fun s hs => ?_
    cases hm : mutationKeys st (s.tables st.table) with
    | error e' => exact .inr ⟨hany, e', rfl⟩
    | ok ks => exact .inl ⟨ks, s, rfl, by rw [← (hP s hs).2]; exact hm, hs⟩
  cases st with
  | insert table rows =>
    refine Spec.check fun s hs => ?_
    cases hm : mutationKeys (.insert table rows) (s.tables _) with
    | error e => exact ⟨(hP s hs).1, hany⟩
    | ok ks => exact ⟨by rw [← (hP s hs).2]; exact hm, hs⟩
  | alterUpdate table set cond => exact hstep _
  | deleteFrom table cond => exact hstep _

theorem execUnlocked_spec {st : Statement Row} {P : Backend Row → Prop} (hP : ∀ s, P s → Open base s)
    (hrun : ∀ s, P s → Open base (s.runStatement st)) :
    Spec Sched.any (Open base) P (execUnlocked st) (fun _ => Open base) := by
  refine Spec.bind (Q := fun _ => P) ?_ fun _ => connExec_spec hP hrun
  cases st with
  | insert table rows => exact Spec.pure () fun _ => id
  | alterUpdate table set cond => exact connQuery_spec hP fun _ => id
  | deleteFrom table cond => exact connQuery_spec hP fun _ => id

/-- Executing a statement of a user table keeps `base` recoverable, whatever fails. -/
theorem exec_spec (hcov : mutationKeys.Covers) (st : Statement Row) (hsnap : snapshotted st.table = true) :
    Spec Sched.any (Open base) (fun s => Open base s ∧ Clear mutationKeys st s) (exec mutationKeys st)
      (fun _ => Open base) := by
  have hany : Sched.any.mayFail := ⟨[], trivial⟩
  unfold exec
  rw [bind_eq]
  refine Spec.bind (Q := fun tx? s => tx? = s.tx ∧ Open base s ∧ Clear mutationKeys st s)
    (Spec.read fun s hs => ⟨rfl, hs⟩) fun tx? => ?_
  cases tx? with
  | none => exact Spec.throw _ fun s hs => ⟨hs.2.1, hany⟩
  | some tx =>
    intro s fs hs
    -- the tables do not change before the statement runs
    set K := touched mutationKeys st (s.tables st.table) with hK
    have hb : Before base tx st.table s.tables K s := by
      obtain ⟨⟨htx, ho, hc⟩, -⟩ := hs
      refine ⟨ho.1, htx.symm, ho.2 tx htx.symm, ?_, rfl⟩
      rintro k ⟨ks, hks, hk⟩ j hj ht hne
      exact hc tx htx.symm ks hks k hk j hj ht hne
    have hens : Spec Sched.any (Open base) (Before base tx st.table s.tables K) (ensureSnapshot mutationKeys tx st)
        (fun _ s' => ∃ snapshot ks, mutationKeys st (s.tables st.table) = .ok ks ∧
          Saving base ⟨tx.id, st.table, snapshot⟩ s.tables K s' ∧ Recorded ⟨tx.id, st.table, snapshot⟩ (· ∈ ks)
              s') := by
      unfold ensureSnapshot
      split_ifs with hv
      swap
      · exact Spec.throw _ fun s' hs' => ⟨hs'.open, hany⟩
      refine Spec.bind (snapshotOf_spec hv) fun snapshot => ?_
      refine Spec.bind (listMutationKeys_spec st fun s' hs' => ⟨hs'.1, hs'.2.2.2.2⟩) fun ks => ?_
      intro s' fs' hs'
      have hks := hs'.1.1
      exact ((saveKeys_spec ⟨tx.id, st.table, snapshot⟩ ks fun k hk => ⟨ks, hks, hk⟩).conseq (fun _ => id)
        fun _ s'' h => ⟨snapshot, ks, hks, h⟩) s' fs' ⟨hs'.1.2, hs'.2⟩
    have hexec : Spec Sched.any (Open base) (Before base tx st.table s.tables K)
        (do ensureSnapshot mutationKeys tx st; execUnlocked st) (fun _ => Open base) := by
      refine Spec.bind hens fun _ => execUnlocked_spec ?_ ?_
      · rintro s' ⟨snapshot, ks, hks, h, -⟩; exact h.1
      · rintro s' ⟨snapshot, ks, hks, h, hrec⟩; exact h.runStatement hcov hks rfl hrec
    simp only [if_pos hsnap]
    exact hexec s fs ⟨hb, hs.2⟩

end Renop.ClickHouse
