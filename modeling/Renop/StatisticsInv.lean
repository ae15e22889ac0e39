import Renop.Statistics
import Mathlib.Algebra.BigOperators.Group.List.Basic
import Mathlib.Algebra.Order.BigOperators.Group.List

/-!
# No download is lost or counted twice

Every count that was recorded is at one place: with the database, in the map, in the hands of a call,
discarded or removed. `Moved` says that the counts of a key went from one list of places to another;
it is what every step of a call does, as long as the counts of the key stay below `2 ^ 63`. A recorded
download counts one, so they do for the first `2 ^ 63` steps.
-/

namespace Renop.Statistics

open Sql

/-- The counts of the entries of one key, summed up. -/
def amount (k : DownloadKey) (l : List Entry) : Int := (l.map fun e => if e.1 = k then e.2.count.toInt else 0).sum

section Amount
variable {k : DownloadKey} {l l' m r : List Entry} {e : Entry}

@[simp] theorem amount_nil : amount k [] = 0 := rfl

@[simp] theorem amount_cons : amount k (e :: l) = (if e.1 = k then e.2.count.toInt else 0) + amount k l := by
  simp [amount]

@[simp] theorem amount_append : amount k (l ++ m) = amount k l + amount k m := by
  simp [amount]

theorem amount_perm (h : l.Perm m) : amount k l = amount k m := (h.map _).sum_eq

/-- What `BatchIncrementDownloadStatistics` does not pass over. -/
def Countable (e : Entry) : Prop := 0 < e.2.count.toInt ∧ e.1.repository ≠ "" ∧ e.1.format ≠ ""

/-- Every entry of the key counts at least one download of a repository. -/
def Sound (k : DownloadKey) (l : List Entry) : Prop := ∀ e ∈ l, e.1 = k → Countable e

@[simp] theorem sound_nil : Sound k [] := by simp [Sound]

@[simp] theorem sound_append : Sound k (l ++ m) ↔ Sound k l ∧ Sound k m := by
  simp only [Sound, List.mem_append]
  exact ⟨fun h => ⟨fun e he => h e (.inl he), fun e he => h e (.inr he)⟩, fun h e he => he.elim (h.1 e) (h.2 e)⟩

theorem sound_cons : Sound k (e :: l) ↔ (e.1 = k → Countable e) ∧ Sound k l := by
  simp [Sound]

theorem Sound.perm (h : Sound k l) (hp : m.Perm l) : Sound k m := fun e he => h e (hp.subset he)

theorem Sound.amount_nonneg (h : Sound k l) : 0 ≤ amount k l := by
  induction l with
  | nil => simp
  | cons e l ih =>
    rw [sound_cons] at h
    have := ih h.2
    rw [amount_cons]
    split
    · have := (h.1 ‹_›).1
      omega
    · omega

/-- The counts of the key are the same in `l'` as in `l`. -/
def Moved (k : DownloadKey) (l l' : List Entry) : Prop :=
  amount k l < 2 ^ 63 → Sound k l → amount k l' = amount k l ∧ Sound k l'

namespace Moved

theorem of_perm (h : l'.Perm l) : Moved k l l' := fun _ hs => ⟨amount_perm h, hs.perm h⟩

theorem trans (h : Moved k l m) (h' : Moved k m r) : Moved k l r := by
  intro hlt hs
  obtain ⟨ha, hm⟩ := h hlt hs
  obtain ⟨ha', hr⟩ := h' (ha ▸ hlt) hm
  exact ⟨ha'.trans ha, hr⟩

theorem append_right (h : Moved k l l') (r : List Entry) : Moved k (l ++ r) (l' ++ r) := by
  intro hlt hs
  rw [sound_append] at hs
  rw [amount_append] at hlt
  have hr := hs.2.amount_nonneg
  obtain ⟨ha, hl⟩ := h (by omega) hs.1
  exact ⟨by rw [amount_append, amount_append, ha], sound_append.2 ⟨hl, hs.2⟩⟩

end Moved

end Amount

/-! ### The map -/

namespace Pending
variable {k : DownloadKey}

theorem put_cases (t : Pending) (e : Entry) :
    t.find? e.1 = none ∧ (t.put e).rows = t.rows ++ [(e.1, (⟨0, 0, 0⟩ : DownloadValue).add e.2)] ∨
    ∃ pre v post, t.rows = pre ++ (e.1, v) :: post ∧ (t.put e).rows = pre ++ (e.1, v.add e.2) :: post := by
  unfold put
  split
  · rename_i h
    have hnone : t.find? e.1 = none := Table.find?_eq_none.2 h
    exact .inl ⟨hnone, by simp [get, hnone]⟩
  · rename_i h
    push Not at h
    obtain ⟨⟨key, v⟩, hb, rfl⟩ := h
    obtain ⟨pre, post, hrows⟩ := List.append_of_mem hb
    refine .inr ⟨pre, v, post, hrows, ?_⟩
    have hnd := t.nodup
    rw [hrows, List.map_append, List.map_cons, List.nodup_append, List.nodup_cons] at hnd
    -- no other row has this key
    have hpre : ∀ b ∈ pre, b.1 ≠ e.1 := fun b hb => hnd.2.2 b.1 (List.mem_map_of_mem hb) e.1 (by simp)
    have hpost : ∀ b ∈ post, b.1 ≠ e.1 := fun b hb h => hnd.2.1.1 (h ▸ List.mem_map_of_mem hb)
    rw [Table.rows_update, hrows, List.map_append, List.map_cons, if_pos rfl]
    have hkeep : ∀ l : List Entry, (∀ b ∈ l, b.1 ≠ e.1) →
        l.map (fun b => if b.1 = e.1 then (b.1, b.2.add e.2) else b) = l := fun l hl =>
      (List.map_congr_left fun b hb => if_neg (hl b hb)).trans (List.map_id' l)
    rw [hkeep pre hpre, hkeep post hpost]

theorem toInt_add_of_lt {a b : Int64} (ha : 0 ≤ a.toInt) (hb : 0 ≤ b.toInt) (h : a.toInt + b.toInt < 2 ^ 63) :
    (a + b).toInt = a.toInt + b.toInt := by
  rw [Int64.toInt_add]
  exact Int.bmod_eq_of_le (by omega) (by omega)

theorem put_moved (t : Pending) (e : Entry) : Moved k (t.rows ++ [e]) (t.put e).rows := by
  rcases t.put_cases e with ⟨-, hrows⟩ | ⟨pre, v, post, ht, hrows⟩
  · intro _ hs
    have hadd : ((⟨0, 0, 0⟩ : DownloadValue).add e.2).count = e.2.count := Int64.zero_add _
    rw [hrows]
    simp only [sound_append, sound_cons, amount_append, amount_cons, Countable, hadd] at hs ⊢
    exact ⟨trivial, hs⟩
  · intro hlt hs
    rw [hrows]
    rw [ht] at hlt hs ⊢
    simp only [sound_append, sound_cons, amount_append, amount_cons, amount_nil] at hs hlt ⊢
    obtain ⟨⟨hpre, hv, hpost⟩, he, -⟩ := hs
    have h1 := hpre.amount_nonneg
    have h2 := hpost.amount_nonneg
    by_cases hk : e.1 = k
    · rw [if_pos hk, if_pos hk] at hlt
      have hv := hv hk
      have he := he hk
      have hv1 : 0 < v.count.toInt := hv.1
      have he1 : 0 < e.2.count.toInt := he.1
      have hsum := toInt_add_of_lt (a := v.count) (b := e.2.count) (by omega) (by omega) (by omega)
      have hadd : (v.add e.2).count.toInt = v.count.toInt + e.2.count.toInt := hsum
      simp only [if_pos hk, hadd]
      exact ⟨by omega, hpre, fun _ => ⟨show 0 < (v.add e.2).count.toInt by omega, hv.2⟩, hpost⟩
    · simp only [if_neg hk]
      exact ⟨by omega, hpre, fun h => absurd h hk, hpost⟩

theorem foldl_put_moved (batch : List Entry) (t : Pending) : Moved k (t.rows ++ batch) (batch.foldl put t).rows := by
  induction batch generalizing t with
  | nil => exact .of_perm (by simp)
  | cons e batch ih =>
    have := (t.put_moved e (k := k)).append_right batch
    rw [List.append_assoc] at this
    exact this.trans (ih (t.put e))

theorem requeue_moved (maxPendingKeys : Nat) (batch : List Entry) (t : Pending) :
    Moved k (t.rows ++ batch) ((t.requeue maxPendingKeys batch).1.rows ++ (t.requeue maxPendingKeys batch).2) := by
  induction batch generalizing t with
  | nil => exact .of_perm (by simp [requeue])
  | cons e batch ih =>
    unfold requeue
    split
    · have := (ih t).append_right [e]
      refine .trans (.of_perm ?_) (this.trans (.of_perm ?_))
      · rw [List.append_assoc]
        exact (List.perm_append_singleton e batch).append_left t.rows
      · rw [List.append_assoc]
        exact (List.perm_append_singleton e _).symm.append_left _
    · have := (t.put_moved e (k := k)).append_right batch
      rw [List.append_assoc] at this
      exact this.trans (ih (t.put e))

theorem clear_perm (t : Pending) (repository : String) :
    ((t.clear repository).rows ++ (t.ofRepository repository).rows).Perm t.rows := by
  simpa [clear, ofRepository] using (List.perm_append_comm.trans
    (List.filter_append_perm (fun e : Entry => decide (e.1.repository = repository)) t.rows))

theorem length_put_le (t : Pending) (e : Entry) : (t.put e).rows.length ≤ t.rows.length + 1 := by
  rcases t.put_cases e with ⟨-, h⟩ | ⟨_, _, _, ht, h⟩ <;> rw [h]
  · simp
  · simp [ht]

theorem length_put {t : Pending} {e : Entry} {n : Nat} (hn : t.rows.length ≤ n) (h : ¬ t.full n e.1) :
    (t.put e).rows.length ≤ n := by
  rcases t.put_cases e with ⟨hf, hrows⟩ | ⟨_, _, _, ht, hrows⟩
  · have : t.rows.length < n := Nat.lt_of_not_le fun hle => h ⟨hf, hle⟩
    simp only [hrows, List.length_append, List.length_cons, List.length_nil]
    omega
  · rw [ht] at hn
    simpa [hrows] using hn

theorem length_foldl_put (batch : List Entry) (t : Pending) :
    (batch.foldl put t).rows.length ≤ t.rows.length + batch.length := by
  induction batch generalizing t with
  | nil => simp
  | cons e batch ih =>
    have h1 := ih (t.put e)
    have h2 := t.length_put_le e
    simp only [List.foldl_cons, List.length_cons]
    omega

theorem length_requeue {n : Nat} (batch : List Entry) {t : Pending} (hn : t.rows.length ≤ n) :
    (t.requeue n batch).1.rows.length ≤ n := by
  induction batch generalizing t with
  | nil => exact hn
  | cons e batch ih =>
    unfold requeue
    split
    · exact ih hn
    · exact ih (length_put hn ‹_›)

end Pending

/-! ### One step of a call -/

/-- The places that belong to no call. -/
def Shared.places (s : Shared) : List Entry := s.stored ++ s.counter.pending.rows ++ s.discarded ++ s.removed

theorem filter_counted_moved (k : DownloadKey) (l : List Entry) : Moved k l (l.filter counted) := by
  intro hlt hs
  refine ⟨?_, fun e he => hs e (List.mem_filter.1 he).1⟩
  clear hlt
  induction l with
  | nil => rfl
  | cons e l ih =>
    rw [sound_cons] at hs
    by_cases he : e.1 = k
    · obtain ⟨hpos, hrepository, hformat⟩ := hs.1 he
      have hcount : counted e = true := by
        have : (0 : Int64) < e.2.count := Int64.lt_iff_toInt_lt.2 (by simpa using hpos)
        simp [counted, this, hrepository, hformat]
      rw [List.filter_cons_of_pos hcount, amount_cons, amount_cons, ih hs.2]
    · by_cases hc : counted e
      · rw [List.filter_cons_of_pos hc, amount_cons, amount_cons, ih hs.2]
      · rw [List.filter_cons_of_neg hc, amount_cons, if_neg he, ih hs.2, Int.zero_add]

theorem perm_of_count {l m : List Entry} (h : ∀ e, l.count e = m.count e) : l.Perm m := List.perm_iff_count.2 h

/-- What a step does with the counts of a key: `Record` brings a new entry, and nothing else changes the sum. -/
theorem Call.next_moved {text : Cargo.Text} {k : DownloadKey} {s s' : Shared} {c : Choice} {call call' : Call}
    (h : call.next text s c = some (s', call')) :
    ∃ new : Option Entry, s'.recorded = s.recorded ++ new.toList ∧ (∀ e ∈ new, call = .record e) ∧
      Moved k (s.places ++ call.held ++ new.toList) (s'.places ++ call'.held) := by
  cases call with
  | record e =>
    simp only [next] at h
    split at h
    · cases h
    · split at h
      · cases h
        exact ⟨some e, rfl, by simp, .of_perm (by simp [Shared.places, held])⟩
      · cases h
        refine ⟨some e, rfl, by simp, ?_⟩
        have := (s.counter.pending.put_moved e (k := k)).append_right (s.stored ++ s.discarded ++ s.removed)
        refine .trans (.of_perm ?_) (this.trans (.of_perm ?_))
        · exact perm_of_count fun a => by simp [Shared.places, held, List.count_cons]; omega
        · exact perm_of_count fun a => by simp [Shared.places, Shared.setPending, held]; omega
  | drop entries flushing =>
    simp only [next] at h
    cases h
    refine ⟨none, by simp, by simp, .of_perm ?_⟩
    refine perm_of_count fun a => ?_
    cases flushing <;> simp [Shared.places, held] <;> omega
  | flush =>
    simp only [next] at h
    split at h
    · cases h
    · cases h
      exact ⟨none, by simp [Shared.setFlushMu], by simp, .of_perm (by simp [Shared.places, Shared.setFlushMu, held])⟩
  | detach =>
    simp only [next] at h
    split at h
    · cases h
    · cases h
      refine ⟨none, by simp [Shared.setPending], by simp, .of_perm (perm_of_count fun a => ?_)⟩
      split <;> simp_all [Shared.places, Shared.setPending, held]
      omega
  | store batch =>
    simp only [next] at h
    split at h
    · cases h
      refine ⟨none, by simp, by simp, ?_⟩
      have := (filter_counted_moved k batch.rows).append_right s.places
      refine .trans (.of_perm ?_) (this.trans (.of_perm ?_))
      · exact perm_of_count fun a => by simp [Shared.places, held]; omega
      · exact perm_of_count fun a => by simp [Shared.places, held]; omega
    · cases h
      exact ⟨none, by simp, by simp, .of_perm (by simp [held])⟩
  | requeue batch =>
    simp only [next] at h
    split at h
    · cases h
    · split at h
      · rename_i hperm
        have := (s.counter.pending.requeue_moved (k := k) s.counter.maxPendingKeys c.order).append_right
          (s.stored ++ s.discarded ++ s.removed)
        have hcount := fun a => (List.perm_iff_count.1 hperm) a
        split at h <;> cases h
        all_goals
          refine ⟨none, by simp [Shared.setPending], by simp, .trans (.of_perm ?_) (this.trans (.of_perm ?_))⟩
          · exact perm_of_count fun a => by simp [Shared.places, held, hcount a]; omega
          · exact perm_of_count fun a => by simp [Shared.places, Shared.setPending, held]; omega
      · cases h
  | report =>
    simp only [next] at h
    cases h
    exact ⟨none, by simp, by simp, .of_perm (by simp [Shared.places, held])⟩
  | reset repository =>
    simp only [next] at h
    split at h
    · cases h
    · split at h <;> cases h
      · exact ⟨none, by simp [Shared.setFlushMu], by simp, .of_perm (by simp [Shared.places, Shared.setFlushMu, held])⟩
      · exact ⟨none, by simp, by simp, .of_perm (by simp [held])⟩
  | remove repository =>
    simp only [next] at h
    split at h
    · cases h
    · cases h
      refine ⟨none, by simp [Shared.setPending, Shared.setMu], by simp, .of_perm (perm_of_count fun a => ?_)⟩
      have := List.perm_iff_count.1 (s.counter.pending.clear_perm repository) a
      simp only [List.count_append] at this
      simp [Shared.places, Shared.setPending, Shared.setMu, held]
      omega
  | clear repository removed =>
    simp only [next] at h
    split at h
    · cases h
      refine ⟨none, by simp [Shared.setMu, Shared.setFlushMu], by simp, .of_perm (perm_of_count fun a => ?_)⟩
      have := List.perm_iff_count.1 (List.filter_append_perm
        (fun e : Entry => decide (e.1.repository = text.toLower (text.trimSpace repository))) s.stored) a
      simp only [List.count_append] at this
      simp [Shared.places, Shared.setMu, Shared.setFlushMu, held]
      omega
    · split at h
      · rename_i hperm
        cases h
        have := (Pending.foldl_put_moved (k := k) c.order s.counter.pending).append_right
          (s.stored ++ s.discarded ++ s.removed)
        have hcount := fun a => (List.perm_iff_count.1 hperm) a
        refine ⟨none, by simp [Shared.setPending, Shared.setMu, Shared.setFlushMu], by simp,
          .trans (.of_perm ?_) (this.trans (.of_perm ?_))⟩
        · exact perm_of_count fun a => by simp [Shared.places, held, hcount a]; omega
        · exact perm_of_count fun a => by
            simp [Shared.places, Shared.setPending, Shared.setMu, Shared.setFlushMu, held]
            omega
      · cases h
  | done => cases h

theorem Call.next_ne_record {text : Cargo.Text} {s s' : Shared} {c : Choice} {call call' : Call}
    (h : call.next text s c = some (s', call')) (e : Entry) : call' ≠ .record e := by
  cases call with
  | drop entries flushing =>
    cases h
    cases flushing <;> nofun
  | detach =>
    simp only [next] at h
    split at h
    · cases h
    · cases h
      split <;> nofun
  | _ =>
    simp only [next] at h
    repeat' split at h
    all_goals cases h <;> nofun

/-- `ResetDownloadStatistics` runs under `mu`. -/
def Call.clearing : Call → Bool
  | clear _ _ => true
  | _ => false

/-- The places of the map that a reset has to be able to take back. -/
def Call.taken : Call → Nat
  | clear _ removed => removed.rows.length
  | _ => 0

theorem Call.taken_eq_zero {call : Call} (h : call.clearing = false) : call.taken = 0 := by
  cases call <;> first | rfl | cases h

/-- A step that touches the map holds `mu`, and keeps within the limit. -/
theorem Call.next_length {text : Cargo.Text} {s s' : Shared} {c : Choice} {call call' : Call}
    (h : call.next text s c = some (s', call')) (hmu : call.clearing = true → s.counter.mu = true) :
    s'.counter.maxPendingKeys = s.counter.maxPendingKeys ∧
    s'.counter.mu.toNat + call.clearing.toNat = s.counter.mu.toNat + call'.clearing.toNat ∧
    (s'.counter.pending = s.counter.pending ∧ call'.clearing = false ∨
      (s.counter.mu = false ∨ call.clearing = true) ∧
      (s.counter.pending.rows.length + call.taken ≤ s.counter.maxPendingKeys →
        s'.counter.pending.rows.length + call'.taken ≤ s.counter.maxPendingKeys)) := by
  cases call with
  | record e =>
    simp only [next] at h
    split at h
    · cases h
    · rename_i hfree
      split at h <;> cases h
      · exact ⟨rfl, by simp [clearing], .inl ⟨rfl, rfl⟩⟩
      · exact ⟨rfl, by simp [clearing, Shared.setPending], .inr ⟨.inl (by simpa using hfree), fun hlen =>
          Pending.length_put hlen ‹_›⟩⟩
  | drop entries flushing =>
    simp only [next] at h
    cases h
    cases flushing <;> exact ⟨rfl, by simp [clearing], .inl ⟨rfl, rfl⟩⟩
  | flush =>
    simp only [next] at h
    split at h <;> cases h
    exact ⟨rfl, by simp [clearing, Shared.setFlushMu], .inl ⟨rfl, rfl⟩⟩
  | detach =>
    simp only [next] at h
    split at h
    · cases h
    · rename_i hfree
      cases h
      refine ⟨rfl, ?_, .inr ⟨.inl (by simpa using hfree), fun _ => ?_⟩⟩
      · split <;> simp [clearing, Shared.setPending]
      · split <;> simp [taken, Shared.setPending]
  | store batch =>
    simp only [next] at h
    split at h <;> cases h <;> exact ⟨rfl, by simp [clearing], .inl ⟨rfl, rfl⟩⟩
  | requeue batch =>
    simp only [next] at h
    split at h
    · cases h
    · rename_i hfree
      split at h
      · split at h <;> cases h <;>
          exact ⟨rfl, by simp [clearing, Shared.setPending], .inr ⟨.inl (by simpa using hfree), fun hlen =>
            Pending.length_requeue c.order hlen⟩⟩
      · cases h
  | report =>
    simp only [next] at h
    cases h
    exact ⟨rfl, by simp [clearing], .inl ⟨rfl, rfl⟩⟩
  | reset repository =>
    simp only [next] at h
    split at h
    · cases h
    · split at h <;> cases h <;> exact ⟨rfl, by simp [clearing, Shared.setFlushMu], .inl ⟨rfl, rfl⟩⟩
  | remove repository =>
    simp only [next] at h
    split at h
    · cases h
    · rename_i hfree
      cases h
      have hfree : s.counter.mu = false := by simpa using hfree
      refine ⟨rfl, by simp [clearing, Shared.setPending, Shared.setMu, hfree], .inr ⟨.inl hfree, fun hlen => ?_⟩⟩
      have := (s.counter.pending.clear_perm repository).length_eq
      rw [List.length_append] at this
      exact this.symm ▸ hlen
  | clear repository removed =>
    have hheld := hmu rfl
    simp only [next] at h
    split at h
    · cases h
      refine ⟨rfl, by simp [clearing, Shared.setMu, Shared.setFlushMu, hheld], .inr ⟨.inr rfl, fun hlen => ?_⟩⟩
      exact Nat.le_trans (Nat.le_add_right _ _) hlen
    · split at h
      · rename_i hperm
        cases h
        refine ⟨rfl, by simp [clearing, Shared.setPending, Shared.setMu, Shared.setFlushMu, hheld],
          .inr ⟨.inr rfl, fun hlen => ?_⟩⟩
        have hle := Pending.length_foldl_put c.order s.counter.pending
        rw [hperm.length_eq] at hle
        exact hle.trans hlen
      · cases h
  | done => cases h

/-! ### Runs -/

namespace World

def places (w : World) : List Entry := w.shared.places ++ w.calls.flatMap Call.held

/-- The counts of `k`, as long as `Int64` holds them, are all somewhere. -/
structure Conserved (k : DownloadKey) (w : World) : Prop where
  normalized : ∀ e, Call.record e ∈ w.calls → e.2.count = 1 ∧ Countable e
  one : ∀ e ∈ w.shared.recorded, e.2.count = 1
  books : amount k w.shared.recorded < 2 ^ 63 →
    amount k w.places = amount k w.shared.recorded ∧ Sound k w.places

/-- The map stays within `n` keys, also when a reset puts back what it took. -/
structure Bounded (n : Nat) (w : World) : Prop where
  max : w.shared.counter.maxPendingKeys = n
  held : (w.calls.map fun call => call.clearing.toNat).sum = w.shared.counter.mu.toNat
  length : w.shared.counter.pending.rows.length + (w.calls.map Call.taken).sum ≤ n

section Run
variable {text : Cargo.Text} {k : DownloadKey} {n : Nat} {w : World}

/-- The names of the formats are what `TrimSpace` and `ToLower` leave alone. -/
def PlainFormats (text : Cargo.Text) : Prop :=
  ∀ f ∈ ["maven", "cargo", "files", "npm", "docker"], text.trimSpace f = f ∧ text.toLower f = f

theorem startRecord_record (htext : PlainFormats text) {event : DownloadStatisticDelta} {now : Int64}
    (hformat : event.format ∈ ["maven", "cargo", "files", "npm", "docker"]) (hcount : event.count = 0) {e : Entry}
    (h : startRecord text event now = .record e) : e.2.count = 1 ∧ Countable e := by
  have hbounded : text.toLower (boundedStatisticValue text event.format 32) = event.format := by
    obtain ⟨htrim, hlower⟩ := htext _ hformat
    have hsize : event.format.utf8ByteSize ≤ 32 := by
      revert hformat
      simp only [List.mem_cons, List.not_mem_nil, or_false]
      rintro (h | h | h | h | h) <;> rw [h] <;> decide
    unfold boundedStatisticValue
    rw [htrim, if_pos hsize, hlower]
  have hne : event.format ≠ "" ∧ event.format ≠ "maven-classic" := by
    revert hformat
    simp only [List.mem_cons, List.not_mem_nil, or_false]
    rintro (h | h | h | h | h) <;> rw [h] <;> decide
  unfold startRecord at h
  split at h
  · rename_i x hx
    cases h
    unfold normalizeDownloadEvent at hx
    simp only [hbounded, hcount, if_neg hne.2] at hx
    split at hx
    · cases hx
    · rename_i hno
      push Not at hno
      cases hx
      exact ⟨rfl, show 0 < (1 : Int64).toInt by decide, hno.1, hne.1⟩
  · cases h

theorem startRecord_cases (text : Cargo.Text) (event : DownloadStatisticDelta) (now : Int64) :
    startRecord text event now = .done ∨ ∃ e, startRecord text event now = .record e := by
  unfold startRecord
  split
  exacts [.inr ⟨_, rfl⟩, .inl rfl]

theorem start_record (htext : PlainFormats text) {op : Op} {e : Entry} (h : op.start text = .record e) :
    e.2.count = 1 ∧ Countable e := by
  cases op with
  | recordRepositoryDownload repo username ns package version bytes now =>
    simp only [Op.start] at h
    split at h
    · rename_i event hevent
      unfold repositoryDownload at hevent
      simp only at hevent
      split at hevent
      · rename_i hformat
        cases hevent
        refine startRecord_record htext ?_ rfl h
        simp only [List.mem_cons, List.not_mem_nil, or_false] at hformat ⊢
        tauto
      · cases hevent
    · cases h
  | recordDockerPull repo username imageName reference size now =>
    exact startRecord_record htext (by simp [dockerPull]) rfl h
  | flush => cases h
  | resetRepository repository =>
    simp only [Op.start] at h
    split at h <;> cases h

theorem start_idle (text : Cargo.Text) (op : Op) :
    (op.start text).held = [] ∧ (op.start text).clearing = false ∧ (op.start text).taken = 0 := by
  have hrecord : ∀ event now, (startRecord text event now).held = [] ∧ (startRecord text event now).clearing = false ∧
      (startRecord text event now).taken = 0 := by
    intro event now
    rcases startRecord_cases text event now with h | ⟨e, h⟩ <;> rw [h] <;> exact ⟨rfl, rfl, rfl⟩
  cases op with
  | recordRepositoryDownload repo username ns package version bytes now =>
    simp only [Op.start]
    split
    exacts [hrecord _ _, ⟨rfl, rfl, rfl⟩]
  | recordDockerPull repo username imageName reference size now => exact hrecord _ _
  | flush => exact ⟨rfl, rfl, rfl⟩
  | resetRepository repository =>
    simp only [Op.start]
    split <;> exact ⟨rfl, rfl, rfl⟩

theorem next_step {m : Nat} {c : Choice} (h : w.next text (.step m c) ≠ w) :
    ∃ pre call post s call', w.calls = pre ++ call :: post ∧ call.next text w.shared c = some (s, call') ∧
      w.next text (.step m c) = ⟨s, pre ++ call' :: post⟩ := by
  unfold next at h ⊢
  cases hc : w.calls[m]? with
  | none => simp [hc] at h
  | some call =>
    simp only [hc] at h ⊢
    cases hn : call.next text w.shared c with
    | none => simp [hn] at h
    | some r =>
      obtain ⟨hm, hget⟩ := List.getElem?_eq_some_iff.1 hc
      refine ⟨w.calls.take m, call, w.calls.drop (m + 1), r.1, r.2, ?_, hn, ?_⟩
      · rw [← hget, List.cons_getElem_drop_succ, List.take_append_drop]
      · simp [List.set_eq_take_append_cons_drop, hm]

theorem Conserved.next (hw : Conserved k w) (htext : PlainFormats text) (e : Event) : Conserved k (w.next text e) := by
  cases e with
  | call op =>
    obtain ⟨hheld, -⟩ := start_idle text op
    refine ⟨fun e he => ?_, hw.one, fun hlt => ?_⟩
    · rcases List.mem_append.1 he with he | he
      · exact hw.normalized e he
      · exact start_record htext (List.mem_singleton.1 he).symm
    · have := hw.books hlt
      simpa [World.next, places, hheld] using this
  | step m c =>
    by_cases hsame : w.next text (.step m c) = w
    · exact hsame.symm ▸ hw
    · obtain ⟨pre, call, post, s, call', hcalls, hnext, heq⟩ := next_step hsame
      rw [heq]
      obtain ⟨new, hrecorded, hnew, hmoved⟩ := call.next_moved (k := k) hnext
      have hnormal : ∀ e ∈ new.toList, e.2.count = 1 ∧ Countable e := fun e he =>
        hw.normalized e (by rw [hcalls]; simp [hnew e (Option.mem_toList.1 he)])
      have hsound : Sound k new.toList := fun e he _ => (hnormal e he).2
      refine ⟨fun e he => ?_, fun e he => ?_, fun hlt => ?_⟩
      · simp only [List.mem_append, List.mem_cons] at he
        rcases he with he | he | he
        · exact hw.normalized e (by simp [hcalls, he])
        · exact absurd he.symm (Call.next_ne_record hnext e)
        · exact hw.normalized e (by simp [hcalls, he])
      · simp only [hrecorded, List.mem_append] at he
        exact he.elim (hw.one e) fun he => (hnormal e he).1
      · have hpos := hsound.amount_nonneg
        simp only [hrecorded, amount_append] at hlt
        obtain ⟨ha, hs⟩ := hw.books (by omega)
        have hperm : w.places.Perm (w.shared.places ++ call.held ++ (pre ++ post).flatMap Call.held) :=
          perm_of_count fun a => by simp [places, hcalls]; omega
        have hperm' : (World.mk s (pre ++ call' :: post)).places.Perm
            (s.places ++ call'.held ++ (pre ++ post).flatMap Call.held) :=
          perm_of_count fun a => by simp [places]; omega
        have hbefore : amount k (w.shared.places ++ call.held ++ new.toList ++ (pre ++ post).flatMap Call.held) =
            amount k w.shared.recorded + amount k new.toList := by
          rw [amount_perm hperm] at ha
          simp only [amount_append] at ha ⊢
          omega
        obtain ⟨ha', hs'⟩ := hmoved.append_right ((pre ++ post).flatMap Call.held) (by omega) (by
          have := hs.perm hperm.symm
          simp only [sound_append] at this ⊢
          exact ⟨⟨this.1, hsound⟩, this.2⟩)
        refine ⟨?_, hs'.perm hperm'⟩
        rw [amount_perm hperm', ha', hbefore, hrecorded, amount_append]

theorem Bounded.next (hw : Bounded n w) (e : Event) : Bounded n (w.next text e) := by
  cases e with
  | call op =>
    obtain ⟨-, hclearing, htaken⟩ := start_idle text op
    exact ⟨hw.max, by simpa [World.next, hclearing] using hw.held, by simpa [World.next, htaken] using hw.length⟩
  | step m c =>
    by_cases hsame : w.next text (.step m c) = w
    · exact hsame.symm ▸ hw
    · obtain ⟨pre, call, post, s, call', hcalls, hnext, heq⟩ := next_step hsame
      rw [heq]
      have hheld := hw.held
      have hlength := hw.length
      simp only [hcalls, List.map_append, List.map_cons, List.sum_append, List.sum_cons] at hheld hlength
      have hone := Bool.toNat_le w.shared.counter.mu
      obtain ⟨hmax, hmu, hpending⟩ := Call.next_length hnext fun hc => by
        rw [hc, Bool.toNat_true] at hheld
        exact Bool.toNat_eq_one.1 (by omega)
      refine ⟨hmax.trans hw.max, ?_, ?_⟩
      · simp only [List.map_append, List.map_cons, List.sum_append, List.sum_cons]
        omega
      · simp only [List.map_append, List.map_cons, List.sum_append, List.sum_cons]
        rcases hpending with ⟨hsame, hclearing⟩ | ⟨hexcl, hlen⟩
        · rw [hsame, Call.taken_eq_zero hclearing]
          omega
        · have hothers : ∀ l : List Call, (l.map fun call => call.clearing.toNat).sum = 0 →
              (l.map Call.taken).sum = 0 := by
            intro l hl
            rw [List.sum_eq_zero_iff_forall_eq_nat] at hl ⊢
            intro x hx
            obtain ⟨call, hcall, rfl⟩ := List.mem_map.1 hx
            exact Call.taken_eq_zero (Bool.toNat_eq_zero.1 (hl _ (List.mem_map_of_mem hcall)))
          have hfree : w.shared.counter.mu.toNat ≤ call.clearing.toNat := by
            rcases hexcl with hf | hc
            · simp [hf]
            · simpa [hc] using hone
          rw [hothers pre (by omega), hothers post (by omega)] at hlength ⊢
          rw [hw.max] at hlen
          have := hlen (by omega)
          omega

end Run

def plainText : Cargo.Text := ⟨id, id, fun _ => true, fun _ => ""⟩

def releases : Repository := ⟨"releases", "files"⟩

end World

end Renop.Statistics
