import Renop.FileCache
import Mathlib.Algebra.Order.BigOperators.Group.Finset
import Mathlib.Data.Fintype.BigOperators

/-!
# The file cache keeps its books

`Books` is the invariant: `used` is the size of all entries, an entry is in the shard of its key, and every key
with an entry is in the eviction order of its shard. With it an eviction removes an entry whenever there is one
other than the protected one, which bounds the rounds of both loops.
-/

namespace Renop.FileCache

open Sql

namespace Entries
variable {t : Entries} {key k : String} {entry : Entry}

theorem mem_remove {e : String × Entry} : e ∈ (t.remove key).rows ↔ e ∈ t.rows ∧ e.1 ≠ key := by
  simp [remove]

theorem mem_assign {e : String × Entry} :
    e ∈ (t.assign key entry).rows ↔ e = (key, entry) ∨ e ∈ t.rows ∧ e.1 ≠ key := by
  simp [assign, mem_remove, or_comm]

theorem rows_remove_of_find? (h : t.find? key = none) : (t.remove key).rows = t.rows := by
  rw [remove, Table.rows_delete, List.filter_eq_self]
  intro e he
  simpa using Table.find?_eq_none.1 h e he

theorem perm_remove {e : String × Entry} (h : t.find? key = some e) : t.rows.Perm (e :: (t.remove key).rows) := by
  obtain ⟨he, rfl⟩ := Table.find?_eq_some.1 h
  obtain ⟨pre, post, hrows⟩ := List.append_of_mem he
  have hnd := t.nodup
  rw [hrows, List.map_append, List.map_cons, List.nodup_append, List.nodup_cons] at hnd
  have hpre : pre.filter (fun b => !decide (b.1 = e.1)) = pre := by
    rw [List.filter_eq_self]
    intro b hb
    simpa using hnd.2.2 b.1 (List.mem_map_of_mem hb) e.1 (by simp)
  have hpost : post.filter (fun b => !decide (b.1 = e.1)) = post := by
    rw [List.filter_eq_self]
    intro b hb
    simpa using fun h : b.1 = e.1 => hnd.2.1.1 (h ▸ List.mem_map_of_mem hb)
  rw [remove, Table.rows_delete, hrows, List.filter_append, List.filter_cons_of_neg (by simp), hpre, hpost]
  exact List.perm_middle

theorem bytes_remove {e : String × Entry} (h : t.find? key = some e) : t.bytes = e.2.size + (t.remove key).bytes := by
  unfold bytes
  rw [((perm_remove h).map _).sum_eq, List.map_cons, List.sum_cons]

theorem length_remove {e : String × Entry} (h : t.find? key = some e) :
    t.rows.length = (t.remove key).rows.length + 1 := by
  rw [(perm_remove h).length_eq, List.length_cons]

theorem bytes_assign : (t.assign key entry).bytes = (t.remove key).bytes + entry.size := by
  simp [bytes, assign]

theorem find?_isSome : (t.find? key).isSome ↔ ∃ e ∈ t.rows, e.1 = key := by
  cases h : t.find? key with
  | none => exact iff_of_false (by simp) fun ⟨e, he, hk⟩ => Table.find?_eq_none.1 h e he hk
  | some e => exact iff_of_true rfl ⟨e, Table.find?_eq_some.1 h⟩

end Entries

namespace Shard
variable {s s' : Shard} {protect : String}

/-- Every key with an entry is in the eviction order. -/
def Ordered (s : Shard) : Prop := ∀ e ∈ s.entries.rows, e.1 ∈ s.order

theorem ordered_compact (h : s.Ordered) : s.compactOrderLocked.Ordered := by
  unfold compactOrderLocked
  split
  · rename_i hnil
    intro e he
    simp [hnil] at he
  · split
    · exact h
    · intro e he
      have hsome : (s.entries.find? e.1).isSome := Entries.find?_isSome.2 ⟨e, he, rfl⟩
      exact List.mem_filter.2 ⟨h e he, hsome⟩

@[simp] theorem entries_compact : s.compactOrderLocked.entries = s.entries := by
  unfold compactOrderLocked
  split
  · rfl
  · split <;> rfl

/-- What an eviction may do: keep the entries, or remove one that is not protected. -/
def Evicted (protect : String) (s s' : Shard) : Option Entry → Prop
  | none => s'.entries = s.entries
  | some v => ∃ k, k ≠ protect ∧ s.entries.find? k = some (k, v) ∧ s'.entries = s.entries.remove k

theorem Evicted.subset {r : Option Entry} (h : Evicted protect s s' r) :
    (∀ e ∈ s'.entries.rows, e ∈ s.entries.rows) ∧ ∀ e ∈ s.entries.rows, e.1 = protect →
      e ∈ s'.entries.rows := by
  cases r with
  | none =>
    have hsame : s'.entries = s.entries := h
    rw [hsame]
    exact ⟨fun _ he => he, fun _ he _ => he⟩
  | some v =>
    obtain ⟨k, hk, -, hrm⟩ := h
    rw [hrm]
    exact ⟨fun e he => (Entries.mem_remove.1 he).1, fun e he hp => Entries.mem_remove.2 ⟨he, hp ▸ hk.symm⟩⟩

theorem Evicted.removed {v : Entry} (h : Evicted protect s s' (some v)) :
    s.entries.bytes = v.size + s'.entries.bytes ∧ s.entries.rows.length = s'.entries.rows.length + 1 := by
  obtain ⟨k, -, hf, hrm⟩ := h
  rw [hrm]
  exact ⟨Entries.bytes_remove hf, Entries.length_remove hf⟩

theorem popOrder_spec {fuel : Nat} {r : Option Entry} (h : s.popOrder protect fuel = some (s', r)) (ho : s.Ordered) :
    s'.Ordered ∧ Evicted protect s s' r ∧ (r = none → s.entries.rows.length ≤ 1) := by
  induction fuel generalizing s with
  | zero => cases h
  | succ fuel ih =>
    unfold popOrder at h
    split at h
    · rename_i hnil
      have hempty : s.entries.rows = [] := List.eq_nil_iff_forall_not_mem.2 fun e he => by
        simpa [hnil] using ho e he
      cases h
      exact ⟨ho, rfl, fun _ => by simp [hempty]⟩
    · rename_i k order horder
      split at h
      · rename_i hk
        have ho' : Ordered { s with order := order ++ [k] } := by
          intro e he
          have := ho e he
          rw [horder] at this
          simpa [or_comm] using this
        simp only at h
        split at h
        · rename_i hlen
          cases h
          exact ⟨ho', rfl, fun _ => hlen⟩
        · exact ih (s := ⟨s.entries, order ++ [k]⟩) h ho'
      · rename_i hk
        split at h
        · rename_i e he
          cases h
          obtain ⟨hmem, hkey⟩ := Table.find?_eq_some.1 he
          refine ⟨fun b hb => ?_, ⟨k, hk, hkey ▸ he, rfl⟩, nofun⟩
          obtain ⟨hb, hne⟩ := Entries.mem_remove.1 hb
          have := ho b hb
          rw [horder] at this
          exact (List.mem_cons.1 this).resolve_left hne
        · rename_i hstale
          refine ih (s := ⟨s.entries, order⟩) h fun b hb => ?_
          have := ho b hb
          rw [horder] at this
          exact (List.mem_cons.1 this).resolve_left fun hb' => Table.find?_eq_none.1 hstale b hb hb'

/-- The rounds of the loop: up to the first key with an entry that is not protected, or through the whole order
when at most one entry is left. -/
theorem popOrder_isSome {fuel : Nat} (h : s.entries.rows.length ≤ 1 ∧ s.order.length < fuel ∨
      ∃ pre k post, s.order = pre ++ k :: post ∧ k ≠ protect ∧ (s.entries.find? k).isSome ∧ pre.length < fuel) :
    (s.popOrder protect fuel).isSome := by
  induction fuel generalizing s with
  | zero =>
    rcases h with ⟨-, h⟩ | ⟨_, _, _, -, -, -, h⟩ <;> omega
  | succ fuel ih =>
    unfold popOrder
    split
    · rfl
    · rename_i k order horder
      split
      · rename_i hk
        simp only
        split
        · rfl
        · rename_i hlen
          refine ih (.inr ?_)
          rcases h with ⟨h, -⟩ | ⟨pre, k', post, hord, hk', hlive, hfuel⟩
          · exact absurd h hlen
          · cases pre with
            | nil =>
              rw [horder] at hord
              cases hord
              exact absurd hk hk'
            | cons a pre =>
              rw [horder] at hord
              cases hord
              exact ⟨pre, k', post ++ [k], by simp, hk', hlive, by simpa using hfuel⟩
      · split
        · rfl
        · rename_i hk hstale
          refine ih ?_
          rcases h with ⟨hlen, hfuel⟩ | ⟨pre, k', post, hord, hk', hlive, hfuel⟩
          · rw [horder] at hfuel
            exact .inl ⟨hlen, by simpa using hfuel⟩
          · cases pre with
            | nil =>
              rw [horder] at hord
              cases hord
              simp [hstale] at hlive
            | cons a pre =>
              rw [horder] at hord
              cases hord
              exact .inr ⟨pre, k', post, rfl, hk', hlive, by simpa using hfuel⟩

/-- An eviction returns, and removes an entry unless there is none but the protected one. -/
theorem evictOneLocked_spec (ho : s.Ordered) (protect : String) :
    ∃ s' r, s.evictOneLocked protect = some (s', r) ∧ s'.Ordered ∧ Evicted protect s s' r ∧
      (r = none → ∀ e ∈ s.entries.rows, e.1 = protect) := by
  have hsome : (s.popOrder protect (s.order.length + 1)).isSome := by
    refine popOrder_isSome ?_
    by_cases hlen : s.entries.rows.length ≤ 1
    · exact .inl ⟨hlen, Nat.lt_succ_self _⟩
    · -- of two entries one is not protected
      have hother : ∃ e ∈ s.entries.rows, e.1 ≠ protect := by
        by_contra hall
        push Not at hall
        match hrows : s.entries.rows with
        | [] => simp [hrows] at hlen
        | [_] => simp [hrows] at hlen
        | a :: b :: _ =>
          have hnd := s.entries.nodup
          rw [hrows] at hnd hall
          simp [hall a (by simp), hall b (by simp)] at hnd
      obtain ⟨e, he, hne⟩ := hother
      obtain ⟨pre, post, hord⟩ := List.append_of_mem (ho e he)
      refine .inr ⟨pre, e.1, post, hord, hne, Entries.find?_isSome.2 ⟨e, he, rfl⟩, ?_⟩
      rw [hord, List.length_append]
      omega
  obtain ⟨⟨s₁, r⟩, hpop⟩ := Option.isSome_iff_exists.1 hsome
  obtain ⟨ho₁, hevicted, -⟩ := popOrder_spec hpop ho
  unfold evictOneLocked
  rw [hpop]
  cases r with
  | some v => exact ⟨s₁, some v, rfl, ho₁, hevicted, nofun⟩
  | none =>
    have hsame : s₁.entries = s.entries := hevicted
    dsimp only
    cases hf : s₁.entries.rows.find? fun e => e.1 ≠ protect with
    | none =>
      refine ⟨s₁, none, rfl, ho₁, hsame, fun _ e he => ?_⟩
      rw [hsame] at hf
      simpa using List.find?_eq_none.1 hf e he
    | some e =>
      obtain ⟨k, v⟩ := e
      have hne : k ≠ protect := by simpa using List.find?_some hf
      have hmem : (k, v) ∈ s.entries.rows := hsame ▸ List.mem_of_find?_eq_some hf
      refine ⟨_, some v, rfl, fun b hb => ?_, ⟨k, hne, Table.find?_eq_some.2 ⟨hmem, rfl⟩, by rw [← hsame]⟩,
        nofun⟩
      exact ho₁ b (Entries.mem_remove.1 hb).1

end Shard

/-! ### The whole cache -/

namespace FileByteCache
variable {c c' : FileByteCache} {protect : String}

/-- `used` is the size of all entries, and every shard holds keys of its own, all of them in its order. -/
structure Books (c : FileByteCache) : Prop where
  used : c.used = ∑ i, (c.shards i).entries.bytes
  placed : ∀ i, ∀ e ∈ (c.shards i).entries.rows, shardOf e.1 = i
  ordered : ∀ i, (c.shards i).Ordered

/-- The entries of `c'` are entries of `c`, and that of `protect` is still there. -/
structure Kept (protect : String) (c c' : FileByteCache) : Prop where
  maxBytes : c'.maxBytes = c.maxBytes
  remote : c'.remote = c.remote
  subset : ∀ i, ∀ e ∈ (c'.shards i).entries.rows, e ∈ (c.shards i).entries.rows
  keeps : ∀ i, ∀ e ∈ (c.shards i).entries.rows, e.1 = protect → e ∈ (c'.shards i).entries.rows

theorem Kept.refl (protect : String) (c : FileByteCache) : Kept protect c c :=
  ⟨rfl, rfl, fun _ _ h => h, fun _ _ h _ => h⟩

theorem Kept.trans {c'' : FileByteCache} (h : Kept protect c c') (h' : Kept protect c' c'') : Kept protect c c'' :=
  ⟨h'.maxBytes.trans h.maxBytes, h'.remote.trans h.remote, fun i e he => h.subset i e (h'.subset i e he),
    fun i e he hk => h'.keeps i e (h.keeps i e he hk) hk⟩

theorem sum_update (f : Shard → Nat) (i : Fin fileCacheShardCount) (s : Shard) :
    (∑ j, f (Function.update c.shards i s j)) + f (c.shards i) = (∑ j, f (c.shards j)) + f s := by
  rw [← Finset.add_sum_erase _ _ (Finset.mem_univ i), ← Finset.add_sum_erase _ (fun j => f (c.shards j))
    (Finset.mem_univ i)]
  have : ∑ j ∈ Finset.univ.erase i, f (Function.update c.shards i s j) = ∑ j ∈ Finset.univ.erase i, f (c.shards j) :=
    Finset.sum_congr rfl fun j hj => by rw [Function.update_of_ne (Finset.ne_of_mem_erase hj)]
  rw [this, Function.update_self]
  omega

theorem forall_update {p : Fin fileCacheShardCount → Shard → Prop} {i : Fin fileCacheShardCount} {s : Shard}
    (hi : p i s) (h : ∀ j, j ≠ i → p j (c.shards j)) : ∀ j, p j (Function.update c.shards i s j) := by
  intro j
  by_cases hj : j = i
  · rw [hj, Function.update_self]
    exact hi
  · rw [Function.update_of_ne hj]
    exact h j hj

theorem Books.setShard (hc : Books c) {i : Fin fileCacheShardCount} {s : Shard} {d : Int}
    (hd : d = s.entries.bytes - (c.shards i).entries.bytes) (hplaced : ∀ e ∈ s.entries.rows, shardOf e.1 = i)
    (ho : s.Ordered) : Books (c.setShard i s d) := by
  refine ⟨?_, forall_update (p := fun i s => ∀ e ∈ s.entries.rows, shardOf e.1 = i) hplaced fun j _ => hc.placed j,
    forall_update (p := fun _ s => s.Ordered) ho fun j _ => hc.ordered j⟩
  have hsum := sum_update (c := c) (fun s => s.entries.bytes) i s
  have hused := hc.used
  show c.used + d = _
  rw [hused, hd]
  show _ = ((∑ j, (Function.update c.shards i s j).entries.bytes : Nat) : Int)
  omega

theorem len_setShard (i : Fin fileCacheShardCount) (s : Shard) (d : Int) :
    (c.setShard i s d).len + (c.shards i).entries.rows.length = c.len + s.entries.rows.length :=
  sum_update (fun s => s.entries.rows.length) i s

theorem setShard_evicted (hc : Books c) {i : Fin fileCacheShardCount} {s : Shard} {r : Option Entry} {d : Int}
    (ho : s.Ordered) (h : Shard.Evicted protect (c.shards i) s r)
    (hd : d = s.entries.bytes - (c.shards i).entries.bytes) :
    Books (c.setShard i s.compactOrderLocked d) ∧ Kept protect c (c.setShard i s.compactOrderLocked d) := by
  obtain ⟨hsub, hkeep⟩ := h.subset
  refine ⟨hc.setShard (by simpa using hd) (fun e he => ?_) (Shard.ordered_compact ho), rfl, rfl, ?_, ?_⟩
  · rw [Shard.entries_compact] at he
    exact hc.placed i e (hsub e he)
  · refine forall_update (p := fun i s => ∀ e ∈ s.entries.rows, e ∈ (c.shards i).entries.rows) ?_ fun j _ e he => he
    rw [Shard.entries_compact]
    exact hsub
  · intro j e he hp
    by_cases hj : j = i
    · subst hj
      simpa [FileByteCache.setShard] using hkeep e he hp
    · simpa [FileByteCache.setShard, hj] using he

theorem trimRound_spec (protect : String) (shards : List (Fin fileCacheShardCount)) (progress : Bool) (hc : Books c) :
    ∃ c' go, trimRound protect shards progress c = some (c', go) ∧ Books c' ∧ Kept protect c c' ∧ c'.len ≤ c.len ∧
      (go = true → progress = true ∨ c'.len < c.len) ∧
      (go = false → c'.used ≤ c'.maxBytes ∨
        progress = false ∧ ∀ i ∈ shards, ∀ e ∈ (c'.shards i).entries.rows, e.1 = protect) := by
  induction shards generalizing c progress with
  | nil => exact ⟨c, progress, rfl, hc, .refl _ _, Nat.le_refl _, .inl, fun h => .inr ⟨h, nofun⟩⟩
  | cons i shards ih =>
    unfold trimRound
    split
    · exact ⟨c, false, rfl, hc, .refl _ _, Nat.le_refl _, nofun, fun _ => .inl ‹_›⟩
    · obtain ⟨s, r, hev, ho, hevicted, hnone⟩ := (c.shards i).evictOneLocked_spec (hc.ordered i) protect
      rw [hev]
      cases r with
      | some v =>
        obtain ⟨hbytes, hlen⟩ := hevicted.removed
        obtain ⟨hb, hk⟩ := setShard_evicted (d := -v.size) hc ho hevicted (by omega)
        obtain ⟨c', go, heq, hb', hk', hle, -, hstop⟩ := ih true hb
        have hl := len_setShard (c := c) i s.compactOrderLocked (-v.size)
        rw [Shard.entries_compact] at hl
        refine ⟨c', go, heq, hb', hk.trans hk', by omega, fun _ => .inr (by omega), fun hgo => .inl ?_⟩
        exact (hstop hgo).resolve_right fun h => nomatch h.1
      | none =>
        have hsame : s.entries = (c.shards i).entries := hevicted
        obtain ⟨hb, hk⟩ := setShard_evicted (d := 0) hc ho hevicted (by rw [hsame]; omega)
        obtain ⟨c', go, heq, hb', hk', hle, hgo', hstop⟩ := ih progress hb
        have hl := len_setShard (c := c) i s.compactOrderLocked 0
        rw [Shard.entries_compact, hsame] at hl
        refine ⟨c', go, heq, hb', hk.trans hk', by omega, fun hgo => (hgo' hgo).imp_right fun h => by omega,
          fun hgo => ?_⟩
        rcases hstop hgo with h | ⟨hp, hall⟩
        · exact .inl h
        · refine .inr ⟨hp, fun j hj e he => ?_⟩
          rcases List.mem_cons.1 hj with rfl | hj
          · exact hnone rfl e ((hk.trans hk').subset j e he)
          · exact hall j hj e he

theorem trimLoop_spec (protect : String) {fuel : Nat} (hfuel : c.len < fuel) (hc : Books c) :
    ∃ c', trimLoop protect fuel c = some c' ∧ Books c' ∧ Kept protect c c' ∧
      (c'.used ≤ c'.maxBytes ∨ ∀ i, ∀ e ∈ (c'.shards i).entries.rows, e.1 = protect) := by
  induction fuel generalizing c with
  | zero => omega
  | succ fuel ih =>
    unfold trimLoop
    split
    · exact ⟨c, rfl, hc, .refl _ _, .inl ‹_›⟩
    · obtain ⟨c₁, go, heq, hb, hk, hle, hgo, hstop⟩ := trimRound_spec protect (List.finRange fileCacheShardCount)
        false hc
      rw [heq]
      cases go with
      | true =>
        have hless := (hgo rfl).resolve_left nofun
        obtain ⟨c', heq', hb', hk', hend⟩ := ih (by omega) hb
        exact ⟨c', heq', hb', hk.trans hk', hend⟩
      | false =>
        refine ⟨c₁, rfl, hb, hk, (hstop rfl).imp_right fun h i => ?_⟩
        exact h.2 i (List.mem_finRange i)

theorem used_le_of_protected (hc : Books c) {n : Nat} (hall : ∀ i, ∀ e ∈ (c.shards i).entries.rows, e.1 = protect)
    (hsize : ∀ i, ∀ e ∈ (c.shards i).entries.rows, e.2.size ≤ n) : c.used ≤ n := by
  have hother : ∀ i, i ≠ shardOf protect → (c.shards i).entries.bytes = 0 := by
    intro i hi
    have hempty : (c.shards i).entries.rows = [] := List.eq_nil_iff_forall_not_mem.2 fun e he =>
      hi (by rw [← hc.placed i e he, hall i e he])
    simp [Entries.bytes, hempty]
  rw [hc.used, Finset.sum_eq_single (shardOf protect) (fun i _ hi => hother i hi) (fun h => absurd (Finset.mem_univ _) h)]
  have hnd := (c.shards (shardOf protect)).entries.nodup
  unfold Entries.bytes
  match hrows : (c.shards (shardOf protect)).entries.rows with
  | [] => simp
  | [e] =>
    have := hsize (shardOf protect) e (by simp [hrows])
    simpa using this
  | a :: b :: l =>
    have ha := hall (shardOf protect) a (by simp [hrows])
    have hb := hall (shardOf protect) b (by simp [hrows])
    rw [hrows] at hnd
    simp [ha, hb] at hnd

/-- The state between two calls. -/
structure Sane (c : FileByteCache) : Prop where
  books : Books c
  limit : c.used ≤ c.maxBytes

theorem sane_new (maxBytes : Int) (remote : Bool) : Sane (newFileByteCache maxBytes remote) :=
  ⟨⟨by simp [newFileByteCache, Entries.bytes], nofun, nofun⟩,
    Int.natCast_nonneg (newFileByteCache maxBytes remote).maxBytes⟩

theorem Books.ne_key (hc : Books c) {key : String} {i : Fin fileCacheShardCount} (hi : i ≠ shardOf key)
    {e : String × Entry} (he : e ∈ (c.shards i).entries.rows) : e.1 ≠ key := by
  rintro rfl
  exact hi (hc.placed i e he).symm

theorem delete_of_none {key : String} (h : (c.shards (shardOf key)).entries.find? key = none) : c.delete key = c := by
  simp only [delete, h]

theorem delete_of_some {key : String} {old : String × Entry} (h : (c.shards (shardOf key)).entries.find? key = some old) :
    c.delete key = c.setShard (shardOf key) (Shard.compactOrderLocked
      ⟨(c.shards (shardOf key)).entries.remove key, (c.shards (shardOf key)).order⟩) (-old.2.size) := by
  simp only [delete, h]

theorem delete_spec (hc : Sane c) (key : String) :
    Sane (c.delete key) ∧ (c.delete key).maxBytes = c.maxBytes ∧
      ∀ i, ∀ e ∈ ((c.delete key).shards i).entries.rows, e.1 ≠ key ∧ e ∈ (c.shards i).entries.rows := by
  cases hf : (c.shards (shardOf key)).entries.find? key with
  | none =>
    rw [delete_of_none hf]
    refine ⟨hc, rfl, fun i e he => ⟨?_, he⟩⟩
    by_cases hi : i = shardOf key
    · exact Table.find?_eq_none.1 hf e (hi ▸ he)
    · exact hc.books.ne_key hi he
  | some old =>
    rw [delete_of_some hf]
    have hbytes := Entries.bytes_remove hf
    have hlimit := hc.limit
    refine ⟨⟨hc.books.setShard ?_ ?_ (Shard.ordered_compact ?_), ?_⟩, rfl, ?_⟩
    · rw [Shard.entries_compact, hbytes]
      dsimp only
      omega
    · intro e he
      rw [Shard.entries_compact] at he
      exact hc.books.placed _ e (Entries.mem_remove.1 he).1
    · exact fun e he => hc.books.ordered _ e (Entries.mem_remove.1 he).1
    · show c.used + -old.2.size ≤ c.maxBytes
      omega
    · refine forall_update (p := fun i s => ∀ e ∈ s.entries.rows, e.1 ≠ key ∧ e ∈ (c.shards i).entries.rows) ?_ ?_
      · intro e he
        rw [Shard.entries_compact] at he
        exact (Entries.mem_remove.1 he).symm
      · exact fun i hi e he => ⟨hc.books.ne_key hi he, he⟩

theorem write_of_none {key : String} {entry : Entry} (h : (c.shards (shardOf key)).entries.find? key = none) :
    c.write key entry = c.setShard (shardOf key) ⟨(c.shards (shardOf key)).entries.assign key entry,
      (c.shards (shardOf key)).order ++ [key]⟩ entry.size := by
  simp only [write, h]

theorem write_of_some {key : String} {entry : Entry} {old : String × Entry}
    (h : (c.shards (shardOf key)).entries.find? key = some old) :
    c.write key entry = c.setShard (shardOf key) ⟨(c.shards (shardOf key)).entries.assign key entry,
      (c.shards (shardOf key)).order⟩ (entry.size - old.2.size) := by
  simp only [write, h]

/-- The cache with a new entry, before it is trimmed. -/
theorem write_spec (hc : Books c) (key : String) (entry : Entry) :
    Books (c.write key entry) ∧ (c.write key entry).maxBytes = c.maxBytes ∧
      ∀ i, ∀ e ∈ ((c.write key entry).shards i).entries.rows, e = (key, entry) ∨
        e.1 ≠ key ∧ e ∈ (c.shards i).entries.rows := by
  have hplaced : ∀ e ∈ ((c.shards (shardOf key)).entries.assign key entry).rows, shardOf e.1 = shardOf key := by
    intro e he
    rcases Entries.mem_assign.1 he with rfl | ⟨he, -⟩
    · rfl
    · exact hc.placed _ e he
  have hrows : ∀ order d, ∀ i, ∀ e ∈ ((c.setShard (shardOf key)
      ⟨(c.shards (shardOf key)).entries.assign key entry, order⟩ d).shards i).entries.rows,
      e = (key, entry) ∨ e.1 ≠ key ∧ e ∈ (c.shards i).entries.rows := by
    intro order d
    refine forall_update (p := fun i s => ∀ e ∈ s.entries.rows, e = (key, entry) ∨
      e.1 ≠ key ∧ e ∈ (c.shards i).entries.rows) ?_ ?_
    · exact fun e he => (Entries.mem_assign.1 he).imp_right And.symm
    · exact fun i hi e he => .inr ⟨hc.ne_key hi he, he⟩
  cases hf : (c.shards (shardOf key)).entries.find? key with
  | some old =>
    obtain ⟨hold, hkey⟩ := Table.find?_eq_some.1 hf
    rw [write_of_some hf]
    refine ⟨hc.setShard ?_ hplaced fun e he => ?_, rfl, hrows _ _⟩
    · rw [Entries.bytes_assign, Entries.bytes_remove hf]
      omega
    · rcases Entries.mem_assign.1 he with rfl | ⟨he, -⟩
      · have := hc.ordered _ old hold
        rwa [hkey] at this
      · exact hc.ordered _ e he
  | none =>
    rw [write_of_none hf]
    refine ⟨hc.setShard ?_ hplaced fun e he => ?_, rfl, hrows _ _⟩
    · have : ((c.shards (shardOf key)).entries.remove key).bytes = (c.shards (shardOf key)).entries.bytes := by
        unfold Entries.bytes
        rw [Entries.rows_remove_of_find? hf]
      rw [Entries.bytes_assign, this]
      omega
    · rcases Entries.mem_assign.1 he with rfl | ⟨he, -⟩
      · exact List.mem_append_right _ (List.mem_singleton_self _)
      · exact List.mem_append_left _ (hc.ordered _ e he)

theorem trimToMax_spec (hc : Books c) (protect : String) :
    ∃ c', c.trimToMax protect = some c' ∧ Books c' ∧ Kept protect c c' ∧
      (c'.used ≤ c'.maxBytes ∨ ∀ i, ∀ e ∈ (c'.shards i).entries.rows, e.1 = protect) :=
  trimLoop_spec protect (Nat.lt_succ_self _) hc

theorem set_spec (hc : Sane c) (key : String) (value : List UInt8) (putOk : Bool) :
    ∃ c', c.set key value putOk = some c' ∧ Sane c' ∧ c'.maxBytes = c.maxBytes ∧
      (c.maxBytes < value.length ∧ c' = c ∨
        ∀ i, ∀ e ∈ (c'.shards i).entries.rows, e = (key, ⟨value, value.length⟩) ∨
          e.1 ≠ key ∧ e ∈ (c.shards i).entries.rows) := by
  unfold set
  split
  · exact ⟨c, rfl, hc, rfl, .inl ⟨‹_›, rfl⟩⟩
  · rename_i hsize
    split
    · obtain ⟨hs, hm, hd⟩ := delete_spec hc key
      exact ⟨_, rfl, hs, hm, .inr fun i e he => .inr (hd i e he)⟩
    · obtain ⟨hb, hm, hrows⟩ := write_spec hc.books key ⟨value, value.length⟩
      dsimp only
      split
      · obtain ⟨c', heq, hb', hk, hend⟩ := trimToMax_spec hb key
        refine ⟨c', heq, ⟨hb', ?_⟩, hk.maxBytes.trans hm, .inr fun i e he => hrows i e (hk.subset i e he)⟩
        rcases hend with h | hall
        · exact h
        · -- only the new entry is left
          refine used_le_of_protected hb' hall fun i e he => ?_
          have hkey := hall i e he
          rcases hrows i e (hk.subset i e he) with rfl | ⟨hne, -⟩
          · rw [hk.maxBytes, hm]
            exact Nat.le_of_not_lt hsize
          · exact absurd hkey hne
      · exact ⟨_, rfl, ⟨hb, Int.not_lt.1 ‹_›⟩, hm, .inr hrows⟩

/-! ### Runs -/

/-- The value of the last `Set` of each key with no `Delete` after it. -/
def note (latest : String → Option (List UInt8)) : Op → String → Option (List UInt8)
  | .set key value _ => Function.update latest key (some value)
  | .delete key => Function.update latest key none
  | _ => latest

def latest (ops : List Op) : String → Option (List UInt8) := ops.foldl note fun _ => none

/-- A value above the limit is not set on a key that is there. -/
def Fits (c : FileByteCache) : Op → Prop
  | .set key value _ => value.length ≤ c.maxBytes ∨ (c.shards (shardOf key)).entries.find? key = none
  | _ => True

instance (c : FileByteCache) : DecidablePred (Fits c)
  | .set _ _ _ => inferInstanceAs (Decidable (_ ∨ _))
  | .get _ _ | .delete _ | .trim _ => .isTrue trivial

def AllFit : FileByteCache → List Op → Prop
  | _, [] => True
  | c, op :: ops => Fits c op ∧ ∀ c', c.apply op = some c' → AllFit c' ops

def allFit : FileByteCache → List Op → Bool
  | _, [] => true
  | c, op :: ops => decide (Fits c op) && ((c.apply op).map fun c' => allFit c' ops).getD true

theorem AllFit.of_allFit {c : FileByteCache} {ops : List Op} (h : allFit c ops = true) : AllFit c ops := by
  induction ops generalizing c with
  | nil => trivial
  | cons op ops ih =>
    obtain ⟨hfits, hrest⟩ := Bool.and_eq_true_iff.1 h
    refine ⟨of_decide_eq_true hfits, fun c' happly => ih ?_⟩
    rwa [happly] at hrest

/-- The entries hold the latest values. -/
def Coherent (f : String → Option (List UInt8)) (c : FileByteCache) : Prop :=
  ∀ i, ∀ e ∈ (c.shards i).entries.rows, f e.1 = some e.2.data

theorem apply_spec (hc : Sane c) (op : Op) :
    ∃ c', c.apply op = some c' ∧ Sane c' ∧
      ∀ f, Fits c op → Coherent f c → Coherent (note f op) c' := by
  cases op with
  | set key value putOk =>
    obtain ⟨c', heq, hs, -, hcases⟩ := set_spec hc key value putOk
    refine ⟨c', heq, hs, fun f hfit hco i e he => ?_⟩
    rcases hcases with ⟨hbig, rfl⟩ | hrows
    · have habsent := hfit.resolve_left (Nat.not_le.2 hbig)
      have hne : e.1 ≠ key := by
        by_cases hi : i = shardOf key
        · exact Table.find?_eq_none.1 habsent e (hi ▸ he)
        · exact hc.books.ne_key hi he
      rw [note, Function.update_of_ne hne]
      exact hco i e he
    · rcases hrows i e he with rfl | ⟨hne, he⟩
      · rw [note, Function.update_self]
      · rw [note, Function.update_of_ne hne]
        exact hco i e he
  | get key readOk => exact ⟨c, rfl, hc, fun _ _ hco => hco⟩
  | delete key =>
    obtain ⟨hs, -, hrows⟩ := delete_spec hc key
    refine ⟨_, rfl, hs, fun f _ hco i e he => ?_⟩
    obtain ⟨hne, he⟩ := hrows i e he
    rw [note, Function.update_of_ne hne]
    exact hco i e he
  | trim protect =>
    have hsame : c.trimToMax protect = some c := by
      unfold trimToMax trimLoop
      rw [if_pos hc.limit]
    exact ⟨c, hsame, hc, fun _ _ hco => hco⟩

theorem run_spec (hc : Sane c) (ops : List Op) :
    ∃ c', c.run ops = some c' ∧ Sane c' ∧ ∀ f, AllFit c ops → Coherent f c → Coherent (ops.foldl note f) c' := by
  induction ops generalizing c with
  | nil => exact ⟨c, rfl, hc, fun _ _ hco => hco⟩
  | cons op ops ih =>
    obtain ⟨c₁, heq, hs, hco₁⟩ := apply_spec hc op
    obtain ⟨c', heq', hs', hco'⟩ := ih hs
    refine ⟨c', by simp only [run, heq, heq'], hs', fun f hfit hco => ?_⟩
    exact hco' _ (hfit.2 c₁ heq) (hco₁ f hfit.1 hco)

theorem Coherent.get {f : String → Option (List UInt8)} (h : Coherent f c) {key : String} {readOk : Bool}
    {value : List UInt8} (hget : c.get key readOk = some value) : f key = some value := by
  unfold FileByteCache.get at hget
  split at hget
  · cases hget
  · rename_i v hv
    obtain ⟨hmem, rfl⟩ := Table.find?_eq_some.1 hv
    split at hget
    · cases hget
    · cases hget
      exact h _ v hmem

/-- Every call returns; `used` is the size of all entries and within the limit; every key with an entry is in the
order of its shard, and an eviction finds an entry unless only the protected one is there; and `Get` misses or
returns the latest value, as long as no value above the limit was set on a key that was there. -/
theorem fileByteCache_books (maxBytes : Int) (remote : Bool) (ops : List Op) :
    ∃ c, (newFileByteCache maxBytes remote).run ops = some c ∧
      c.used = ∑ i, (c.shards i).entries.bytes ∧ c.used ≤ c.maxBytes ∧
      (∀ i, ∀ e ∈ (c.shards i).entries.rows, shardOf e.1 = i ∧ e.1 ∈ (c.shards i).order) ∧
      (∀ i protect, ∃ s r, (c.shards i).evictOneLocked protect = some (s, r) ∧
        (r = none → ∀ e ∈ (c.shards i).entries.rows, e.1 = protect)) ∧
      (AllFit (newFileByteCache maxBytes remote) ops →
        ∀ key readOk value, c.get key readOk = some value → latest ops key = some value) := by
  obtain ⟨c, heq, hs, hco⟩ := run_spec (sane_new maxBytes remote) ops
  refine ⟨c, heq, hs.books.used, hs.limit, fun i e he => ⟨hs.books.placed i e he, hs.books.ordered i e he⟩,
    fun i protect => ?_, fun hfit key readOk value hget => ?_⟩
  · obtain ⟨s, r, hev, -, -, hnone⟩ := (c.shards i).evictOneLocked_spec (hs.books.ordered i) protect
    exact ⟨s, r, hev, hnone⟩
  · exact (hco (fun _ => none) hfit fun i e he => nomatch he).get hget

/-- The second value makes room for the last one; the third one is too large, and its key is not there. -/
def setFour : List Op := [.set "a" [1] true, .set "b" [2, 3] true, .set "d" [6, 7, 8, 9] true, .set "c" [4, 5] true]

theorem fileByteCache_books_evicted :
    ∃ c, (newFileByteCache 3 false).run setFour = some c ∧ c.used ≤ c.maxBytes ∧ c.get "b" true = none ∧
      c.get "c" true = some [4, 5] ∧ latest setFour "c" = some [4, 5] := by
  obtain ⟨c, hrun, -, hle, -, -, hget⟩ := fileByteCache_books 3 false setFour
  have hvalues : ((newFileByteCache 3 false).run setFour).map (fun c => (c.get "b" true, c.get "c" true)) =
      some (none, some [4, 5]) := by
    decide +kernel
  rw [hrun] at hvalues
  obtain ⟨hb, hc⟩ := Prod.mk.inj (Option.some.inj hvalues)
  exact ⟨c, hrun, hle, hb, hc, hget (.of_allFit (by decide +kernel)) "c" true [4, 5] hc⟩

/-- A value above the limit leaves the value before it in the cache. -/
theorem fileByteCache_stale :
    ((newFileByteCache 1 false).run [.set "a" [1] true, .set "a" [2, 3] true]).bind (·.get "a" true) = some [1] ∧
    latest [.set "a" [1] true, .set "a" [2, 3] true] "a" = some [2, 3] := by
  decide

end FileByteCache

end Renop.FileCache
