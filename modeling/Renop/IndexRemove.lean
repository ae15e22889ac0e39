import Renop.IndexLists

/-!
# Removing what lies below a directory

`Sound H k idx` is the invariant of the index while some paths `H` are still listed though they are
indexed no more, and `DirsCount` is `k` ahead. `removeDescendants` walks down through the indexed
directories. It keeps `Sound` if every file it meets has nothing indexed below itself (`Prunable`),
because `deleteFile` forgets the listing under the file.
-/

namespace Renop.Index
open FileIndex

/-! ### Counting in a map -/

section Weight
variable {α : Type} {m : PathMap α}

def weight (f : α → Int) (m : PathMap α) : Int := (m.entries.map fun e => f e.2).sum

theorem weight_erase (f : α → Int) {p : String} {v : α} (h : m.lookup p = some v) :
    weight f (m.erase p) = weight f m - f v := by
  have hmem : p ∈ m.entries.keys := AList.lookup_isSome.1 (by rw [h]; rfl)
  obtain ⟨w, l₁, l₂, -, hl, he⟩ := List.exists_of_kerase hmem
  have hw : m.lookup p = some w := AList.mem_lookup_iff.2 (by rw [hl]; simp)
  obtain rfl : w = v := Option.some.inj (hw.symm.trans h)
  have he' : (m.erase p).entries = l₁ ++ l₂ := he
  simp only [weight, he', hl, List.map_append, List.map_cons, List.sum_append, List.sum_cons]
  omega

theorem erase_of_notMem {p : String} (h : p ∉ m) : m.erase p = m :=
  AList.ext (List.kerase_of_notMem_keys h)

theorem weight_insert (f : α → Int) (p : String) (v : α) :
    weight f (m.insert p v) = weight f (m.erase p) + f v := by
  simp only [weight, AList.entries_insert, List.map_cons, List.sum_cons]
  exact Int.add_comm _ _

theorem length_erase {p : String} (h : p ∈ m) : ((m.erase p).keys.length : Int) = m.keys.length - 1 := by
  have := List.length_erase_of_mem (AList.mem_keys.1 h)
  have hpos := List.length_pos_of_mem (AList.mem_keys.1 h)
  rw [AList.keys_erase]
  omega

theorem length_insert_new {p : String} {v : α} (h : p ∉ m) : ((m.insert p v).keys.length : Int) = m.keys.length + 1 := by
  rw [AList.keys_insert, List.erase_of_not_mem h]; simp

theorem length_insert_old {p : String} {v : α} (h : p ∈ m) : ((m.insert p v).keys.length : Int) = m.keys.length := by
  have := length_erase h
  rw [AList.keys_erase] at this
  rw [AList.keys_insert, List.length_cons]
  omega

end Weight

/-! ### The invariant -/

namespace FileIndex

def Indexed (idx : FileIndex) (p : String) : Prop := p ∈ idx.files ∨ p ∈ idx.dirs

/-- Nothing is indexed right below the path. -/
def Childless (idx : FileIndex) (p : String) : Prop := ∀ b, Base b → ¬ idx.Indexed (p ++ "/" ++ b)

/-- The directories the walk of `removeDescendants` gets to. -/
inductive Reached (idx : FileIndex) (dir : String) : String → Prop
  | self : Reached idx dir dir
  | child {q c : String} : Reached idx dir q → Base c → q ++ "/" ++ c ∈ idx.dirs → Reached idx dir (q ++ "/" ++ c)

/-- Every file the walk meets has nothing indexed below it. -/
def Prunable (idx : FileIndex) (dir : String) : Prop :=
  ∀ q, idx.Reached dir q → ∀ c, Base c → q ++ "/" ++ c ∈ idx.files → idx.Childless (q ++ "/" ++ c)

structure Counts (k : Int) (idx : FileIndex) : Prop where
  files : idx.filesCount = idx.files.keys.length
  dirs : idx.dirsCount = idx.dirs.keys.length + k
  bytes : idx.totalBytes = weight FileInfo.size idx.files
  notFound : idx.notFoundCount = idx.notFound.keys.length

structure Sound (H : String → Prop) (k : Int) (idx : FileIndex) : Prop where
  counts : Counts k idx
  disjoint : ∀ p ∈ idx.files, p ∉ idx.dirs
  lists : Lists (fun p => idx.Indexed p ∨ H p) idx.children
  hole : ∀ p, H p → ¬ idx.Indexed p
  clean : ∀ p ∈ idx.dirs, pathClean p = p

/-- Nothing is added. -/
structure Shrinks (idx idx' : FileIndex) : Prop where
  files : ∀ p ∈ idx'.files, p ∈ idx.files
  dirs : ∀ p ∈ idx'.dirs, p ∈ idx.dirs
  length : idx'.dirs.keys.length ≤ idx.dirs.keys.length
  children : ∀ p, ∀ b ∈ idx'.children p, b ∈ idx.children p

variable {H : String → Prop} {k : Int} {idx idx' idx'' : FileIndex} {dir x : String}

theorem Shrinks.refl (idx : FileIndex) : Shrinks idx idx :=
  ⟨fun _ h => h, fun _ h => h, Nat.le_refl _, fun _ _ h => h⟩

theorem Shrinks.trans (h : Shrinks idx idx') (h' : Shrinks idx' idx'') : Shrinks idx idx'' :=
  ⟨fun p hp => h.files p (h'.files p hp), fun p hp => h.dirs p (h'.dirs p hp), Nat.le_trans h'.length h.length,
    fun p b hb => h.children p b (h'.children p b hb)⟩

theorem Shrinks.indexed (h : Shrinks idx idx') {p : String} (hp : idx'.Indexed p) : idx.Indexed p :=
  hp.imp (h.files p) (h.dirs p)

theorem Reached.mono (h : Shrinks idx idx') {q : String} (hq : idx'.Reached dir q) : idx.Reached dir q := by
  induction hq with
  | self => exact .self
  | child _ hc hd ih => exact .child ih hc (h.dirs _ hd)

theorem Prunable.mono (hp : idx.Prunable dir) (h : Shrinks idx idx') : idx'.Prunable dir :=
  fun q hq c hc hf b hb hi => hp q (hq.mono h) c hc (h.files _ hf) b hb (h.indexed hi)

theorem Prunable.child (hp : idx.Prunable dir) {c : String} (hc : Base c) (hd : dir ++ "/" ++ c ∈ idx.dirs) :
    idx.Prunable (dir ++ "/" ++ c) := by
  have hreach : ∀ q, idx.Reached (dir ++ "/" ++ c) q → idx.Reached dir q := by
    intro q hq
    induction hq with
    | self => exact .child .self hc hd
    | child _ hc' hd' ih => exact .child ih hc' hd'
  exact fun q hq => hp q (hreach q hq)

/-! ### Single updates -/

theorem shrinks_removeChild (idx : FileIndex) (x : String) : Shrinks idx (idx.removeChild x) := by
  refine ⟨fun _ h => h, fun _ h => h, Nat.le_refl _, fun p b hb => ?_⟩
  unfold removeChild at hb
  dsimp only at hb
  rw [Function.update_apply] at hb
  split_ifs at hb
  · exact absurd hb List.not_mem_nil
  · rw [Function.update_apply] at hb
    split_ifs at hb with h2
    · rw [h2]; exact List.mem_of_mem_erase hb
    · exact hb

theorem Sound.removeChild (h : Sound (fun p => H p ∨ p = x) k idx) (hx : ¬ H x)
    (hempty : ∀ b, Ordinary x → Base b → ¬ (idx.Indexed (x ++ "/" ++ b) ∨ H (x ++ "/" ++ b))) :
    Sound H k (idx.removeChild x) := by
  refine ⟨⟨h.counts.files, h.counts.dirs, h.counts.bytes, h.counts.notFound⟩, h.disjoint, ?_,
    fun p hp => h.hole p (.inl hp), h.clean⟩
  refine (h.lists.removeChild x fun b hxo hb => ?_).congr fun p => ?_
  · rintro (hi | hi | hi)
    · exact hempty b hxo hb (.inl hi)
    · exact hempty b hxo hb (.inr hi)
    · have := congrArg (fun s : String => s.toList.length) hi
      simp at this
  · have hxi := h.hole x (.inr rfl)
    constructor
    · rintro ⟨hi | hi | hi, hne⟩
      exacts [.inl hi, .inr hi, absurd hi hne]
    · rintro (hi | hi)
      · exact ⟨.inl hi, fun e => hxi (e ▸ hi)⟩
      · exact ⟨.inr (.inl hi), fun e => hx (e ▸ hi)⟩

theorem Sound.clearNotFound (h : Sound H k idx) (x : String) : Sound H k (idx.clearNotFound x) := by
  unfold FileIndex.clearNotFound
  split_ifs with hx
  · refine ⟨⟨h.counts.files, h.counts.dirs, h.counts.bytes, ?_⟩, h.disjoint, h.lists, h.hole, h.clean⟩
    dsimp only
    rw [length_erase hx, h.counts.notFound]
  · exact h

theorem shrinks_clearNotFound (idx : FileIndex) (x : String) : Shrinks idx (idx.clearNotFound x) := by
  unfold FileIndex.clearNotFound
  split_ifs
  · exact ⟨fun _ h => h, fun _ h => h, Nat.le_refl _, fun _ _ h => h⟩
  · exact .refl idx

theorem Sound.clearNotFoundBelow (h : Sound H k idx) (dir : String) :
    Sound H k (idx.clearNotFoundBelow dir) ∧ Shrinks idx (idx.clearNotFoundBelow dir) ∧
      (idx.clearNotFoundBelow dir).children = idx.children := by
  unfold FileIndex.clearNotFoundBelow
  generalize idx.notFound.keys = ks
  induction ks generalizing idx with
  | nil => exact ⟨h, .refl idx, rfl⟩
  | cons p ks ih =>
    rw [List.foldl_cons]
    split_ifs
    · obtain ⟨h1, h2, h3⟩ := ih (h.clearNotFound p)
      refine ⟨h1, (shrinks_clearNotFound idx p).trans h2, h3.trans ?_⟩
      unfold FileIndex.clearNotFound
      split_ifs <;> rfl
    · exact ih h

/-- Deleting a file with nothing below it. -/
theorem Sound.deleteFile (h : Sound H k idx) (hfile : x ∈ idx.files)
    (hempty : ∀ b, Ordinary x → Base b → ¬ (idx.Indexed (x ++ "/" ++ b) ∨ H (x ++ "/" ++ b))) :
    Sound H k (idx.deleteFile x) ∧ Shrinks idx (idx.deleteFile x) ∧ ¬ (idx.deleteFile x).Indexed x := by
  have hxH : ¬ H x := fun hx => h.hole x hx (.inl hfile)
  obtain ⟨old, hold⟩ := Option.isSome_iff_exists.1 (AList.lookup_isSome.2 hfile)
  unfold FileIndex.deleteFile
  rw [hold]
  dsimp only
  set idx₁ : FileIndex := { idx with
    files := idx.files.erase x
    filesCount := idx.filesCount - 1
    totalBytes := if old.size ≠ 0 then idx.totalBytes - old.size else idx.totalBytes } with hidx₁
  have hmem : ∀ p, p ∈ idx₁.files ↔ p ≠ x ∧ p ∈ idx.files := fun p => AList.mem_erase
  have hshr : Shrinks idx idx₁ :=
    ⟨fun p hp => ((hmem p).1 hp).2, fun _ hp => hp, Nat.le_refl _, fun _ _ hb => hb⟩
  have hx₁ : ¬ idx₁.Indexed x := by
    rintro (hx | hx)
    · exact ((hmem x).1 hx).1 rfl
    · exact h.disjoint x hfile hx
  have hsound : Sound (fun p => H p ∨ p = x) k idx₁ := by
    refine ⟨⟨?_, h.counts.dirs, ?_, h.counts.notFound⟩, fun p hp => h.disjoint p ((hmem p).1 hp).2, ?_, ?_, h.clean⟩
    · show idx.filesCount - 1 = ((idx.files.erase x).keys.length : Int)
      rw [length_erase hfile, h.counts.files]
    · show (if old.size ≠ 0 then idx.totalBytes - old.size else idx.totalBytes) = weight _ (idx.files.erase x)
      rw [weight_erase _ hold, ← h.counts.bytes]
      split_ifs <;> omega
    · refine h.lists.congr fun p => ?_
      unfold Indexed
      rw [hmem p]
      by_cases hp : p = x
      · subst hp; simp [hfile]
      · simp [hp, hidx₁]
    · rintro p (hp | rfl)
      · exact fun hi => h.hole p hp (hshr.indexed hi)
      · exact hx₁
  refine ⟨hsound.removeChild hxH fun b hxo hb hi => hempty b hxo hb (hi.imp_left hshr.indexed),
    hshr.trans (shrinks_removeChild idx₁ x), hx₁⟩

theorem deleteFile_of_notMem (hfile : x ∉ idx.files) : idx.deleteFile x = idx := by
  unfold FileIndex.deleteFile
  rw [AList.lookup_eq_none.2 hfile]

theorem Sound.deleteDir (h : Sound H k idx) (hdir : x ∈ idx.dirs) :
    Sound (fun p => H p ∨ p = x) k (idx.deleteDir x) ∧ Shrinks idx (idx.deleteDir x) ∧
      (idx.deleteDir x).dirs.keys.length < idx.dirs.keys.length := by
  have hmem : ∀ p, p ∈ (idx.deleteDir x).dirs ↔ p ≠ x ∧ p ∈ idx.dirs := fun p => AList.mem_erase
  have hlen : ((idx.deleteDir x).dirs.keys.length : Int) = idx.dirs.keys.length - 1 := length_erase hdir
  have hshr : Shrinks idx (idx.deleteDir x) :=
    ⟨fun _ hp => hp, fun p hp => ((hmem p).1 hp).2, by omega, fun _ _ hb => hb⟩
  refine ⟨⟨⟨h.counts.files, ?_, h.counts.bytes, h.counts.notFound⟩, fun p hp hd => h.disjoint p hp ((hmem p).1 hd).2,
    ?_, ?_, fun p hp => h.clean p ((hmem p).1 hp).2⟩, hshr, by omega⟩
  · show idx.dirsCount - 1 = _
    rw [hlen, h.counts.dirs]; omega
  · refine h.lists.congr fun p => ?_
    unfold Indexed
    rw [hmem p]
    by_cases hp : p = x
    · subst hp; simp [hdir]
    · simp [hp, FileIndex.deleteDir]
  · rintro p (hp | rfl)
    · exact fun hi => h.hole p hp (hshr.indexed hi)
    · rintro (hi | hi)
      · exact h.disjoint p hi hdir
      · exact ((hmem p).1 hi).1 rfl

/-! ### The walk -/

/-- No path of `H` lies below `dir`. -/
def NotBelow (H : String → Prop) (dir : String) : Prop := ∀ s, ¬ H (dir ++ "/" ++ s)

/-- What `removeDescendants` does to an index with fewer than `n` directories. -/
def Removes (n : Nat) (nested : FileIndex → String → FileIndex) : Prop :=
  ∀ H k idx dir, Sound H k idx → pathClean dir = dir → NotBelow H dir → idx.Prunable dir →
    idx.dirs.keys.length < n → Sound H k (nested idx dir) ∧ Shrinks idx (nested idx dir) ∧ (nested idx dir).children dir = []

theorem Childless.of_children (h : Sound H k idx) (hx : idx.children x = []) (b : String) (hxo : Ordinary x)
    (hb : Base b) : ¬ (idx.Indexed (x ++ "/" ++ b) ∨ H (x ++ "/" ++ b)) := by
  rw [← h.lists.listed x b hxo hb, hx]
  exact List.not_mem_nil

theorem removeDescendant_sound {n : Nat} {nested : FileIndex → String → FileIndex} (hnested : Removes n nested)
    (h : Sound H k idx) (hdir : Ordinary dir) (hH : NotBelow H dir) (hp : idx.Prunable dir)
    (hn : idx.dirs.keys.length < n + 1) {c : String} (hc : Base c) :
    Sound H k (removeDescendant nested dir idx c) ∧ Shrinks idx (removeDescendant nested dir idx c) ∧
      c ∉ (removeDescendant nested dir idx c).children dir := by
  set x := dir ++ "/" ++ c with hxdef
  -- once the path is not indexed any more, it is not listed either
  have hfin : ∀ idx', Sound H k idx' → Shrinks idx idx' → ¬ idx'.Indexed x →
      Sound H k (idx'.clearNotFound x) ∧ Shrinks idx (idx'.clearNotFound x) ∧
        c ∉ (idx'.clearNotFound x).children dir := by
    intro idx' h' hs hx
    refine ⟨h'.clearNotFound x, hs.trans (shrinks_clearNotFound idx' x), ?_⟩
    rw [(h'.clearNotFound x).lists.listed dir c hdir hc]
    rintro (hi | hi)
    · exact hx ((shrinks_clearNotFound idx' x).indexed hi)
    · exact hH c hi
  unfold removeDescendant
  dsimp only
  rw [← hxdef]
  by_cases hfile : x ∈ idx.files
  · have hempty : ∀ b, Ordinary x → Base b → ¬ (idx.Indexed (x ++ "/" ++ b) ∨ H (x ++ "/" ++ b)) := by
      rintro b - hb (hi | hi)
      · exact hp dir .self c hc hfile b hb hi
      · refine hH (c ++ "/" ++ b) ?_
        rw [hxdef] at hi
        simpa only [String.append_assoc] using hi
    obtain ⟨h1, h2, h3⟩ := h.deleteFile hfile hempty
    rw [if_neg fun hd => h3 (.inr hd)]
    exact hfin _ h1 h2 h3
  · rw [deleteFile_of_notMem hfile]
    split_ifs with hd
    · obtain ⟨h1, h2, h3⟩ := h.deleteDir hd
      have hH' : NotBelow (fun p => H p ∨ p = x) x := by
        rintro s (hs | hs)
        · refine hH (c ++ "/" ++ s) ?_
          rw [hxdef] at hs
          simpa only [String.append_assoc] using hs
        · have := congrArg (fun s : String => s.toList.length) hs
          simp at this
      have hrec := hnested _ k (idx.deleteDir x) x h1 (h.clean x hd) hH' ((hp.child hc hd).mono h2) (by omega)
      obtain ⟨h4, h5, h6⟩ := hrec
      have h7 : Sound H k ((nested (idx.deleteDir x) x).removeChild x) :=
        h4.removeChild (hH c) fun b hxo hb hi => Childless.of_children h4 h6 b hxo hb (hi.imp_right .inl)
      refine hfin _ h7 ((h2.trans h5).trans (shrinks_removeChild _ x)) fun hi => ?_
      exact h4.hole x (.inr rfl) hi
    · exact hfin idx h (.refl idx) fun hi => hi.elim hfile hd

theorem removeDescendants_loop {n : Nat} {nested : FileIndex → String → FileIndex} (hnested : Removes n nested)
    (hdir : Ordinary dir) (hH : NotBelow H dir) (cs : List String) (hcs : ∀ c ∈ cs, Base c) (h : Sound H k idx)
    (hp : idx.Prunable dir) (hn : idx.dirs.keys.length < n + 1) :
    Sound H k (cs.foldl (removeDescendant nested dir) idx) ∧ Shrinks idx (cs.foldl (removeDescendant nested dir) idx) ∧
      ∀ c ∈ cs, c ∉ (cs.foldl (removeDescendant nested dir) idx).children dir := by
  induction cs generalizing idx with
  | nil => exact ⟨h, .refl idx, fun c hc => absurd hc List.not_mem_nil⟩
  | cons c cs ih =>
    obtain ⟨h1, h2, h3⟩ := removeDescendant_sound hnested h hdir hH hp hn (hcs c (List.mem_cons_self ..))
    obtain ⟨h4, h5, h6⟩ := ih (fun c' hc' => hcs c' (List.mem_cons_of_mem _ hc')) h1 (hp.mono h2)
      (Nat.lt_of_le_of_lt h2.length hn)
    refine ⟨h4, h2.trans h5, fun c' hc' => ?_⟩
    rcases List.mem_cons.1 hc' with rfl | hc'
    · exact fun hm => h3 (h5.children dir _ hm)
    · exact h6 c' hc'

theorem removeDescendantsFuel_removes (n : Nat) : Removes n (removeDescendantsFuel n) := by
  induction n with
  | zero => exact fun H k idx dir _ _ _ _ hn => absurd hn (Nat.not_lt_zero _)
  | succ n ih =>
    intro H k idx dir h hclean hH hp hn
    have hfuel : removeDescendantsFuel (n + 1) idx dir =
        clearNotFoundBelow ((idx.children dir).foldl (removeDescendant (removeDescendantsFuel n) dir) idx) dir := by
      simp only [removeDescendantsFuel, hclean]
    rw [hfuel]
    by_cases hdir : Ordinary dir
    · obtain ⟨h1, h2, h3⟩ := removeDescendants_loop ih hdir hH (idx.children dir) (h.lists.base dir) h hp hn
      obtain ⟨h4, h5, h6⟩ := h1.clearNotFoundBelow dir
      refine ⟨h4, h2.trans h5, ?_⟩
      rw [h6, List.eq_nil_iff_forall_not_mem]
      exact fun c hc => h3 c (h2.children dir c hc) hc
    · rw [h.lists.special dir hdir]
      obtain ⟨h4, h5, h6⟩ := h.clearNotFoundBelow dir
      exact ⟨h4, h5, by rw [List.foldl_nil, h6]; exact h.lists.special dir hdir⟩

theorem removeDescendants_sound (h : Sound H k idx) (hclean : pathClean dir = dir) (hH : NotBelow H dir)
    (hp : idx.Prunable dir) :
    Sound H k (idx.removeDescendants dir) ∧ Shrinks idx (idx.removeDescendants dir) ∧
      (idx.removeDescendants dir).children dir = [] :=
  removeDescendantsFuel_removes _ H k idx dir h hclean hH hp (Nat.lt_succ_self _)

end FileIndex
end Renop.Index
