import Renop.IndexRemove

/-!
# The index stays consistent

`Consistent` is the representation invariant: the counters, no path both a file and a directory, and
each listing. Two updates break it. `removeChild` deletes the listing under the path it removes, so
removing a file that has something indexed below it loses that listing. And `removeDir` takes the path
off its parent's listing also when it is a file, which stays indexed. `Allowed` is exactly that neither
happens; under it every run keeps the index consistent (`run_consistent`).
-/

namespace Renop.Index
namespace FileIndex

structure Consistent (idx : FileIndex) : Prop where
  filesCount : idx.filesCount = idx.files.keys.length
  dirsCount : idx.dirsCount = idx.dirs.keys.length
  notFoundCount : idx.notFoundCount = idx.notFound.keys.length
  totalBytes : idx.totalBytes = weight FileInfo.size idx.files
  disjoint : ∀ p, ¬ (p ∈ idx.files ∧ p ∈ idx.dirs)
  nodup : ∀ p, Ordinary p → (idx.children p).Nodup
  base : ∀ p, Ordinary p → ∀ b ∈ idx.children p, Base b
  listed : ∀ p b, Ordinary p → Base b →
    (b ∈ idx.children p ↔ p ++ "/" ++ b ∈ idx.files ∨ p ++ "/" ++ b ∈ idx.dirs)

/-- The operation does not reach one of the two updates that break the index. -/
def Allowed (idx : FileIndex) : Op → Prop
  | .insertFile path _ => idx.isBlocked path = false → path ∈ idx.dirs → idx.Prunable path
  | .removeFile path | .blockFile path => path ∈ idx.files → idx.Childless path
  | .removeDir path => (path ∈ idx.files → ¬ Ordinary (splitPathParentBase path).1) ∧ idx.Prunable path
  | _ => True

def Op.path? : Op → Option String
  | .insertFile path _ | .insertDir path | .removeFile path | .removeDir path | .blockFile path | .unblockFile path
  | .insertNotFound path _ _ => some path
  | .pruneNotFound _ => none

/-- `P` holds before every operation of the run. -/
def Along (P : FileIndex → Op → Prop) : FileIndex → List Op → Prop
  | _, [] => True
  | idx, op :: ops => P idx op ∧ Along P (idx.apply op) ops

/-- Between operations nothing is listed that is not indexed. -/
abbrev Steady (idx : FileIndex) : Prop := Sound (fun _ => False) 0 idx

variable {H : String → Prop} {k : Int} {idx : FileIndex} {x : String}

theorem Steady.consistent (h : Steady idx) : Consistent idx := by
  refine ⟨h.counts.files, by rw [h.counts.dirs]; omega, h.counts.notFound, h.counts.bytes,
    fun p hp => h.disjoint p hp.1 hp.2, fun p _ => h.lists.nodup p, fun p _ => h.lists.base p, fun p b hp hb => ?_⟩
  rw [h.lists.listed p b hp hb, or_false]
  rfl

theorem steady_new : Steady newFileIndex := by
  refine ⟨⟨rfl, rfl, rfl, rfl⟩, fun p hp => absurd hp (AList.notMem_empty p), ?_, fun _ h => h.elim,
    fun p hp => absurd hp (AList.notMem_empty p)⟩
  refine ⟨fun _ => List.nodup_nil, fun _ _ => rfl, fun _ b hb => absurd hb List.not_mem_nil, fun p b _ _ => ?_⟩
  simp [newFileIndex, Indexed]

/-! ### `NotFound` -/

theorem Sound.withNotFound (h : Sound H k idx) {m : PathMap Int} {n : Int} (hn : n = m.keys.length) :
    Sound H k { idx with notFound := m, notFoundCount := n } :=
  ⟨⟨h.counts.files, h.counts.dirs, h.counts.bytes, hn⟩, h.disjoint, h.lists, h.hole, h.clean⟩

theorem prune_loop (now : Int) (es : List (Sigma fun _ : String => Int)) (acc : PathMap Int × Int)
    (hnd : (es.map Sigma.fst).Nodup) (hm : ∀ e ∈ es, e.1 ∈ acc.1) :
    ((es.foldl (pruneEntry now) acc).1.keys.length : Int) + (es.foldl (pruneEntry now) acc).2 =
      acc.1.keys.length + acc.2 := by
  induction es generalizing acc with
  | nil => rfl
  | cons e es ih =>
    rw [List.map_cons, List.nodup_cons] at hnd
    rw [List.foldl_cons]
    have hstep : ((pruneEntry now acc e).1.keys.length : Int) + (pruneEntry now acc e).2 =
        acc.1.keys.length + acc.2 := by
      unfold pruneEntry
      split_ifs
      · dsimp only
        rw [length_erase (hm e (List.mem_cons_self ..))]; omega
      · rfl
    rw [ih _ hnd.2, hstep]
    intro e' he'
    have hold := hm e' (List.mem_cons_of_mem _ he')
    unfold pruneEntry
    split_ifs
    · refine AList.mem_erase.2 ⟨fun he => hnd.1 ?_, hold⟩
      rw [← he]; exact List.mem_map_of_mem he'
    · exact hold

theorem Sound.pruneNotFound (h : Sound H k idx) (now : Int) : Sound H k (idx.pruneNotFound now) := by
  have hloop := prune_loop now idx.notFound.entries (idx.notFound, 0) idx.notFound.keys_nodup fun e he =>
    AList.mem_keys.2 (List.mem_map_of_mem he)
  refine h.withNotFound ?_
  dsimp only at hloop
  rw [h.counts.notFound]
  omega

theorem Sound.insertNotFound (h : Sound H k idx) (path : String) (expireAt now : Int) :
    Sound H k (idx.insertNotFound path expireAt now) := by
  have hins : ∀ idx' : FileIndex, Sound H k idx' → Sound H k { idx' with
      notFound := idx'.notFound.insert path expireAt
      notFoundCount := if path ∈ idx'.notFound then idx'.notFoundCount else idx'.notFoundCount + 1 } := by
    intro idx' h'
    refine h'.withNotFound ?_
    split_ifs with hp
    · rw [length_insert_old hp, h'.counts.notFound]
    · rw [length_insert_new hp, h'.counts.notFound]
  refine hins _ ?_
  dsimp only
  split_ifs
  · exact (h.pruneNotFound now).withNotFound (m := ∅) (n := 0) rfl
  · exact h.pruneNotFound now
  · exact h

/-! ### Files and directories -/

theorem Sound.withDirsCount (h : Sound H k idx) (k' : Int) :
    Sound H k' { idx with dirsCount := idx.dirsCount + (k' - k) } := by
  refine ⟨⟨h.counts.files, ?_, h.counts.bytes, h.counts.notFound⟩, h.disjoint, h.lists, h.hole, h.clean⟩
  dsimp only
  rw [h.counts.dirs]; omega

theorem Sound.removeChild_unlisted (h : Sound H k idx)
    (hx : ∀ p b, Ordinary p → Base b → p ++ "/" ++ b = x → ¬ (idx.Indexed x ∨ H x))
    (hempty : idx.children x = []) : Sound H k (idx.removeChild x) := by
  refine ⟨⟨h.counts.files, h.counts.dirs, h.counts.bytes, h.counts.notFound⟩, h.disjoint, ?_, h.hole, h.clean⟩
  refine (h.lists.removeChild x fun b hxo hb => Childless.of_children h hempty b hxo hb).congr_under fun p b hp hb => ?_
  refine and_iff_left_of_imp fun hi e => ?_
  exact hx p b hp hb e (e ▸ hi)

theorem Sound.insertFile (h : Sound H k idx) (hx : ¬ H x) (hdir : x ∉ idx.dirs) (info : FileInfo) {count bytes : Int}
    (hc : count = (idx.files.insert x info).keys.length) (hb : bytes = weight FileInfo.size (idx.files.insert x info)) :
    Sound H k (addChild { idx with files := idx.files.insert x info, filesCount := count, totalBytes := bytes } x) := by
  set idx₁ : FileIndex := { idx with files := idx.files.insert x info, filesCount := count, totalBytes := bytes }
  have hmem : ∀ p, p ∈ idx₁.files ↔ p = x ∨ p ∈ idx.files := fun p => AList.mem_insert _
  have hframe : (idx₁.addChild x).files = idx₁.files ∧ (idx₁.addChild x).dirs = idx.dirs ∧
      Counts k (idx₁.addChild x) := by
    unfold addChild
    dsimp only
    split_ifs <;> exact ⟨rfl, rfl, hc, h.counts.dirs, hb, h.counts.notFound⟩
  obtain ⟨hf, hd, hcounts⟩ := hframe
  have hindexed : ∀ p, (idx₁.addChild x).Indexed p ↔ idx.Indexed p ∨ p = x := by
    intro p
    unfold Indexed
    rw [hf, hd, hmem]
    tauto
  refine ⟨hcounts, fun p hp => ?_, ?_, fun p hp => ?_, by rw [hd]; exact h.clean⟩
  · rw [hf, hmem] at hp
    rw [hd]
    rcases hp with rfl | hp
    exacts [hdir, h.disjoint p hp]
  · have hl : Lists (fun p => idx.Indexed p ∨ H p) idx₁.children := h.lists
    refine (hl.addChild x).congr fun p => ?_
    rw [hindexed]; tauto
  · rw [hindexed]
    rintro (hi | rfl)
    exacts [h.hole p hp hi, hx hp]

theorem Steady.storeFile (h : Steady idx) (hdir : x ∉ idx.dirs) (info : FileInfo) : Steady (idx.storeFile x info) := by
  unfold FileIndex.storeFile
  cases hold : idx.files.lookup x with
  | none =>
    have hnew : x ∉ idx.files := AList.lookup_eq_none.1 hold
    refine Sound.insertFile h (fun h => h) hdir info ?_ ?_
    · rw [length_insert_new hnew, h.counts.files]
    · rw [weight_insert, erase_of_notMem hnew, ← h.counts.bytes]
      split_ifs <;> omega
  | some old =>
    have hmem : x ∈ idx.files := AList.lookup_isSome.1 (by rw [hold]; rfl)
    refine Sound.insertFile h (fun h => h) hdir info ?_ ?_
    · rw [length_insert_old hmem, h.counts.files]
    · rw [weight_insert, weight_erase _ hold, ← h.counts.bytes]
      split_ifs <;> omega

theorem Steady.dirToFile (h : Steady idx) (hdir : x ∈ idx.dirs) (hclean : pathClean x = x) (hp : idx.Prunable x) :
    Steady (idx.dirToFile x) ∧ x ∉ (idx.dirToFile x).dirs := by
  obtain ⟨h1, h2, -⟩ := Sound.deleteDir h hdir
  have h3 : Sound (fun p => False ∨ p = x) 1 { idx with dirs := idx.dirs.erase x } := by
    have := h1.withDirsCount 1
    have he : idx.dirsCount - 1 + (1 - 0) = idx.dirsCount := by omega
    simpa only [deleteDir, he] using this
  have hshr : Shrinks idx { idx with dirs := idx.dirs.erase x } := ⟨h2.files, h2.dirs, h2.length, h2.children⟩
  have hbelow : NotBelow (fun p => False ∨ p = x) x := by
    rintro s (hs | hs)
    · exact hs
    · have := congrArg (fun s : String => s.toList.length) hs
      simp at this
  obtain ⟨h4, h5, h6⟩ := removeDescendants_sound h3 hclean hbelow (hp.mono hshr)
  refine ⟨?_, fun hd => h4.hole x (.inr rfl) (.inr hd)⟩
  have h7 := h4.withDirsCount 0
  refine Sound.removeChild h7 (fun h => h) fun b hxo hb hi => ?_
  exact Childless.of_children h4 h6 b hxo hb (hi.imp_right .inl)

theorem Steady.putFile (h : Steady idx) (hclean : pathClean x = x)
    (hp : idx.isBlocked x = false → x ∈ idx.dirs → idx.Prunable x) (info : FileInfo) : Steady (idx.putFile x info) := by
  unfold FileIndex.putFile
  split_ifs with hb hd
  · exact h
  · obtain ⟨h1, h2⟩ := h.dirToFile hd hclean (hp (by simpa using hb) hd)
    exact h1.storeFile h2 info
  · exact h.storeFile hd info

theorem Steady.putDir (h : Steady idx) (hclean : pathClean x = x) : Steady (idx.putDir x) := by
  unfold FileIndex.putDir
  split_ifs with hf hd
  · exact h
  · exact h
  set idx₁ : FileIndex := { idx with dirs := idx.dirs.insert x true, dirsCount := idx.dirsCount + 1 }
  have hmem : ∀ p, p ∈ idx₁.dirs ↔ p = x ∨ p ∈ idx.dirs := fun p => AList.mem_insert _
  have hcount : idx₁.dirsCount = idx₁.dirs.keys.length + 0 := by
    show idx.dirsCount + 1 = ((idx.dirs.insert x true).keys.length : Int) + 0
    rw [length_insert_new hd, h.counts.dirs]; omega
  have hframe : (idx₁.addChild x).files = idx.files ∧ (idx₁.addChild x).dirs = idx₁.dirs ∧
      Counts 0 (idx₁.addChild x) := by
    unfold addChild
    dsimp only
    split_ifs <;> exact ⟨rfl, rfl, h.counts.files, hcount, h.counts.bytes, h.counts.notFound⟩
  obtain ⟨hfiles, hdirs, hcounts⟩ := hframe
  refine ⟨hcounts, fun p hp => ?_, ?_, fun _ h => h.elim, fun p hp => ?_⟩
  · rw [hfiles] at hp
    rw [hdirs, hmem]
    rintro (rfl | hd')
    exacts [hf hp, h.disjoint p hp hd']
  · have hl : Lists (fun p => idx.Indexed p ∨ False) idx₁.children := h.lists
    refine (hl.addChild x).congr fun p => ?_
    unfold Indexed
    rw [hfiles, hdirs, hmem]
    tauto
  · rw [hdirs, hmem] at hp
    rcases hp with rfl | hp
    exacts [hclean, h.clean p hp]

theorem Steady.deleteFile (h : Steady idx) (hp : x ∈ idx.files → idx.Childless x) : Steady (idx.deleteFile x) := by
  by_cases hf : x ∈ idx.files
  · refine (Sound.deleteFile h hf fun b _ hb hi => ?_).1
    exact hp hf b hb (hi.resolve_right fun h => h)
  · rw [deleteFile_of_notMem hf]; exact h

theorem Steady.removeDir (h : Steady idx) (hclean : pathClean x = x)
    (hf : x ∈ idx.files → ¬ Ordinary (splitPathParentBase x).1) (hp : idx.Prunable x) : Steady (idx.removeDir x) := by
  obtain ⟨h1, h2, h3⟩ := removeDescendants_sound h hclean (fun _ h => h) hp
  unfold FileIndex.removeDir
  dsimp only
  split_ifs with hd
  · obtain ⟨h4, -, -⟩ := h1.deleteDir hd
    refine Sound.clearNotFound (h4.removeChild (fun h => h) fun b hxo hb hi => ?_) x
    exact Childless.of_children h4 h3 b hxo hb (hi.imp_right .inl)
  · refine Sound.clearNotFound (h1.removeChild_unlisted (fun p b hpo hb he hi => ?_) h3) x
    rcases hi with (hi | hi) | hi
    · refine hf (h2.files x hi) ?_
      rw [← he, split_under hpo.1 hb]; exact hpo
    · exact hd hi
    · exact hi

/-! ### Runs -/

theorem apply_steady (h : Steady idx) (op : Op) (hclean : ∀ p ∈ op.path?, pathClean p = p) (hop : idx.Allowed op) :
    Steady (idx.apply op) := by
  cases op with
  | insertFile path info =>
    simp only [apply, insertFile]
    split_ifs
    · exact h
    · exact Sound.clearNotFound (h.putFile (hclean path rfl) hop info) path
  | insertDir path => exact Sound.clearNotFound (h.putDir (hclean path rfl)) path
  | removeFile path => exact Sound.clearNotFound (h.deleteFile hop) path
  | removeDir path => exact h.removeDir (hclean path rfl) hop.1 hop.2
  | blockFile path =>
    simp only [apply, blockFile]
    split_ifs
    · exact h
    · have hb : Steady { idx with blocked := idx.blocked.insert path true } :=
        ⟨⟨h.counts.files, h.counts.dirs, h.counts.bytes, h.counts.notFound⟩, h.disjoint, h.lists, h.hole, h.clean⟩
      exact Sound.clearNotFound (hb.deleteFile hop) path
  | unblockFile path =>
    simp only [apply, unblockFile]
    split_ifs
    · exact h
    · exact ⟨⟨h.counts.files, h.counts.dirs, h.counts.bytes, h.counts.notFound⟩, h.disjoint, h.lists, h.hole,
        h.clean⟩
  | insertNotFound path expireAt now => exact Sound.insertNotFound h path expireAt now
  | pruneNotFound now => exact Sound.pruneNotFound h now

theorem run_steady (ops : List Op) (h : Steady idx) (hclean : ∀ op ∈ ops, ∀ p ∈ op.path?, pathClean p = p)
    (hops : Along Allowed idx ops) : Steady (idx.run ops) := by
  induction ops generalizing idx with
  | nil => exact h
  | cons op ops ih =>
    exact ih (apply_steady h op (hclean op (List.mem_cons_self ..)) hops.1)
      (fun op' h' => hclean op' (List.mem_cons_of_mem _ h')) hops.2

/-- Every run of operations on clean paths, none of which removes a file that has something indexed
below it or calls `removeDir` on a file, keeps the index consistent. -/
theorem run_consistent (ops : List Op) (hclean : ∀ op ∈ ops, ∀ p ∈ op.path?, pathClean p = p)
    (hops : Along Allowed newFileIndex ops) : Consistent (newFileIndex.run ops) :=
  (run_steady ops steady_new hclean hops).consistent

theorem Childless.of_length {idx : FileIndex} {p : String}
    (h : ∀ q ∈ idx.files.keys ++ idx.dirs.keys, q.toList.length ≤ p.toList.length) : idx.Childless p := by
  intro b _ hi
  have hq : p ++ "/" ++ b ∈ idx.files.keys ++ idx.dirs.keys :=
    List.mem_append.2 (hi.imp AList.mem_keys.1 AList.mem_keys.1)
  have := h _ hq
  simp only [String.toList_append, List.length_append] at this
  have hslash : "/".toList.length = 1 := rfl
  omega

/-- A directory is filled and removed, and its file comes back and goes. -/
def refillOps : List Op :=
  [.insertDir "a", .insertFile "a/b" ⟨3, 1⟩, .insertNotFound "a/c" 5 0, .removeDir "a", .insertFile "a/b" ⟨4, 2⟩,
    .removeFile "a/b"]

theorem run_consistent_refilled : Consistent (newFileIndex.run refillOps) := by
  refine run_consistent refillOps (by decide) ?_
  refine ⟨trivial, fun _ h => absurd h (by decide), trivial, ⟨fun h => absurd h (by decide), ?_⟩,
    fun _ h => absurd h (by decide), fun _ => .of_length (by decide), trivial⟩
  intro q _ c _ hf
  refine .of_length fun p hp => ?_
  have hp' : p.toList.length ≤ 3 := by
    revert p; decide
  have hf' : q ++ "/" ++ c = "a/b" := by
    have := AList.mem_keys.1 hf
    have hk : AList.keys (apply (apply (apply newFileIndex (.insertDir "a")) (.insertFile "a/b" ⟨3, 1⟩))
      (.insertNotFound "a/c" 5 0)).files = ["a/b"] := by decide
    rw [hk] at this
    exact List.mem_singleton.1 this
  rw [hf']
  exact hp'

theorem removeDir_unlists_file : ¬ Consistent (newFileIndex.run [.insertFile "a/b" ⟨3, 1⟩, .removeDir "a/b"]) := by
  intro h
  have := (h.listed "a" "b" ⟨by decide, by decide, by decide⟩ (show '/' ∉ "b".toList by decide)).2 (.inl (by decide))
  revert this
  decide
end FileIndex
end Renop.Index
