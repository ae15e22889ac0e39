import Renop.IndexSubtree

/-!
# The counters after every run

The counters do not depend on the listings: whatever the walk of `removeDescendants` gets to, it counts.
-/

namespace Renop.Index
namespace FileIndex

variable {idx idx' : FileIndex} {k : Int} {d x : String}

theorem Counts.congr (h : Counts k idx) (hf : idx'.files = idx.files) (hd : idx'.dirs = idx.dirs)
    (hn : idx'.notFound = idx.notFound)
    (hfc : idx'.filesCount = idx.filesCount) (hdc : idx'.dirsCount = idx.dirsCount) (hb : idx'.totalBytes = idx.totalBytes)
    (hnc : idx'.notFoundCount = idx.notFoundCount) : Counts k idx' := by
  constructor <;> simp only [hf, hd, hn, hfc, hdc, hb, hnc]
  · exact h.files
  · exact h.dirs
  · exact h.bytes
  · exact h.notFound

theorem Counts.removeChild (h : Counts k idx) (x : String) :
    Counts k (idx.removeChild x) := h.congr rfl rfl rfl rfl rfl rfl rfl

theorem Counts.addChild (h : Counts k idx) (x : String) : Counts k (idx.addChild x) := by
  unfold FileIndex.addChild
  dsimp only
  split_ifs <;> exact h.congr rfl rfl rfl rfl rfl rfl rfl

theorem Counts.clearNotFound (h : Counts k idx) (x : String) : Counts k (idx.clearNotFound x) := by
  unfold FileIndex.clearNotFound
  split_ifs with hx
  · refine ⟨h.files, h.dirs, h.bytes, ?_⟩
    dsimp only
    rw [length_erase hx, h.notFound]
  · exact h

theorem Counts.clearNotFoundBelow (h : Counts k idx) (d : String) : Counts k (idx.clearNotFoundBelow d) := by
  unfold FileIndex.clearNotFoundBelow
  generalize idx.notFound.keys = ks
  induction ks generalizing idx with
  | nil => exact h
  | cons p ks ih =>
    rw [List.foldl_cons]
    split_ifs
    · exact ih (h.clearNotFound p)
    · exact ih h

theorem Counts.deleteFile (h : Counts k idx) (x : String) : Counts k (idx.deleteFile x) := by
  unfold FileIndex.deleteFile
  cases hold : idx.files.lookup x with
  | none => exact h
  | some old =>
    have hx : x ∈ idx.files := AList.lookup_isSome.1 (by rw [hold]; rfl)
    have h₁ : Counts k { idx with
        files := idx.files.erase x
        filesCount := idx.filesCount - 1
        totalBytes := if old.size ≠ 0 then idx.totalBytes - old.size else idx.totalBytes } := by
      refine ⟨?_, h.dirs, ?_, h.notFound⟩
      · show idx.filesCount - 1 = ((idx.files.erase x).keys.length : Int)
        rw [length_erase hx, h.files]
      · show (if old.size ≠ 0 then idx.totalBytes - old.size else idx.totalBytes) = weight _ (idx.files.erase x)
        rw [weight_erase _ hold, ← h.bytes]
        split_ifs <;> omega
    exact h₁.removeChild x

theorem Counts.deleteDir (h : Counts k idx) (hx : x ∈ idx.dirs) : Counts k (idx.deleteDir x) := by
  refine ⟨h.files, ?_, h.bytes, h.notFound⟩
  show idx.dirsCount - 1 = ((idx.dirs.erase x).keys.length : Int) + k
  rw [length_erase hx, h.dirs]
  omega

theorem Counts.removeDescendantsFuel (n : Nat) (h : Counts k idx) (d : String) :
    Counts k (removeDescendantsFuel n idx d) := by
  induction n generalizing idx d with
  | zero => exact h
  | succ n ih =>
    have hstep : ∀ (dir : String) (idx : FileIndex) (c : String), Counts k idx →
        Counts k (removeDescendant (FileIndex.removeDescendantsFuel n) dir idx c) := by
      intro dir idx c h
      have h₁ := h.deleteFile (dir ++ "/" ++ c)
      unfold removeDescendant
      dsimp only
      split_ifs with hd
      · exact ((ih (h₁.deleteDir hd) _).removeChild _).clearNotFound _
      · exact h₁.clearNotFound _
    have hloop : ∀ (dir : String) (cs : List String) (idx : FileIndex), Counts k idx →
        Counts k (cs.foldl (removeDescendant (FileIndex.removeDescendantsFuel n) dir) idx) := by
      intro dir cs
      induction cs with
      | nil => exact fun _ h => h
      | cons c cs ihc => exact fun idx h => ihc _ (hstep dir idx c h)
    exact (hloop _ _ _ h).clearNotFoundBelow _

theorem Counts.removeDescendants (h : Counts k idx) (d : String) :
    Counts k (idx.removeDescendants d) := h.removeDescendantsFuel _ d

theorem Counts.removeDir (h : Counts k idx) (d : String) : Counts k (idx.removeDir d) := by
  have h₁ := h.removeDescendants d
  unfold FileIndex.removeDir
  dsimp only
  split_ifs with hd
  · exact ((h₁.deleteDir hd).removeChild d).clearNotFound d
  · exact (h₁.removeChild d).clearNotFound d

theorem Counts.dirToFile (h : Counts 0 idx) (hx : x ∈ idx.dirs) : Counts 0 (idx.dirToFile x) := by
  have h₁ : Counts 1 { idx with dirs := idx.dirs.erase x } := by
    refine ⟨h.files, ?_, h.bytes, h.notFound⟩
    show idx.dirsCount = ((idx.dirs.erase x).keys.length : Int) + 1
    rw [length_erase hx, h.dirs]
    omega
  have h₂ := h₁.removeDescendants x
  have h₃ : Counts 0 { FileIndex.removeDescendants { idx with dirs := idx.dirs.erase x } x with
      dirsCount := (FileIndex.removeDescendants { idx with dirs := idx.dirs.erase x } x).dirsCount - 1 } := by
    refine ⟨h₂.files, ?_, h₂.bytes, h₂.notFound⟩
    dsimp only
    rw [h₂.dirs]
    omega
  exact h₃.removeChild x

theorem Counts.storeFile (h : Counts k idx) (x : String) (info : FileInfo) : Counts k (idx.storeFile x info) := by
  have hstore : ∀ {count bytes : Int}, count = ((idx.files.insert x info).keys.length : Int) →
      bytes = weight FileInfo.size (idx.files.insert x info) →
      Counts k (FileIndex.addChild { idx with files := idx.files.insert x info, filesCount := count, totalBytes := bytes }
          x) := by
    intro count bytes hc hb
    have h₁ : Counts k { idx with files := idx.files.insert x info, filesCount := count, totalBytes := bytes } :=
      ⟨hc, h.dirs, hb, h.notFound⟩
    exact h₁.addChild x
  unfold FileIndex.storeFile
  cases hold : idx.files.lookup x with
  | none =>
    have hnew : x ∉ idx.files := AList.lookup_eq_none.1 hold
    refine hstore ?_ ?_
    · rw [length_insert_new hnew, h.files]
    · rw [weight_insert, erase_of_notMem hnew, ← h.bytes]
      split_ifs <;> omega
  | some old =>
    have hmem : x ∈ idx.files := AList.lookup_isSome.1 (by rw [hold]; rfl)
    refine hstore ?_ ?_
    · rw [length_insert_old hmem, h.files]
    · rw [weight_insert, weight_erase _ hold, ← h.bytes]
      split_ifs <;> omega

theorem Counts.insertFile (h : Counts 0 idx) (x : String) (info : FileInfo) : Counts 0 (idx.insertFile x info) := by
  unfold FileIndex.insertFile FileIndex.putFile
  split_ifs with hb hd
  · exact h
  · exact ((h.dirToFile hd).storeFile x info).clearNotFound x
  · exact (h.storeFile x info).clearNotFound x

theorem Counts.insertDir (h : Counts k idx) (x : String) : Counts k (idx.insertDir x) := by
  unfold FileIndex.insertDir FileIndex.putDir
  split_ifs with hf hd
  · exact h.clearNotFound x
  · exact h.clearNotFound x
  · have h₁ : Counts k { idx with dirs := idx.dirs.insert x true, dirsCount := idx.dirsCount + 1 } := by
      refine ⟨h.files, ?_, h.bytes, h.notFound⟩
      show idx.dirsCount + 1 = ((idx.dirs.insert x true).keys.length : Int) + k
      rw [length_insert_new hd, h.dirs]
      omega
    exact (h₁.addChild x).clearNotFound x

theorem Counts.removeFile (h : Counts k idx) (x : String) : Counts k (idx.removeFile x) := (h.deleteFile x).clearNotFound x

theorem Counts.pruneNotFound (h : Counts k idx) (now : Int) : Counts k (idx.pruneNotFound now) := by
  have hloop := prune_loop now idx.notFound.entries (idx.notFound, 0) idx.notFound.keys_nodup fun e he =>
    AList.mem_keys.2 (List.mem_map_of_mem he)
  dsimp only at hloop
  refine ⟨h.files, h.dirs, h.bytes, ?_⟩
  show idx.notFoundCount - (idx.notFound.entries.foldl (pruneEntry now) (idx.notFound, 0)).2 =
    ((idx.notFound.entries.foldl (pruneEntry now) (idx.notFound, 0)).1.keys.length : Int)
  rw [h.notFound]
  omega

theorem Counts.insertNotFound (h : Counts k idx) (path : String) (expireAt now : Int) :
    Counts k (idx.insertNotFound path expireAt now) := by
  have hins : ∀ idx' : FileIndex, Counts k idx' → Counts k { idx' with
      notFound := idx'.notFound.insert path expireAt
      notFoundCount := if path ∈ idx'.notFound then idx'.notFoundCount else idx'.notFoundCount + 1 } := by
    intro idx' h'
    refine ⟨h'.files, h'.dirs, h'.bytes, ?_⟩
    dsimp only
    split_ifs with hp
    · rw [length_insert_old hp, h'.notFound]
    · rw [length_insert_new hp, h'.notFound]
  refine hins _ ?_
  dsimp only
  split_ifs
  · exact ⟨h.files, h.dirs, h.bytes, rfl⟩
  · exact h.pruneNotFound now
  · exact h

theorem apply_counts (h : Counts 0 idx) (op : Op) : Counts 0 (idx.apply op) := by
  cases op with
  | insertFile path info => exact h.insertFile path info
  | insertDir path => exact h.insertDir path
  | removeFile path => exact h.removeFile path
  | removeDir path => exact h.removeDir path
  | blockFile path =>
    simp only [apply, blockFile]
    split_ifs
    · exact h
    · have hb : Counts 0 { idx with blocked := idx.blocked.insert path true } := h.congr rfl rfl rfl rfl rfl rfl rfl
      exact hb.removeFile path
  | unblockFile path =>
    simp only [apply, unblockFile]
    split_ifs
    · exact h
    · exact h.congr rfl rfl rfl rfl rfl rfl rfl
  | insertNotFound path expireAt now => exact h.insertNotFound path expireAt now
  | pruneNotFound now => exact h.pruneNotFound now

theorem run_counts (ops : List Op) (h : Counts 0 idx) : Counts 0 (idx.run ops) := by
  induction ops generalizing idx with
  | nil => exact h
  | cons op ops ih => exact ih (apply_counts h op)

/-! ### What an operation leaves -/

theorem split_iff {p b : String} (hp : Ordinary p) : splitPathParentBase x = (p, b) ↔ x = p ++ "/" ++ b ∧ Base b := by
  constructor
  · exact fun h => under_split h hp
  · rintro ⟨rfl, hb⟩
    exact split_under hp.1 hb

/-- All that is neither `f` nor below it is as it was. -/
structure Aside (idx : FileIndex) (f : String) (idx' : FileIndex) : Prop where
  blocked : idx'.blocked = idx.blocked
  filesSub : ∀ y ∈ idx'.files, y = f ∨ y ∈ idx.files
  dirsSub : ∀ y ∈ idx'.dirs, y = f ∨ y ∈ idx.dirs
  files : ∀ y, ¬Below f y → idx'.files.lookup y = idx.files.lookup y
  dirs : ∀ y, ¬Below f y → idx'.dirs.lookup y = idx.dirs.lookup y
  children : ∀ p b, ¬Below f (p ++ "/" ++ b) → (b ∈ idx'.children p ↔ b ∈ idx.children p)

theorem Aside.clearNotFound (h : Aside idx d idx') (x : String) : Aside idx d (idx'.clearNotFound x) := by
  obtain ⟨h1, h2, h3, h4⟩ := clearNotFound_frame idx' x
  constructor <;> simp only [h1, h2, h3, h4]
  · exact h.blocked
  · exact h.filesSub
  · exact h.dirsSub
  · exact h.files
  · exact h.dirs
  · exact h.children

theorem aside_dirToFile (hg : Good idx) (hx : x ∈ idx.dirs) : Aside idx x (idx.dirToFile x) := by
  obtain ⟨h, -, -, herased⟩ := pruned_dirToFile hg.toTidy hx
  have hW : ∀ y, ¬Below x y → ¬(y = x ∨ idx.Walked x y) := by
    rintro y hy (rfl | hw)
    · exact hy (.inl rfl)
    · exact hy (.inr hw.under)
  refine ⟨h.blocked, fun y hy => .inr ((h.mem_files y).1 hy).1, fun y hy => .inr ((h.mem_dirs y).1 hy).1, fun y hy =>
    h.files y (hW y hy), fun y hy => h.dirs y (hW y hy), fun p b hy => ?_⟩
  have hp : ¬Below x p := by
    rintro (rfl | hp)
    · exact hy (.inr (under_child p b))
    · exact hy (.inr (hp.trans (under_child p b)))
  rw [herased p hp]
  split_ifs with hpar
  · rw [(hg.nodup p).mem_erase_iff, and_iff_right_iff_imp]
    rintro hb rfl
    refine hy (.inl (under_split ?_ (hg.ordinary hb)).1.symm)
    rw [hpar]
  · rfl

theorem Aside.storeFile (h : Aside idx x idx') (info : FileInfo) : Aside idx x (idx'.storeFile x info) := by
  have hs := stored_storeFile idx' x info
  refine ⟨hs.blocked.trans h.blocked, fun y hy => ?_, fun y hy => ?_, fun y hy => ?_, fun y hy => ?_, fun p b hy => ?_⟩
  · by_cases hyx : y = x
    · exact .inl hyx
    · exact h.filesSub y ((mem_iff_of_lookup (hs.files y hyx)).1 hy)
  · rw [hs.dirs] at hy
    exact h.dirsSub y hy
  · exact (hs.files y fun hyx => hy (.inl hyx)).trans (h.files y hy)
  · rw [hs.dirs]
    exact h.dirs y hy
  · rw [hs.children, h.children p b hy, or_iff_left]
    rintro ⟨hp, hsplit⟩
    exact hy (.inl ((split_iff hp).1 hsplit).1.symm)

theorem Aside.refl (idx : FileIndex) (f : String) : Aside idx f idx :=
  ⟨rfl, fun _ h => .inr h, fun _ h => .inr h, fun _ _ => rfl, fun _ _ => rfl, fun _ _ _ => .rfl⟩

theorem aside_insertFile (hg : Good idx) (x : String) (info : FileInfo) : Aside idx x (idx.insertFile x info) := by
  unfold FileIndex.insertFile FileIndex.putFile
  split_ifs with hb hd
  · exact .refl idx x
  · exact ((aside_dirToFile hg hd).storeFile info).clearNotFound x
  · exact ((Aside.refl idx x).storeFile info).clearNotFound x

theorem insertFile_self (hg : Good idx) (hb : idx.isBlocked x = false) (info : FileInfo) :
    (idx.insertFile x info).files.lookup x = some info ∧ x ∉ (idx.insertFile x info).dirs ∧
      ∀ p b, Ordinary p → Base b → x = p ++ "/" ++ b → b ∈ (idx.insertFile x info).children p := by
  have hstore : ∀ idx' : FileIndex, x ∉ idx'.dirs → ((idx'.storeFile x info).clearNotFound x).files.lookup x =
    some info ∧ x ∉ ((idx'.storeFile x info).clearNotFound x).dirs ∧
      ∀ p b, Ordinary p → Base b → x = p ++ "/" ++ b →
          b ∈ ((idx'.storeFile x info).clearNotFound x).children p := by
    intro idx' hd
    have hs := stored_storeFile idx' x info
    have hc := pruned_clearNotFound (idx'.storeFile x info) x
    refine ⟨(hc.files x fun h => h).trans hs.file, fun hm => ?_, fun p b hp hbase hx => ?_⟩
    · have hm := ((hc.mem_dirs x).1 hm).1
      rw [hs.dirs] at hm
      exact hd hm
    · rw [(clearNotFound_frame _ x).2.2.2, hs.children]
      exact .inr ⟨hp, (split_iff hp).2 ⟨hx, hbase⟩⟩
  by_cases hd : x ∈ idx.dirs
  · have heq : idx.insertFile x info = ((idx.dirToFile x).storeFile x info).clearNotFound
      x := by simp [insertFile, putFile, hb, hd]
    rw [heq]
    exact hstore _ ((pruned_dirToFile hg.toTidy hd).1.removed x (.inl rfl)).2
  · have heq : idx.insertFile x info = (idx.storeFile x info).clearNotFound x := by simp [insertFile, putFile, hb, hd]
    rw [heq]
    exact hstore _ hd

theorem removeFile_spec (hg : Good idx) (hx : x ∈ idx.files) :
    (idx.removeFile x).files = idx.files.erase x ∧ (idx.removeFile x).dirs = idx.dirs ∧
      (idx.removeFile x).blocked = idx.blocked ∧
      ∀ p b, b ∈ (idx.removeFile x).children p ↔ b ∈ idx.children p ∧ p ≠ x ∧ p ++ "/" ++ b ≠ x := by
  obtain ⟨old, hold⟩ := Option.isSome_iff_exists.1 (AList.lookup_isSome.2 hx)
  unfold FileIndex.removeFile FileIndex.deleteFile
  rw [hold]
  dsimp only
  set idx₁ : FileIndex := { idx with
    files := idx.files.erase x
    filesCount := idx.filesCount - 1
    totalBytes := if old.size ≠ 0 then idx.totalBytes - old.size else idx.totalBytes } with hidx₁
  have ht₁ : Tidy idx₁ := ⟨fun p hp => hg.disjoint p (AList.mem_erase.1 hp).2, hg.clean, hg.nodup, hg.special,
    hg.base⟩
  obtain ⟨h1, h2, h3, h4⟩ := clearNotFound_frame (idx₁.removeChild x) x
  refine ⟨h1, h2, h3, fun p b => ?_⟩
  rw [h4]
  exact ht₁.mem_removeChild

theorem removeFile_of_notMem (hx : x ∉ idx.files) : idx.removeFile x = idx.clearNotFound x := by
  rw [FileIndex.removeFile, deleteFile_of_notMem hx]

theorem insertDir_spec (hx : x ∉ idx.files) (hd : x ∉ idx.dirs) :
    (idx.insertDir x).files = idx.files ∧ (idx.insertDir x).dirs = idx.dirs.insert x true ∧
      (idx.insertDir x).blocked = idx.blocked ∧
      ∀ p b, b ∈ (idx.insertDir x).children p ↔ b ∈ idx.children p ∨ Ordinary p ∧ Base b ∧
        p ++ "/" ++ b = x := by
  unfold FileIndex.insertDir FileIndex.putDir
  rw [if_neg hx, if_neg hd]
  obtain ⟨h1, h2, h3, -⟩ := addChild_frame { idx with dirs := idx.dirs.insert x true, dirsCount := idx.dirsCount + 1 } x
  obtain ⟨h4, h5, h6, h7⟩ :=
    clearNotFound_frame (FileIndex.addChild { idx with dirs := idx.dirs.insert x true, dirsCount := idx.dirsCount + 1 } x) x
  refine ⟨h4.trans h1, h5.trans h2, h6.trans h3, fun p b => ?_⟩
  rw [h7, mem_children_addChild]
  refine or_congr_right (and_congr_right fun hp => ?_)
  rw [split_iff hp, and_comm, eq_comm]

/-! ### Blocked paths -/

/-- No file is blocked. -/
def Unblocked (idx : FileIndex) : Prop := ∀ p ∈ idx.files, idx.isBlocked p = false

theorem Unblocked.of_shrinks (h : Unblocked idx) (hf : ∀ p ∈ idx'.files, p ∈ idx.files)
    (hb : idx'.blocked = idx.blocked) :
    Unblocked idx' := by
  intro p hp
  unfold isBlocked
  rw [hb]
  exact h p (hf p hp)

theorem removeDir_shrinks (hg : Good idx) (hclean : pathClean d = d) :
    (∀ p ∈ (idx.removeDir d).files, p ∈ idx.files) ∧ (idx.removeDir d).blocked = idx.blocked := by
  obtain ⟨h, -⟩ := removeDescendants_prunes hg.toTidy hclean
  obtain ⟨hf, -, hb, -⟩ := removeDir_frame idx d
  rw [hf, hb]
  exact ⟨fun p hp => ((h.mem_files p).1 hp).1, h.blocked⟩

theorem Unblocked.removeFile (h : Unblocked idx) (hg : Good idx) (x : String) : Unblocked (idx.removeFile x) := by
  by_cases hx : x ∈ idx.files
  · obtain ⟨hf, -, hb, -⟩ := removeFile_spec hg hx
    refine h.of_shrinks (fun p hp => ?_) hb
    rw [hf] at hp
    exact (AList.mem_erase.1 hp).2
  · rw [removeFile_of_notMem hx]
    obtain ⟨hf, -, hb, -⟩ := clearNotFound_frame idx x
    refine h.of_shrinks (fun p hp => ?_) hb
    rwa [hf] at hp

theorem Unblocked.insertFile (h : Unblocked idx) (hg : Good idx) (x : String) (info : FileInfo) :
    Unblocked (idx.insertFile x info) := by
  by_cases hb : idx.isBlocked x
  · rwa [FileIndex.insertFile, if_pos hb]
  · have ha := aside_insertFile hg x info
    intro p hp
    unfold isBlocked
    rw [ha.blocked]
    rcases ha.filesSub p hp with rfl | hp
    · exact Bool.eq_false_iff.2 hb
    · exact h p hp

theorem insertDir_files (idx : FileIndex) (x : String) :
    (idx.insertDir x).files = idx.files ∧ (idx.insertDir x).blocked = idx.blocked := by
  unfold FileIndex.insertDir FileIndex.putDir
  obtain ⟨h1, -, h3, -⟩ := addChild_frame { idx with dirs := idx.dirs.insert x true, dirsCount := idx.dirsCount + 1 } x
  split_ifs
  · obtain ⟨hf, -, hb, -⟩ := clearNotFound_frame idx x
    exact ⟨hf, hb⟩
  · obtain ⟨hf, -, hb, -⟩ := clearNotFound_frame idx x
    exact ⟨hf, hb⟩
  · obtain ⟨hf, -, hb, -⟩ :=
      clearNotFound_frame (FileIndex.addChild { idx with dirs := idx.dirs.insert x true, dirsCount := idx.dirsCount + 1 } x) x
    exact ⟨hf.trans h1, hb.trans h3⟩

theorem apply_unblocked (h : Unblocked idx) (hg : Good idx) (op : Op) (hclean : ∀ p ∈ op.path?, pathClean p = p) :
    Unblocked (idx.apply op) := by
  cases op with
  | insertFile path info => exact h.insertFile hg path info
  | insertDir path =>
    obtain ⟨hf, hb⟩ := insertDir_files idx path
    refine h.of_shrinks (fun p hp => ?_) hb
    rwa [apply, hf] at hp
  | removeFile path => exact h.removeFile hg path
  | removeDir path =>
    obtain ⟨hf, hb⟩ := removeDir_shrinks hg (hclean path rfl)
    exact h.of_shrinks hf hb
  | blockFile path =>
    simp only [apply, blockFile]
    split_ifs with hempty
    · exact h
    · -- the path itself goes
      have hgb : Good { idx with blocked := idx.blocked.insert path true } := hg.congr rfl rfl rfl
      have hother : ∀ p ∈ idx.files, p ≠ path → isBlocked { idx with blocked := idx.blocked.insert path true } p =
          false := by
        intro p hp hne
        have hold := h p hp
        simp only [isBlocked, Bool.and_eq_false_iff, decide_eq_false_iff_not, AList.mem_insert] at hold ⊢
        tauto
      by_cases hx : path ∈ idx.files
      · have hx' : path ∈ ({ idx with blocked := idx.blocked.insert path true } : FileIndex).files := hx
        obtain ⟨hf, -, hb, -⟩ := removeFile_spec hgb hx'
        intro p hp
        unfold isBlocked
        rw [hb]
        rw [hf] at hp
        exact hother p (AList.mem_erase.1 hp).2 (AList.mem_erase.1 hp).1
      · have hx' : path ∉ ({ idx with blocked := idx.blocked.insert path true } : FileIndex).files := hx
        rw [removeFile_of_notMem hx']
        obtain ⟨hf, -, hb, -⟩ := clearNotFound_frame { idx with blocked := idx.blocked.insert path true } path
        intro p hp
        unfold isBlocked
        rw [hb]
        rw [hf] at hp
        refine hother p hp ?_
        rintro rfl
        exact hx hp
  | unblockFile path =>
    simp only [apply, unblockFile]
    split_ifs
    · exact h
    · intro p hp
      have hold := h p hp
      simp only [isBlocked, Bool.and_eq_false_iff, decide_eq_false_iff_not, AList.mem_erase] at hold ⊢
      tauto
  | insertNotFound path expireAt now =>
    refine h.of_shrinks (fun p hp => ?_) ?_
    · have hf : (idx.insertNotFound path expireAt now).files = idx.files := by
        unfold FileIndex.insertNotFound FileIndex.pruneNotFound
        dsimp only
        split_ifs <;> rfl
      rwa [apply, hf] at hp
    · show (idx.insertNotFound path expireAt now).blocked = idx.blocked
      unfold FileIndex.insertNotFound FileIndex.pruneNotFound
      dsimp only
      split_ifs <;> rfl
  | pruneNotFound now => exact h.of_shrinks (fun p hp => hp) rfl

theorem run_unblocked (ops : List Op) (h : Unblocked idx) (hg : Good idx)
    (hclean : ∀ op ∈ ops, ∀ p ∈ op.path?, pathClean p = p) :
    Unblocked (idx.run ops) := by
  induction ops generalizing idx with
  | nil => exact h
  | cons op ops ih =>
    have hop := hclean op (List.mem_cons_self ..)
    exact ih (apply_unblocked h hg op hop) (apply_good hg op hop) fun op' h' => hclean op' (List.mem_cons_of_mem _ h')

end FileIndex
end Renop.Index
