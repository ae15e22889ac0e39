import Renop.IndexWalk

/-!
# Removing a subtree

`removeDir` removes everything below a directory, and `insertFile` at the path of a directory does so before it stores the
file, when everything below is on the listings that the walk follows (`Removable`). A file whose parents were never indexed is
on no such listing, and stays.
-/

namespace Renop.Index
namespace FileIndex

variable {idx idx' : FileIndex} {d x : String} {W T : String → Prop}

/-! ### Listings that grow -/

theorem addChild_frame (idx : FileIndex) (x : String) :
    (idx.addChild x).files = idx.files ∧ (idx.addChild x).dirs = idx.dirs ∧ (idx.addChild x).blocked = idx.blocked ∧
      (idx.addChild x).notFound = idx.notFound := by
  unfold addChild
  dsimp only
  split_ifs <;> exact ⟨rfl, rfl, rfl, rfl⟩

theorem children_addChild (idx : FileIndex) (x : String) :
    (idx.addChild x).children = idx.children ∧
        (∀ p b, Ordinary p → splitPathParentBase x = (p, b) → b ∈ idx.children p) ∨
      ∃ p b, splitPathParentBase x = (p, b) ∧ Ordinary p ∧ b ∉ idx.children p ∧
        (idx.addChild x).children = Function.update idx.children p (idx.children p ++ [b]) := by
  unfold addChild
  rcases hs : splitPathParentBase x with ⟨parent, base⟩
  dsimp only
  by_cases hpar : Ordinary parent
  · obtain ⟨rfl, hb⟩ := under_split hs hpar
    have hne : parent ≠ parent ++ "/" ++ base := by
      intro e
      have hlt := (under_child parent base).length_lt
      rw [← e] at hlt
      exact Nat.lt_irrefl _ hlt
    rw [if_neg (by simp [hne, hpar.1, hpar.2.1, hpar.2.2])]
    split_ifs with hmem
    · refine .inl ⟨rfl, fun p b _ h => ?_⟩
      obtain ⟨rfl, rfl⟩ := Prod.mk.inj h
      exact hmem
    · exact .inr ⟨parent, base, rfl, hpar, hmem, rfl⟩
  · rw [if_pos (by unfold Ordinary at hpar; tauto)]
    refine .inl ⟨rfl, fun p b hp h => ?_⟩
    obtain ⟨rfl, -⟩ := Prod.mk.inj h
    exact absurd hp hpar

theorem mem_children_addChild {p b : String} :
    b ∈ (idx.addChild x).children p ↔ b ∈ idx.children p ∨ Ordinary p ∧ splitPathParentBase x = (p, b) := by
  rcases children_addChild idx x with ⟨heq, hold⟩ | ⟨q, c, hs, hq, -, heq⟩
  · rw [heq, or_iff_left_of_imp]
    exact fun h => hold p b h.1 h.2
  · rw [heq]
    by_cases hpq : p = q
    · subst hpq
      rw [Function.update_self, List.mem_append, List.mem_singleton, hs, Prod.mk.injEq]
      refine or_congr_right ⟨fun h => ⟨hq, rfl, h.symm⟩, fun h => h.2.2.symm⟩
    · rw [Function.update_of_ne hpq, hs, Prod.mk.injEq]
      refine (or_iff_left ?_).symm
      exact fun h => hpq h.2.1.symm

theorem children_addChild_of_ne {p : String} (hp : p ≠ (splitPathParentBase x).1) :
    (idx.addChild x).children p = idx.children p := by
  rcases children_addChild idx x with ⟨heq, -⟩ | ⟨q, c, hs, -, -, heq⟩
  · rw [heq]
  · rw [heq, Function.update_of_ne]
    rw [hs] at hp
    exact hp

/-! ### Every index -/

/-- What holds of an index after every run on clean paths. -/
structure Good (idx : FileIndex) : Prop extends Tidy idx where
  listed : Listed idx

theorem Good.pruned (hg : Good idx) (h : Pruned idx W T idx') : Good idx' := ⟨hg.toTidy.pruned h, hg.listed.pruned h⟩

theorem Good.congr (hg : Good idx) (hf : idx'.files = idx.files) (hd : idx'.dirs = idx.dirs)
    (hc : idx'.children = idx.children) :
    Good idx' := by
  refine ⟨⟨?_, ?_, ?_, ?_, ?_⟩, ?_⟩ <;> simp only [Listed, Indexed, hf, hd, hc]
  · exact hg.disjoint
  · exact hg.clean
  · exact hg.nodup
  · exact hg.special
  · exact hg.base
  · exact hg.listed

/-- A path that is indexed is put on its listing. -/
theorem Good.addChild (ht : Tidy idx) (hl : ∀ p b, b ∈ idx.children p → idx.Indexed (p ++ "/" ++ b))
    (hx : idx.Indexed x) :
    Good (idx.addChild x) := by
  obtain ⟨hf, hd, -, -⟩ := addChild_frame idx x
  have hsplit : ∀ {p b : String}, Ordinary p → splitPathParentBase x = (p, b) → p ++ "/" ++ b = x ∧ Base b := by
    intro p b hp hs
    obtain ⟨rfl, hb⟩ := under_split hs hp
    exact ⟨rfl, hb⟩
  refine ⟨⟨fun p hp => ?_, fun p hp => ?_, fun p => ?_, fun p hp => ?_, fun p b hb => ?_⟩, fun p b hb => ?_⟩
  · rw [hd]
    rw [hf] at hp
    exact ht.disjoint p hp
  · rw [hd] at hp
    exact ht.clean p hp
  · rcases children_addChild idx x with ⟨heq, -⟩ | ⟨q, c, -, -, hnot, heq⟩
    · rw [heq]
      exact ht.nodup p
    · rw [heq]
      by_cases hpq : p = q
      · subst hpq
        rw [Function.update_self]
        refine List.nodup_append.2 ⟨ht.nodup p, List.nodup_singleton c, fun a ha b hb hab => ?_⟩
        rw [List.mem_singleton] at hb
        exact hnot (hb ▸ hab ▸ ha)
      · rw [Function.update_of_ne hpq]
        exact ht.nodup p
  · refine List.eq_nil_iff_forall_not_mem.2 fun b hb => ?_
    rcases mem_children_addChild.1 hb with hb | ⟨hpo, -⟩
    · rw [ht.special p hp] at hb
      exact List.not_mem_nil hb
    · exact hp hpo
  · rcases mem_children_addChild.1 hb with hb | ⟨hpo, hs⟩
    · exact ht.base p b hb
    · exact (hsplit hpo hs).2
  · have hsame : (idx.addChild x).Indexed (p ++ "/" ++ b) ↔ idx.Indexed (p ++ "/" ++ b) := by
      unfold Indexed
      rw [hf, hd]
    rw [hsame]
    rcases mem_children_addChild.1 hb with hb | ⟨hpo, hs⟩
    · exact hl p b hb
    · rw [(hsplit hpo hs).1]
      exact hx

theorem Good.storeFile (hg : Good idx) (hx : x ∉ idx.dirs) (info : FileInfo) : Good (idx.storeFile x info) := by
  have hstore : ∀ count bytes,
      Good (FileIndex.addChild { idx with files := idx.files.insert x info, filesCount := count, totalBytes := bytes }
          x) := by
    intro count bytes
    refine .addChild ⟨fun p hp => ?_, hg.clean, hg.nodup, hg.special, hg.base⟩ (fun p b hb => ?_)
      (.inl ((AList.mem_insert _).2 (.inl rfl)))
    · rcases (AList.mem_insert _).1 hp with rfl | hp
      exacts [hx, hg.disjoint p hp]
    · exact (hg.listed p b hb).imp_left fun h => (AList.mem_insert _).2 (.inr h)
  unfold FileIndex.storeFile
  split
  · exact hstore _ _
  · exact hstore idx.filesCount _

theorem Good.putDir (hg : Good idx) (hclean : pathClean x = x) : Good (idx.putDir x) := by
  unfold FileIndex.putDir
  split_ifs with hf hd
  · exact hg
  · exact hg
  · refine .addChild ⟨fun p hp hd => ?_, fun p hp => ?_, hg.nodup, hg.special, hg.base⟩ (fun p b hb => ?_)
      (.inr ((AList.mem_insert _).2 (.inl rfl)))
    · rcases (AList.mem_insert _).1 hd with rfl | hd
      exacts [hf hp, hg.disjoint p hp hd]
    · rcases (AList.mem_insert _).1 hp with rfl | hp
      exacts [hclean, hg.clean p hp]
    · exact (hg.listed p b hb).imp_right fun h => (AList.mem_insert _).2 (.inr h)

/-! ### Removal of a directory -/

theorem removeDir_frame (idx : FileIndex) (d : String) :
    (idx.removeDir d).files = (idx.removeDescendants d).files ∧
      (idx.removeDir d).dirs = (idx.removeDescendants d).dirs.erase d ∧
      (idx.removeDir d).blocked = (idx.removeDescendants d).blocked ∧
      (idx.removeDir d).children = ((idx.removeDescendants d).removeChild d).children ∧
      (idx.removeDir d).notFound = ((idx.removeDescendants d).clearNotFound d).notFound := by
  have hnotFound : ∀ idx' : FileIndex, idx'.notFound = (idx.removeDescendants d).notFound →
      ((idx'.removeChild d).clearNotFound d).notFound = ((idx.removeDescendants d).clearNotFound d).notFound := by
    intro idx' h
    have hchild : (idx'.removeChild d).notFound = idx'.notFound := rfl
    unfold FileIndex.clearNotFound
    rw [hchild, h]
    split_ifs
    · rfl
    · exact h
  unfold FileIndex.removeDir
  dsimp only
  split_ifs with hd
  · obtain ⟨hf, hdirs, hb, hc⟩ := clearNotFound_frame (((idx.removeDescendants d).deleteDir d).removeChild d) d
    refine ⟨hf, hdirs, hb, ?_, hnotFound _ rfl⟩
    rw [hc]
    rfl
  · obtain ⟨hf, hdirs, hb, hc⟩ := clearNotFound_frame ((idx.removeDescendants d).removeChild d) d
    refine ⟨hf, ?_, hb, hc, hnotFound _ rfl⟩
    rw [hdirs, erase_of_notMem hd]
    rfl

theorem pruned_removeDir (ht : Tidy idx) (hclean : pathClean d = d) (hfile : d ∉ idx.files) :
    Pruned idx (fun y => y = d ∨ idx.Walked d y) (fun p => p = (splitPathParentBase d).1 ∨ Below d p)
      (idx.removeDir d) := by
  obtain ⟨h, -⟩ := removeDescendants_prunes ht hclean
  have ht' := ht.pruned h
  obtain ⟨hf, hd, hb, hc, hn⟩ := removeDir_frame idx d
  have hlookup : ∀ y, y ≠ d → (idx.removeDir d).notFound.lookup y = (idx.removeDescendants d).notFound.lookup y := by
    intro y hy
    rw [hn]
    exact (pruned_clearNotFound (idx.removeDescendants d) d).notFound y hy
  refine ⟨?_, fun y hy => ?_, fun y hy => ?_, hb.trans h.blocked, fun p => ?_, ?_, fun p b hmem hp hW => ?_, fun p hp => ?_,
    fun y hy => ?_, fun y hy => ?_, ?_⟩
  · rw [hf, hd]
    rintro y (rfl | hw)
    · exact ⟨fun hm => hfile ((h.mem_files y).1 hm).1, fun hm => (AList.mem_erase.1 hm).1 rfl⟩
    · exact ⟨(h.removed y hw).1, fun hm => (h.removed y hw).2 (AList.mem_erase.1 hm).2⟩
  · rw [hf]
    exact h.files y fun hw => hy (.inr hw)
  · rw [not_or] at hy
    rw [hd, AList.lookup_erase_ne hy.1]
    exact h.dirs y hy.2
  · rw [hc]
    exact (removeChild_sublist _ d p).trans (h.sub p)
  · rw [hc]
    rintro p b (rfl | hw) hi
    · exact ht'.removeChild_unlisted
    · exact fun hm => h.unlisted p b hw hi ((removeChild_sublist _ d p).subset hm)
  · rw [not_or] at hW
    rw [hc]
    refine ht'.mem_removeChild.2 ⟨h.listed p b hmem hp hW.2, ?_, hW.1⟩
    rintro rfl
    exact hW.2 (.child hmem)
  · rw [not_or] at hp
    rw [hc, children_removeChild, if_neg fun hpd => hp.2 (.inl hpd), if_neg hp.1]
    exact h.children p hp.2
  · rw [not_or] at hy
    exact (hlookup y fun hyd => hy.2 (.inl hyd)).trans (h.notFound y hy.2)
  · rw [hn] at hy
    exact h.notFoundSub y ((pruned_clearNotFound (idx.removeDescendants d) d).notFoundSub y hy)
  · have hle := h.length
    rw [hd, AList.keys_erase]
    exact Nat.le_trans List.length_erase_le hle

theorem Good.removeDir (hg : Good idx) (hclean : pathClean d = d) : Good (idx.removeDir d) := by
  by_cases hfile : d ∈ idx.files
  · -- the file stays, and is taken off its listing
    have hg' := hg.pruned (removeDescendants_prunes hg.toTidy hclean).1
    obtain ⟨hf, hd, -, hc, -⟩ := removeDir_frame idx d
    have hsub : ∀ p, ((idx.removeDir d).children p).Sublist ((idx.removeDescendants d).children p) := by
      intro p
      rw [hc]
      exact removeChild_sublist _ d p
    have hnot : d ∉ (idx.removeDescendants d).dirs := fun h =>
      hg.disjoint d hfile (((removeDescendants_prunes hg.toTidy hclean).1.mem_dirs d).1 h).1
    rw [erase_of_notMem hnot] at hd
    refine ⟨⟨?_, ?_, fun p => (hg'.nodup p).sublist (hsub p), fun p hp => ?_, fun p b hb =>
      hg'.base p b ((hsub p).subset hb)⟩, fun p b hb => ?_⟩
    · rw [hf, hd]
      exact hg'.disjoint
    · rw [hd]
      exact hg'.clean
    · have := hsub p
      rw [hg'.special p hp] at this
      exact List.sublist_nil.1 this
    · unfold Indexed
      rw [hf, hd]
      exact hg'.listed p b ((hsub p).subset hb)
  · exact hg.pruned (pruned_removeDir hg.toTidy hclean hfile)

theorem pruned_dirToFile (ht : Tidy idx) (hx : x ∈ idx.dirs) :
    Pruned idx (fun y => y = x ∨ idx.Walked x y) (fun p => p = (splitPathParentBase x).1 ∨ Below x p) (idx.dirToFile x) ∧
      (∀ y, Below x y → y ∉ (idx.dirToFile x).notFound) ∧
      (∀ y, ¬Below x y → (idx.dirToFile x).notFound.lookup y = idx.notFound.lookup y) ∧
      ∀ p, ¬Below x p → (idx.dirToFile x).children p =
        if p = (splitPathParentBase x).1 then (idx.children p).erase (splitPathParentBase x).2 else idx.children p := by
  obtain ⟨h, hnone⟩ := removeDescendants_prunes (ht.withoutDir x idx.dirsCount) (ht.clean x hx)
  have hcount : Pruned (idx.withoutDir x idx.dirsCount) ((idx.withoutDir x idx.dirsCount).Walked x) (Below x)
      { (idx.withoutDir x idx.dirsCount).removeDescendants x with
        dirsCount := ((idx.withoutDir x idx.dirsCount).removeDescendants x).dirsCount - 1 } :=
    ⟨h.removed, h.files, h.dirs, h.blocked, h.sub, h.unlisted, h.listed, h.children, h.notFound, h.notFoundSub, h.length⟩
  refine ⟨pruned_directory ht hx hcount, hnone, h.notFound, fun p hp => ?_⟩
  show (FileIndex.removeChild { (idx.withoutDir x idx.dirsCount).removeDescendants x with
    dirsCount := ((idx.withoutDir x idx.dirsCount).removeDescendants x).dirsCount - 1 } x).children p = _
  rw [children_removeChild, if_neg fun hpx => hp (.inl hpx)]
  dsimp only
  rw [h.children p hp]
  rfl

/-- What `storeFile` leaves. -/
structure Stored (idx : FileIndex) (x : String) (info : FileInfo) (idx' : FileIndex) : Prop where
  file : idx'.files.lookup x = some info
  files : ∀ y, y ≠ x → idx'.files.lookup y = idx.files.lookup y
  dirs : idx'.dirs = idx.dirs
  blocked : idx'.blocked = idx.blocked
  notFound : idx'.notFound = idx.notFound
  children : ∀ p b, b ∈ idx'.children p ↔ b ∈ idx.children p ∨ Ordinary p ∧ splitPathParentBase x = (p, b)
  others : ∀ p, p ≠ (splitPathParentBase x).1 → idx'.children p = idx.children p

theorem stored_storeFile (idx : FileIndex) (x : String) (info : FileInfo) : Stored idx x info (idx.storeFile x info) := by
  have hstore : ∀ count bytes, Stored idx x info
      (FileIndex.addChild { idx with files := idx.files.insert x info, filesCount := count, totalBytes := bytes } x) := by
    intro count bytes
    obtain ⟨hf, hd, hb, hn⟩ :=
      addChild_frame { idx with files := idx.files.insert x info, filesCount := count, totalBytes := bytes } x
    refine ⟨?_, fun y hy => ?_, hd, hb, hn, fun _ _ => mem_children_addChild, fun p hp => children_addChild_of_ne hp⟩
    · rw [hf]
      exact AList.lookup_insert _
    · rw [hf]
      exact AList.lookup_insert_ne hy
  unfold FileIndex.storeFile
  split
  · exact hstore _ _
  · exact hstore idx.filesCount _

/-! ### Every run -/

theorem Good.clearNotFound (hg : Good idx) (x : String) : Good (idx.clearNotFound x) := hg.pruned (pruned_clearNotFound idx x)

theorem Good.deleteFile (hg : Good idx) (x : String) : Good (idx.deleteFile x) := by
  by_cases hx : x ∈ idx.files
  · exact hg.pruned (pruned_deleteFile hg.toTidy hx)
  · rwa [deleteFile_of_notMem hx]

theorem Good.putFile (hg : Good idx) (x : String) (info : FileInfo) : Good (idx.putFile x info) := by
  unfold FileIndex.putFile
  split_ifs with hb hd
  · exact hg
  · have h := (pruned_dirToFile hg.toTidy hd).1
    exact (hg.pruned h).storeFile (h.removed x (.inl rfl)).2 info
  · exact hg.storeFile hd info

theorem Good.insertFile (hg : Good idx) (x : String) (info : FileInfo) : Good (idx.insertFile x info) := by
  unfold FileIndex.insertFile
  split_ifs
  · exact hg
  · exact (hg.putFile x info).clearNotFound x

theorem Good.insertNotFound (hg : Good idx) (path : String) (expireAt now : Int) :
    Good (idx.insertNotFound path expireAt now) := by
  unfold FileIndex.insertNotFound FileIndex.pruneNotFound
  dsimp only
  split_ifs <;> exact hg.congr rfl rfl rfl

theorem apply_good (hg : Good idx) (op : Op) (hclean : ∀ p ∈ op.path?, pathClean p = p) : Good (idx.apply op) := by
  cases op with
  | insertFile path info => exact hg.insertFile path info
  | insertDir path => exact (hg.putDir (hclean path rfl)).clearNotFound path
  | removeFile path => exact (hg.deleteFile path).clearNotFound path
  | removeDir path => exact hg.removeDir (hclean path rfl)
  | blockFile path =>
    simp only [apply, blockFile]
    split_ifs
    · exact hg
    · have hb : Good { idx with blocked := idx.blocked.insert path true } := hg.congr rfl rfl rfl
      exact (hb.deleteFile path).clearNotFound path
  | unblockFile path =>
    simp only [apply, unblockFile]
    split_ifs
    · exact hg
    · exact hg.congr rfl rfl rfl
  | insertNotFound path expireAt now => exact hg.insertNotFound path expireAt now
  | pruneNotFound now => exact hg.congr rfl rfl rfl

theorem good_new : Good newFileIndex := by
  refine ⟨⟨fun p hp => absurd hp (AList.notMem_empty p), fun p hp => absurd hp (AList.notMem_empty p), fun _ =>
    List.nodup_nil, fun _ _ => rfl, fun _ b hb => absurd hb List.not_mem_nil⟩, fun _ b hb => absurd hb List.not_mem_nil⟩

theorem run_good (ops : List Op) (hg : Good idx) (hclean : ∀ op ∈ ops, ∀ p ∈ op.path?, pathClean p = p) :
    Good (idx.run ops) := by
  induction ops generalizing idx with
  | nil => exact hg
  | cons op ops ih =>
    exact ih (apply_good hg op (hclean op (List.mem_cons_self ..))) fun op' h' => hclean op' (List.mem_cons_of_mem _ h')

/-! ### The subtree -/

/-- Nothing is left of the subtree, and all else is as it was, but for the name on the listing of the parent. -/
structure SubtreeRemoved (idx : FileIndex) (d : String) (idx' : FileIndex) : Prop where
  gone : ∀ x, Below d x → x ∉ idx'.files ∧ x ∉ idx'.dirs ∧ x ∉ idx'.notFound ∧ idx'.children x = []
  kept : ∀ x, ¬Below d x → idx'.files.lookup x = idx.files.lookup x ∧ idx'.dirs.lookup x = idx.dirs.lookup x ∧
    idx'.notFound.lookup x = idx.notFound.lookup x
  blocked : idx'.blocked = idx.blocked
  listings : ∀ p, ¬Below d p → idx'.children p =
    if p = (splitPathParentBase d).1 then (idx.children p).erase (splitPathParentBase d).2 else idx.children p

/-- The file is all that is left of the subtree. -/
structure SubtreeReplaced (idx : FileIndex) (d : String) (info : FileInfo) (idx' : FileIndex) : Prop where
  file : idx'.files.lookup d = some info
  gone : ∀ x, Below d x → (x ≠ d → x ∉ idx'.files) ∧ x ∉ idx'.dirs ∧ x ∉ idx'.notFound ∧
    idx'.children x = []
  kept : ∀ x, ¬Below d x → idx'.files.lookup x = idx.files.lookup x ∧ idx'.dirs.lookup x = idx.dirs.lookup x ∧
    idx'.notFound.lookup x = idx.notFound.lookup x
  blocked : idx'.blocked = idx.blocked
  listings : ∀ p, ¬Below d p → p ≠ (splitPathParentBase d).1 → idx'.children p = idx.children p
  parent : ∀ p b, ¬Below d p → p = (splitPathParentBase d).1 →
    (b ∈ idx'.children p ↔ b ∈ idx.children p ∨ Ordinary p ∧ b = (splitPathParentBase d).2)

/-- The directory is no file, and what is below it is on the listing of a directory. -/
def Removable (idx : FileIndex) (d : String) : Prop := d ∉ idx.files ∧ ∀ x, Under d x → idx.Indexed x →
    idx.Connected d x

theorem children_below (hg : Good idx) (hgone : ∀ x, Under d x → ¬idx.Indexed x) (hx : Below d x) :
    idx.children x = [] := by
  refine List.eq_nil_iff_forall_not_mem.2 fun b hb => hgone _ ?_ (hg.listed x b hb)
  rcases hx with rfl | hx
  · exact under_child x b
  · exact hx.trans (under_child x b)

theorem removeDir_removes (hg : Good idx) (hclean : pathClean d = d) :
    SubtreeRemoved idx d (idx.removeDir d) ↔ Removable idx d := by
  obtain ⟨hdesc, hnone⟩ := removeDescendants_prunes hg.toTidy hclean
  obtain ⟨hf, hd, hb, hc, hn⟩ := removeDir_frame idx d
  have hg' := hg.removeDir hclean
  have hself : ¬idx.Walked d d := fun hw => not_under_self hw.under
  constructor
  · rintro ⟨hgone, -, -, -⟩
    refine ⟨fun hfile => ?_, (walked_iff_connected hg.toTidy).1 fun x hx hi => ?_⟩
    · refine (hgone d (.inl rfl)).1 ?_
      rw [hf]
      exact (hdesc.mem_files d).2 ⟨hfile, hself⟩
    · by_contra hnot
      obtain ⟨hxf, hxd, -⟩ := hgone x (.inr hx)
      rw [hf] at hxf
      rw [hd] at hxd
      have hxne : x ≠ d := by
        rintro rfl
        exact not_under_self hx
      rcases (hdesc.indexed x).2 ⟨hi, hnot⟩ with h | h
      · exact hxf h
      · exact hxd (AList.mem_erase.2 ⟨hxne, h⟩)
  · rintro ⟨hfile, hconnected⟩
    have hwalked := (walked_iff_connected hg.toTidy).2 hconnected
    have h := pruned_removeDir hg.toTidy hclean hfile
    have hgone : ∀ x, Below d x → ¬(idx.removeDir d).Indexed x := by
      intro x hx hi
      obtain ⟨hi, hnot⟩ := (h.indexed x).1 hi
      rcases hx with rfl | hx
      · exact hnot (.inl rfl)
      · exact hnot (.inr (hwalked x hx hi))
    have hW : ∀ x, ¬Below d x → ¬(x = d ∨ idx.Walked d x) := by
      rintro x hx (rfl | hw)
      · exact hx (.inl rfl)
      · exact hx (.inr hw.under)
    have hclear := pruned_clearNotFound (idx.removeDescendants d) d
    refine ⟨fun x hx => ⟨fun hxf => hgone x hx (.inl hxf), fun hxd => hgone x hx (.inr hxd), fun hm => ?_,
      children_below hg' (fun y hy => hgone y (.inr hy)) hx⟩, fun x hx => ⟨h.files x (hW x hx), h.dirs x (hW x hx), ?_⟩,
      h.blocked, fun p hp => ?_⟩
    · rw [hn] at hm
      exact hnone x hx (hclear.notFoundSub x hm)
    · rw [hn, hclear.notFound x fun hxd => hx (.inl hxd), hdesc.notFound x hx]
    · rw [hc, children_removeChild, if_neg fun hpd => hp (.inl hpd), hdesc.children p hp]

theorem insertFile_replaces (hg : Good idx) (hd : d ∈ idx.dirs) (hb : idx.isBlocked d = false) (info : FileInfo) :
    SubtreeReplaced idx d info (idx.insertFile d info) ↔ Removable idx d := by
  obtain ⟨h, hnone, hnotFound, herased⟩ := pruned_dirToFile hg.toTidy hd
  have hs := stored_storeFile (idx.dirToFile d) d info
  have heq : idx.insertFile d info = ((idx.dirToFile d).storeFile d info).clearNotFound d := by
    simp [insertFile, putFile, hb, hd]
  have hg' := hg.insertFile d info
  have hclear := pruned_clearNotFound ((idx.dirToFile d).storeFile d info) d
  rw [heq] at hg' ⊢
  set idx' := ((idx.dirToFile d).storeFile d info).clearNotFound d with hidx'
  have hchildren : idx'.children = ((idx.dirToFile d).storeFile d info).children := (clearNotFound_frame _ d).2.2.2
  have hfile : ∀ x, x ≠ d → idx'.files.lookup x = (idx.dirToFile d).files.lookup x := fun x hx =>
    (hclear.files x fun h => h).trans (hs.files x hx)
  have hdirs : ∀ x, idx'.dirs.lookup x = (idx.dirToFile d).dirs.lookup x := fun x => by
    rw [hclear.dirs x fun h => h, hs.dirs]
  have hdfile := hg.disjoint d
  constructor
  · rintro ⟨-, hgone, -⟩
    refine ⟨fun hf => hg.disjoint d hf hd, (walked_iff_connected hg.toTidy).1 fun x hx hi => ?_⟩
    by_contra hnot
    have hxd : x ≠ d := by
      rintro rfl
      exact not_under_self hx
    obtain ⟨hf, hdir, -⟩ := hgone x (.inr hx)
    have hkept := (h.indexed x).2 ⟨hi, not_or.2 ⟨hxd, hnot⟩⟩
    rcases hkept with hk | hk
    · exact hf hxd ((mem_iff_of_lookup (hfile x hxd)).2 hk)
    · exact hdir ((mem_iff_of_lookup (hdirs x)).2 hk)
  · rintro ⟨-, hconnected⟩
    have hwalked := (walked_iff_connected hg.toTidy).2 hconnected
    have hgone : ∀ x, Under d x → ¬(idx.dirToFile d).Indexed x := by
      intro x hx hi
      obtain ⟨hi, hnot⟩ := (h.indexed x).1 hi
      exact hnot (.inr (hwalked x hx hi))
    have hgone' : ∀ x, Under d x → ¬idx'.Indexed x := by
      intro x hx hi
      have hxd : x ≠ d := by
        rintro rfl
        exact not_under_self hx
      refine hgone x hx (hi.imp ?_ ?_)
      · exact (mem_iff_of_lookup (hfile x hxd)).1
      · exact (mem_iff_of_lookup (hdirs x)).1
    have hW : ∀ x, ¬Below d x → ¬(x = d ∨ idx.Walked d x) := by
      rintro x hx (rfl | hw)
      · exact hx (.inl rfl)
      · exact hx (.inr hw.under)
    refine ⟨(hclear.files d fun h => h).trans hs.file, fun x hx => ⟨fun hxd hf => ?_, fun hdir => ?_, fun hm => ?_,
      children_below hg' hgone' hx⟩, fun x hx => ?_, ?_, fun p hp hpar => ?_, fun p b hp hpar => ?_⟩
    · exact hgone' x (hx.resolve_left hxd) (.inl hf)
    · have hdir' := (mem_iff_of_lookup (hdirs x)).1 hdir
      obtain ⟨-, hnot⟩ := (h.mem_dirs x).1 hdir'
      rcases hx with rfl | hx
      · exact hnot (.inl rfl)
      · exact hgone x hx (.inr hdir')
    · have hold := hclear.notFoundSub x hm
      rw [hs.notFound] at hold
      exact hnone x hx hold
    · have hxd : x ≠ d := fun hxd => hx (.inl hxd)
      refine ⟨(hfile x hxd).trans (h.files x (hW x hx)), (hdirs x).trans (h.dirs x (hW x hx)), ?_⟩
      rw [hclear.notFound x hxd, hs.notFound, hnotFound x hx]
    · exact hclear.blocked.trans (hs.blocked.trans h.blocked)
    · rw [hchildren, hs.others p hpar]
      exact h.children p fun ht => ht.elim hpar hp
    · subst hpar
      rw [hchildren, hs.children, herased _ hp, if_pos rfl, (hg.nodup _).mem_erase_iff]
      have hpair : splitPathParentBase d = ((splitPathParentBase d).1, b) ↔ b = (splitPathParentBase d).2 := by
        rcases splitPathParentBase d with ⟨p, c⟩
        simp [eq_comm]
      rw [hpair]
      by_cases hbase : b = (splitPathParentBase d).2
      · subst hbase
        have hord : (splitPathParentBase d).2 ∈ idx.children (splitPathParentBase d).1 →
            Ordinary (splitPathParentBase d).1 :=
          fun hm => hg.ordinary hm
        simp only [ne_eq, not_true_eq_false, false_and, and_true, false_or]
        exact ⟨.inr, fun h => h.elim hord id⟩
      · simp only [hbase, ne_eq, not_false_eq_true, true_and]

/-- `a/b/c` was found on the disk, and `a/b` was never indexed. -/
def foundOps : List Op := [.insertDir "a", .insertFile "a/b/c" ⟨3, 1⟩]

theorem removeDir_leaves_file : ¬SubtreeRemoved (newFileIndex.run foundOps) "a"
    ((newFileIndex.run foundOps).removeDir "a") := by
  intro h
  have hbelow : Below "a" "a/b/c" := .inr ⟨"b/c", rfl⟩
  exact (h.gone "a/b/c" hbelow).1 (by decide)

/-- A directory goes with its subtree, or becomes a file in its place, exactly when what is below it is on the listings of
directories, and it is no file. -/
theorem subtree_removed_iff (ops : List Op) (hclean : ∀ op ∈ ops, ∀ p ∈ op.path?, pathClean p = p) {d : String}
    (hd : pathClean d = d) :
    (SubtreeRemoved (newFileIndex.run ops) d ((newFileIndex.run ops).removeDir d) ↔ Removable (newFileIndex.run ops) d) ∧
      ∀ info, d ∈ (newFileIndex.run ops).dirs → (newFileIndex.run ops).isBlocked d = false →
        (SubtreeReplaced (newFileIndex.run ops) d info ((newFileIndex.run ops).insertFile d info) ↔
          Removable (newFileIndex.run ops) d) := by
  have hg := run_good ops good_new hclean
  exact ⟨removeDir_removes hg hd, fun info hdir hb => insertFile_replaces hg hdir hb info⟩

def listedOps : List Op := [.insertDir "a", .insertFile "a/b" ⟨3, 1⟩]

theorem subtree_removed_listed : SubtreeRemoved (newFileIndex.run listedOps) "a"
    ((newFileIndex.run listedOps).removeDir "a") := by
  refine (subtree_removed_iff listedOps (by decide) (by decide)).1.2 ⟨by decide, fun x hx hi => ?_⟩
  have hkeys : (newFileIndex.run listedOps).files.keys = ["a/b"] ∧ (newFileIndex.run listedOps).dirs.keys =
    ["a"] := by decide
  rcases hi with hi | hi
  · have hfile := AList.mem_keys.1 hi
    rw [hkeys.1, List.mem_singleton] at hfile
    subst hfile
    exact ⟨"a", "b", by decide, by decide, .inl rfl⟩
  · have hdir := AList.mem_keys.1 hi
    rw [hkeys.2, List.mem_singleton] at hdir
    subst hdir
    exact absurd hx not_under_self

end FileIndex
end Renop.Index
