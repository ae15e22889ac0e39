import Renop.IndexCounts

/-!
# Rebuilding the index from a scan

`applyScanMaps` and `applyFileIndexScan` of `index/builder.go`: four loops over maps, each in some order. What a loop leaves
is said path by path, so that the orders do not matter.
-/

namespace Renop.Index

structure ScanMaps where
  files : PathMap FileInfo
  /-- The keys of the map. -/
  dirs : List String

/-- The orders of the iterations. -/
structure Orders where
  files : List String → List String
  scanned : List (Sigma fun _ : String => FileInfo) → List (Sigma fun _ : String => FileInfo)
  dirs : List String → List String
  scannedDirs : List String → List String
  files_perm : ∀ l, (files l).Perm l
  scanned_perm : ∀ l, (scanned l).Perm l
  dirs_perm : ∀ l, (dirs l).Perm l
  scannedDirs_perm : ∀ l, (scannedDirs l).Perm l

namespace FileIndex

def getFileInfo (idx : FileIndex) (path : String) :
    Option FileInfo := if isBlocked idx path then none else idx.files.lookup path

def insertScanned (idx : FileIndex) (e : Sigma fun _ : String => FileInfo) : FileIndex :=
  if idx.getFileInfo e.1 ≠ some e.2 then insertFile idx e.1 e.2 else idx

def insertMissing (idx : FileIndex) (d : String) : FileIndex := if idx.hasDir d then idx else insertDir idx d

def applyScanMaps (o : Orders) (idx : FileIndex) (scanned : ScanMaps) : FileIndex :=
  let toRemoveFiles := idx.files.keys.filter fun f => f ∉ scanned.files
  let idx := (o.files toRemoveFiles).foldl removeFile idx
  let idx := (o.scanned scanned.files.entries).foldl insertScanned idx
  let toRemoveDirs := idx.dirs.keys.filter fun d => d ∉ scanned.dirs
  let idx := (o.dirs toRemoveDirs).foldl removeDir idx
  (o.scannedDirs scanned.dirs).foldl insertMissing idx

def applyFileIndexScan (o : Orders) (idx scanned : FileIndex) : FileIndex :=
  let toRemoveFiles := idx.files.keys.filter fun f => !scanned.hasFile f
  let idx := (o.files toRemoveFiles).foldl removeFile idx
  let idx := (o.scanned scanned.files.entries).foldl insertScanned idx
  let toRemoveDirs := idx.dirs.keys.filter fun d => !scanned.hasDir d
  let idx := (o.dirs toRemoveDirs).foldl removeDir idx
  (o.scannedDirs scanned.dirs.keys).foldl insertMissing idx

theorem applyFileIndexScan_eq (o : Orders) (idx : FileIndex) {scanned : FileIndex} (hb : scanned.blocked = ∅) :
    applyFileIndexScan o idx scanned = applyScanMaps o idx ⟨scanned.files, scanned.dirs.keys⟩ := by
  have hfile : ∀ f, scanned.hasFile f = decide (f ∈ scanned.files) := by
    intro f
    simp [hasFile, isBlocked, hb]
  have hdir : ∀ d, scanned.hasDir d = decide (d ∈ scanned.dirs.keys) := by
    intro d
    simp [hasDir, AList.mem_keys]
  unfold applyFileIndexScan applyScanMaps
  simp [hfile, hdir]

variable {idx idx' : FileIndex} {scanned : ScanMaps} {base d x y : String} {W T : String → Prop}

/-! ### Scans -/

theorem parent_length (h : (splitPathParentBase x).1 ≠ x) : (splitPathParentBase x).1.toList.length < x.toList.length := by
  unfold splitPathParentBase at h ⊢
  split
  · rename_i hs
    rw [hs] at h
    have hpos : x.toList ≠ [] := fun he => h (String.toList_inj.1 (by rw [he]; rfl))
    show 0 < _
    exact List.length_pos_iff.2 hpos
  · rename_i base hs
    rw [hs] at h
    obtain ⟨hx, -⟩ := splitLast_some hs
    have hne : base ≠ [] := by
      rintro rfl
      exact h (String.toList_inj.1 (by rw [hx]; simp))
    have hpos := List.length_pos_iff.2 hne
    have hroot : "/".toList.length = 1 := rfl
    rw [hx]
    show "/".toList.length < _
    simp only [hroot, List.nil_append, List.length_cons]
    omega
  · rename_i parent base _ hs
    obtain ⟨hx, -⟩ := splitLast_some hs
    rw [hx, String.toList_ofList]
    simp

theorem under_parent (h : Under d x) (hd : d ≠ "") :
    (splitPathParentBase x).1 = d ∨ Under d (splitPathParentBase x).1 := by
  obtain ⟨s, rfl⟩ := h
  have hslash : '/' ∈ (d ++ "/" ++ s).toList := by
    rw [toList_under]
    simp
  rcases hs : splitPathParentBase (d ++ "/" ++ s) with ⟨p, b⟩
  unfold splitPathParentBase at hs
  split at hs
  · rename_i hnone
    exact absurd hslash (splitLast_none.1 hnone)
  · rename_i base hsome
    -- a path right below the root
    obtain ⟨hx, hbase⟩ := splitLast_some hsome
    rw [toList_under] at hx
    cases hl : d.toList with
    | nil => exact absurd (String.toList_eq_nil_iff.1 hl) hd
    | cons c cs =>
      rw [hl] at hx
      have hrest := (List.cons.inj hx).2
      exact absurd (by rw [← hrest]; simp) hbase
  · rename_i parent base _ hsome
    obtain ⟨hx, hbase⟩ := splitLast_some hsome
    obtain ⟨rfl, rfl⟩ := Prod.mk.inj hs
    have hunder : Under d (String.ofList parent ++ "/" ++ String.ofList base) := by
      refine ⟨s, String.toList_inj.1 ?_⟩
      rw [hx, toList_under, String.toList_ofList, String.toList_ofList]
    exact hunder.parent (by simpa [Base] using hbase)

end FileIndex

namespace ScanMaps
open FileIndex

def Has (scanned : ScanMaps) (x : String) : Prop := x ∈ scanned.files ∨ x ∈ scanned.dirs

/-- A tree below the base. -/
structure WellFormed (scanned : ScanMaps) (base : String) : Prop where
  clean : ∀ x, scanned.Has x → pathClean x = x
  disjoint : ∀ x ∈ scanned.files, x ∉ scanned.dirs
  parent : ∀ x, scanned.Has x → x ≠ base → (splitPathParentBase x).1 ≠ x ∧
    (splitPathParentBase x).1 ∈ scanned.dirs

variable {scanned : ScanMaps} {base f x : String}

theorem WellFormed.base_length (h : scanned.WellFormed base) (hx : scanned.Has x) :
    base.toList.length ≤ x.toList.length := by
  generalize hn : x.toList.length = n
  induction n using Nat.strong_induction_on generalizing x with
  | _ n ih =>
    by_cases hbase : x = base
    · rw [← hbase, hn]
    · obtain ⟨hne, hdir⟩ := h.parent x hx hbase
      have hlt := parent_length hne
      have := ih _ (by omega) (.inr hdir) rfl
      omega

theorem WellFormed.not_under (h : scanned.WellFormed base) (hf : f ∈ scanned.files) (hx : scanned.Has x) : ¬Under f x := by
  have hfempty : f ≠ "" := by
    rintro rfl
    exact absurd (h.clean "" (.inl hf)) (by decide)
  generalize hn : x.toList.length = n
  induction n using Nat.strong_induction_on generalizing x with
  | _ n ih =>
    intro hunder
    by_cases hbase : x = base
    · have hle := h.base_length (.inl hf)
      have hlt := hunder.length_lt
      rw [hbase] at hlt
      omega
    · obtain ⟨hne, hdir⟩ := h.parent x hx hbase
      have hlt := parent_length hne
      rcases under_parent hunder hfempty with heq | hup
      · rw [heq] at hdir
        exact h.disjoint f hf hdir
      · exact ih _ (by omega) (.inr hdir) rfl hup

theorem WellFormed.parent_not_file (h : scanned.WellFormed base) {p b : String} (hx : scanned.Has (p ++ "/" ++ b)) :
    p ∉ scanned.files := fun hp => h.not_under hp hx (under_child p b)

end ScanMaps

namespace FileIndex

variable {idx idx' : FileIndex} {scanned : ScanMaps} {base d x y : String} {W T : String → Prop}

/-! ### The files that are gone -/

theorem removeFiles_spec (hg : Good idx) (r : List String) (hr : ∀ x ∈ r, x ∈ idx.files) (hnodup : r.Nodup) :
    Good (r.foldl removeFile idx) ∧ (r.foldl removeFile idx).dirs = idx.dirs ∧ (r.foldl removeFile idx).blocked =
      idx.blocked ∧ (∀ x, x ∈ r → x ∉ (r.foldl removeFile idx).files) ∧
      (∀ x, x ∉ r → (r.foldl removeFile idx).files.lookup x = idx.files.lookup x) ∧
      ∀ p b, b ∈ (r.foldl removeFile idx).children p ↔ b ∈ idx.children p ∧ p ∉ r ∧ p ++ "/" ++ b ∉ r := by
  induction r generalizing idx with
  | nil => exact ⟨hg, rfl, rfl, fun x hx => absurd hx List.not_mem_nil, fun _ _ => rfl, fun p b => by simp⟩
  | cons g r ih =>
    rw [List.nodup_cons] at hnodup
    obtain ⟨hf, hd, hb, hc⟩ := removeFile_spec hg (hr g (List.mem_cons_self ..))
    have hg' : Good (idx.removeFile g) := (hg.deleteFile g).clearNotFound g
    have hr' : ∀ x ∈ r, x ∈ (idx.removeFile g).files := by
      intro x hx
      rw [hf]
      refine AList.mem_erase.2 ⟨?_, hr x (List.mem_cons_of_mem _ hx)⟩
      rintro rfl
      exact hnodup.1 hx
    obtain ⟨h1, h2, h3, h4, h5, h6⟩ := ih hg' hr' hnodup.2
    refine ⟨h1, h2.trans hd, h3.trans hb, fun x hx => ?_, fun x hx => ?_, fun p b => ?_⟩
    · by_cases hxr : x ∈ r
      · exact h4 x hxr
      · have hxg : x = g := (List.mem_cons.1 hx).resolve_right hxr
        rw [List.foldl_cons, ← AList.lookup_eq_none, h5 x hxr, hf, hxg, AList.lookup_erase]
    · rw [List.mem_cons, not_or] at hx
      rw [List.foldl_cons, h5 x hx.2, hf, AList.lookup_erase_ne hx.1]
    · rw [List.foldl_cons, h6, hc]
      simp only [List.mem_cons, not_or, ne_eq]
      tauto

/-! ### The files of the scan -/

/-- Nothing that is not on the list, nor below a path on it, is touched. -/
structure Filled (idx : FileIndex) (es : List (Sigma fun _ : String => FileInfo)) (idx' : FileIndex) : Prop where
  good : Good idx'
  blocked : idx'.blocked = idx.blocked
  files : ∀ y ∈ idx'.files, y ∈ es.map Sigma.fst ∨ y ∈ idx.files
  dirs : ∀ y ∈ idx'.dirs, y ∈ idx.dirs
  stored : ∀ e ∈ es, idx.isBlocked e.1 = false → idx'.files.lookup e.1 = some e.2 ∧ e.1 ∉ idx'.dirs
  kept : ∀ y, (∀ e ∈ es, ¬Under e.1 y) → (y ∈ es.map Sigma.fst → idx.isBlocked y = true) →
    idx'.files.lookup y = idx.files.lookup y ∧ idx'.dirs.lookup y = idx.dirs.lookup y
  children : ∀ p b, (∀ e ∈ es, ¬Under e.1 (p ++ "/" ++ b)) → (b ∈ idx'.children p ↔ b ∈ idx.children p ∨
    Ordinary p ∧ Base b ∧ ∃ e ∈ es, e.1 = p ++ "/" ++ b ∧ idx.isBlocked e.1 = false ∧
      idx.files.lookup e.1 ≠ some e.2)

theorem insertScanned_of_blocked {e : Sigma fun _ : String => FileInfo} (hb : idx.isBlocked e.1 = true) :
    idx.insertScanned e = idx := by
  unfold insertScanned getFileInfo insertFile
  simp [hb]

theorem insertScanned_of_same {e : Sigma fun _ : String => FileInfo} (hs : idx.files.lookup e.1 = some e.2) :
    idx.insertScanned e = idx := by
  by_cases hb : idx.isBlocked e.1
  · exact insertScanned_of_blocked hb
  · simp [insertScanned, getFileInfo, hb, hs]

theorem insertScanned_of_ne {e : Sigma fun _ : String => FileInfo} (hs : idx.files.lookup e.1 ≠ some e.2) :
    idx.insertScanned e = idx.insertFile e.1 e.2 := by
  by_cases hb : idx.isBlocked e.1
  · rw [insertScanned_of_blocked hb, insertFile, if_pos hb]
  · simp [insertScanned, getFileInfo, hb, hs]

theorem aside_insertScanned (hg : Good idx) (e : Sigma fun _ : String => FileInfo) :
    Aside idx e.1 (idx.insertScanned e) ∧ Good (idx.insertScanned e) := by
  by_cases hs : idx.files.lookup e.1 = some e.2
  · rw [insertScanned_of_same hs]
    exact ⟨.refl idx e.1, hg⟩
  · rw [insertScanned_of_ne hs]
    exact ⟨aside_insertFile hg e.1 e.2, hg.insertFile e.1 e.2⟩

theorem insertScanned_self (hg : Good idx) {e : Sigma fun _ : String => FileInfo} (hb : idx.isBlocked e.1 = false) :
    (idx.insertScanned e).files.lookup e.1 = some e.2 ∧ e.1 ∉ (idx.insertScanned e).dirs ∧
      ∀ p b, e.1 = p ++ "/" ++ b → (b ∈ (idx.insertScanned e).children p ↔
        b ∈ idx.children p ∨ Ordinary p ∧ Base b ∧ idx.files.lookup e.1 ≠ some e.2) := by
  by_cases hs : idx.files.lookup e.1 = some e.2
  · rw [insertScanned_of_same hs]
    refine ⟨hs, hg.disjoint _ (AList.lookup_isSome.1 (by rw [hs]; rfl)), fun p b _ => ?_⟩
    simp [hs]
  · rw [insertScanned_of_ne hs]
    obtain ⟨h1, h2, h3⟩ := insertFile_self hg hb e.2
    have hg' := hg.insertFile e.1 e.2
    refine ⟨h1, h2, fun p b heq => ⟨fun hm => .inr ⟨hg'.ordinary hm, hg'.base p b hm, hs⟩, ?_⟩⟩
    rintro (hm | ⟨hp, hbase, -⟩)
    · exact h3 p b (hg.ordinary hm) (hg.base p b hm) heq
    · exact h3 p b hp hbase heq

theorem filled_insertScanned (hg : Good idx) (es : List (Sigma fun _ : String => FileInfo))
    (hnodup : (es.map Sigma.fst).Nodup)
    (hapart : ∀ e ∈ es, ∀ e' ∈ es, ¬Under e.1 e'.1) : Filled idx es (es.foldl insertScanned idx) := by
  induction es generalizing idx with
  | nil =>
    refine ⟨hg, rfl, fun y hy => .inr hy, fun y hy => hy, fun e he => absurd he List.not_mem_nil, fun _ _ _ =>
      ⟨rfl, rfl⟩, fun p b _ => ?_⟩
    simp
  | cons e es ih =>
    rw [List.map_cons, List.nodup_cons] at hnodup
    obtain ⟨ha, hg'⟩ := aside_insertScanned hg e
    have hne : ∀ e' ∈ es, e'.1 ≠ e.1 := fun e' he' heq => hnodup.1 (heq ▸ List.mem_map_of_mem he')
    have hnot : ∀ e' ∈ es, ¬Below e.1 e'.1 := by
      rintro e' he' (heq | hunder)
      · exact hne e' he' heq
      · exact hapart e (List.mem_cons_self ..) e' (List.mem_cons_of_mem _ he') hunder
    have hblocked : ∀ y, (idx.insertScanned e).isBlocked y = idx.isBlocked y := by
      intro y
      unfold isBlocked
      rw [ha.blocked]
    have h := ih hg' hnodup.2 fun e₁ h₁ e₂ h₂ => hapart e₁ (List.mem_cons_of_mem _ h₁) e₂
      (List.mem_cons_of_mem _ h₂)
    have hself := @insertScanned_self idx hg e
    rw [List.foldl_cons]
    -- the entry, after the others
    have hkept := h.kept e.1 (fun e' he' => hapart e' (List.mem_cons_of_mem _ he') e (List.mem_cons_self ..))
      fun hm => absurd hm hnodup.1
    have hdirs : ∀ y ∈ (idx.insertScanned e).dirs, y ∈ idx.dirs := by
      intro y hy
      rcases ha.dirsSub y hy with rfl | hy'
      · by_cases hb : idx.isBlocked e.1
        · rwa [insertScanned_of_blocked hb] at hy
        · exact absurd hy (hself (Bool.eq_false_iff.2 hb)).2.1
      · exact hy'
    refine ⟨h.good, h.blocked.trans ha.blocked, fun y hy => ?_, fun y hy => hdirs y (h.dirs y hy), fun e' he' hb => ?_,
      fun y hunder hy => ?_, fun p b hunder => ?_⟩
    · rw [List.map_cons, List.mem_cons]
      rcases h.files y hy with hy | hy
      · exact .inl (.inr hy)
      · exact (ha.filesSub y hy).imp_left .inl
    · rcases List.mem_cons.1 he' with rfl | he'
      · obtain ⟨h1, h2, -⟩ := hself hb
        rw [hkept.1, ← AList.lookup_eq_none, hkept.2, AList.lookup_eq_none]
        exact ⟨h1, h2⟩
      · exact h.stored e' he' (by rwa [hblocked])
    · have hunder' : ∀ e' ∈ es, ¬Under e'.1 y := fun e' he' => hunder e' (List.mem_cons_of_mem _ he')
      obtain ⟨h1, h2⟩ := h.kept y hunder' fun hm => by
        rw [hblocked]
        exact hy (List.mem_cons_of_mem _ hm)
      rw [h1, h2]
      by_cases hye : y = e.1
      · subst hye
        rw [insertScanned_of_blocked (hy (List.mem_cons_self ..))]
        exact ⟨rfl, rfl⟩
      · have hbelow : ¬Below e.1 y := fun hb => hb.elim hye (hunder e (List.mem_cons_self ..))
        exact ⟨ha.files y hbelow, ha.dirs y hbelow⟩
    · have hunder' : ∀ e' ∈ es, ¬Under e'.1 (p ++ "/" ++ b) := fun e' he' => hunder e' (List.mem_cons_of_mem _ he')
      have hsame : ∀ e' ∈ es, (idx.insertScanned e).files.lookup e'.1 = idx.files.lookup e'.1 := fun e' he' =>
        ha.files _ (hnot e' he')
      rw [h.children p b hunder']
      by_cases hye : p ++ "/" ++ b = e.1
      · have hrest : ¬∃ e' ∈ es, e'.1 = p ++ "/" ++ b ∧ (idx.insertScanned e).isBlocked e'.1 = false ∧
            (idx.insertScanned e).files.lookup e'.1 ≠ some e'.2 := by
          rintro ⟨e', he', heq, -⟩
          exact hne e' he' (heq.trans hye)
        by_cases hb : idx.isBlocked e.1
        · rw [insertScanned_of_blocked hb] at hrest ⊢
          simp only [hrest, and_false, or_false, List.mem_cons]
          refine (or_iff_left ?_).symm
          rintro ⟨-, -, e', rfl | he', heq, hb', -⟩
          · simp [hb] at hb'
          · exact hne e' he' (heq.trans hye)
        · have hb := Bool.eq_false_iff.2 hb
          rw [(hself hb).2.2 p b hye.symm]
          simp only [hrest, and_false, or_false, List.mem_cons]
          refine or_congr_right (and_congr_right fun _ => and_congr_right fun _ => ⟨fun hne' => ?_, ?_⟩)
          · exact ⟨e, .inl rfl, hye.symm, hb, hne'⟩
          · rintro ⟨e', rfl | he', heq, -, hne'⟩
            · exact hne'
            · exact absurd (heq.trans hye) (hne e' he')
      · have hbelow : ¬Below e.1 (p ++ "/" ++ b) := fun hb => hb.elim hye (hunder e (List.mem_cons_self ..))
        rw [ha.children p b hbelow]
        refine or_congr_right (and_congr_right fun _ => and_congr_right fun _ => ?_)
        constructor
        · rintro ⟨e', he', heq, hb, hne'⟩
          rw [hblocked] at hb
          rw [hsame e' he'] at hne'
          exact ⟨e', List.mem_cons_of_mem _ he', heq, hb, hne'⟩
        · rintro ⟨e', he', heq, hb, hne'⟩
          rcases List.mem_cons.1 he' with rfl | he'
          · exact absurd heq.symm hye
          · refine ⟨e', he', heq, ?_, ?_⟩
            · rwa [hblocked]
            · rwa [hsame e' he']

/-! ### The directories that are gone -/

theorem Walked.of_pruned (h : Pruned idx W T idx') (hw : idx'.Walked d x) : idx.Walked d x := by
  induction hw with
  | child hb => exact .child ((h.sub _).subset hb)
  | nested hb hd _ ih => exact .nested ((h.sub _).subset hb) ((h.mem_dirs _).1 hd).1 ih

theorem Walked.pruned (h : Pruned idx W T idx') (ht : Tidy idx)
    (hW : ∀ q b, W q → q ∈ idx.dirs → b ∈ idx.children q → W (q ++ "/" ++ b)) (hd : d ∉ idx.files)
    (hw : idx.Walked d x) :
    W x ∨ idx'.Walked d x := by
  have hon : ∀ {q y : String}, idx.Walked q y → W q → q ∈ idx.dirs → W y := by
    intro q y hw
    induction hw with
    | child hb => exact fun hq hdir => hW _ _ hq hdir hb
    | nested hb hdir' _ ih => exact fun hq hdir => ih (hW _ _ hq hdir hb) hdir'
  induction hw with
  | @child d b hb =>
    by_cases hWb : W (d ++ "/" ++ b)
    · exact .inl hWb
    · exact .inr (.child (h.listed d b hb hd hWb))
  | @nested d b y hb hdir hw ih =>
    by_cases hWb : W (d ++ "/" ++ b)
    · exact .inl (hon hw hWb hdir)
    · refine (ih fun hf => ht.disjoint _ hf hdir).imp_right fun hw' => ?_
      exact .nested (h.listed d b hb hd hWb) ((h.mem_dirs _).2 ⟨hdir, hWb⟩) hw'

theorem removeDirs_spec (hg : Good idx) (r : List String) (hr : ∀ k ∈ r, k ∉ idx.files ∧ pathClean k = k) :
    ∃ W T, Pruned idx W T (r.foldl removeDir idx) ∧ ∀ y, W y ↔ y ∈ r ∨ ∃ k ∈ r, idx.Walked k y := by
  induction r generalizing idx with
  | nil => exact ⟨_, fun _ => False, .refl idx, fun y => by simp⟩
  | cons k r ih =>
    obtain ⟨hfile, hclean⟩ := hr k (List.mem_cons_self ..)
    have h₁ := pruned_removeDir hg.toTidy hclean hfile
    have hr' : ∀ k' ∈ r, k' ∉ (idx.removeDir k).files ∧ pathClean k' = k' := by
      intro k' hk'
      obtain ⟨hf, hc⟩ := hr k' (List.mem_cons_of_mem _ hk')
      exact ⟨fun hm => hf ((h₁.mem_files k').1 hm).1, hc⟩
    obtain ⟨W₂, T₂, h₂, hW₂⟩ := ih (hg.pruned h₁) hr'
    have hclosed : ∀ q b, (q = k ∨ idx.Walked k q) → q ∈ idx.dirs → b ∈ idx.children q →
        (q ++ "/" ++ b = k ∨ idx.Walked k (q ++ "/" ++ b)) := by
      rintro q b (rfl | hw) hdir hb
      · exact .inr (.child hb)
      · exact .inr (hw.step hdir hb)
    have hleft : idx.Pruned (fun y => y = k ∨ idx.Walked k y)
        (fun p => (p = (splitPathParentBase k).1 ∨ Below k p) ∨ T₂ p) (idx.removeDir k) := h₁.mono fun _ => .inl
    refine ⟨_, _, hleft.trans (h₂.mono fun _ => .inr), fun y => ?_⟩
    rw [hW₂]
    constructor
    · rintro ((rfl | hw) | hy | ⟨k', hk', hw⟩)
      · exact .inl (List.mem_cons_self ..)
      · exact .inr ⟨k, List.mem_cons_self .., hw⟩
      · exact .inl (List.mem_cons_of_mem _ hy)
      · exact .inr ⟨k', List.mem_cons_of_mem _ hk', hw.of_pruned h₁⟩
    · rintro (hy | ⟨k', hk', hw⟩)
      · rcases List.mem_cons.1 hy with rfl | hy
        · exact .inl (.inl rfl)
        · exact .inr (.inl hy)
      · rcases List.mem_cons.1 hk' with rfl | hk'
        · exact .inl (.inr hw)
        · rcases hw.pruned h₁ hg.toTidy hclosed (hr k' (List.mem_cons_of_mem _ hk')).1 with hw | hw
          · exact .inl hw
          · exact .inr (.inr ⟨k', hk', hw⟩)

/-! ### The directories of the scan -/

theorem insertMissing_spec (hg : Good idx) (ds : List String) (hds : ∀ d ∈ ds, d ∉ idx.files ∧ pathClean d = d) :
    Good (ds.foldl insertMissing idx) ∧ (ds.foldl insertMissing idx).files = idx.files ∧
      (∀ y, y ∈ (ds.foldl insertMissing idx).dirs ↔ y ∈ idx.dirs ∨ y ∈ ds) ∧
      ∀ p b, b ∈ (ds.foldl insertMissing idx).children p ↔
        b ∈ idx.children p ∨ Ordinary p ∧ Base b ∧ p ++ "/" ++ b ∈ ds ∧ p ++ "/" ++ b ∉ idx.dirs := by
  induction ds generalizing idx with
  | nil => exact ⟨hg, rfl, fun y => by simp, fun p b => by simp⟩
  | cons d ds ih =>
    obtain ⟨hfile, hclean⟩ := hds d (List.mem_cons_self ..)
    have hds' := fun d' hd' => hds d' (List.mem_cons_of_mem d hd')
    rw [List.foldl_cons]
    by_cases hd : d ∈ idx.dirs
    · have heq : idx.insertMissing d = idx := by simp [insertMissing, hasDir, hd]
      obtain ⟨h1, h2, h3, h4⟩ := ih hg hds'
      rw [heq]
      refine ⟨h1, h2, fun y => ?_, fun p b => ?_⟩
      · rw [h3, List.mem_cons]
        constructor
        · exact Or.imp_right .inr
        · rintro (hy | rfl | hy)
          exacts [.inl hy, .inl hd, .inr hy]
      · rw [h4]
        refine or_congr_right (and_congr_right fun _ => and_congr_right fun _ => and_congr_left fun hnot => ?_)
        rw [List.mem_cons, or_iff_right]
        rintro rfl
        exact hnot hd
    · have heq : idx.insertMissing d = idx.insertDir d := by simp [insertMissing, hasDir, hd]
      obtain ⟨hf, hdirs, -, hc⟩ := insertDir_spec hfile hd
      have hg' : Good (idx.insertDir d) := (hg.putDir hclean).clearNotFound d
      obtain ⟨h1, h2, h3, h4⟩ := ih hg' fun d' hd' => by
        rw [hf]
        exact hds' d' hd'
      rw [heq]
      refine ⟨h1, h2.trans hf, fun y => ?_, fun p b => ?_⟩
      · rw [h3, hdirs, AList.mem_insert, List.mem_cons]
        tauto
      · rw [h4, hc, hdirs, AList.mem_insert, List.mem_cons]
        by_cases hpb : p ++ "/" ++ b = d
        · subst hpb
          simp only [true_or, not_true_eq_false, and_false, or_false, true_and]
          tauto
        · simp only [hpb, false_or, and_false, or_false]

end FileIndex
end Renop.Index
