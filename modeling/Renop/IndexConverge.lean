import Renop.IndexRebuild
import Mathlib.Algebra.BigOperators.Group.List.Basic

/-!
# Where a rebuild converges

After a rebuild the directories are those of the scan. The files are too, unless a directory above the base is removed with
them; and the listings are those of an index built from the scan, if every entry that the rebuild leaves in place was listed
to begin with, and not under a path that was a file.
-/

namespace Renop.Index
namespace FileIndex

variable {idx idx' final : FileIndex} {scanned : ScanMaps} {base k x y : String}

def OnListing (idx : FileIndex) (q : String) : Prop := ∃ p b, q = p ++ "/" ++ b ∧ b ∈ idx.children p

/-- An entry that a rebuild leaves in place. -/
def Kept (idx : FileIndex) (scanned : ScanMaps) (y : String) : Prop :=
  y ∈ scanned.files ∧ idx.isBlocked y = false ∧ idx.files.lookup y = scanned.files.lookup y ∨ y ∈ scanned.dirs ∧
    y ∈ idx.dirs

structure Convergent (idx : FileIndex) (scanned : ScanMaps) : Prop where
  listed : ∀ p b, Ordinary p → Base b → idx.Kept scanned (p ++ "/" ++ b) → b ∈ idx.children p ∧ p ∉ idx.files
  -- from a directory outside the scan no listings lead to a file of it
  outside : ∀ k ∈ idx.dirs, k ∉ scanned.dirs → ∀ p b, Ordinary p → Base b → p ++ "/" ++ b ∈ scanned.files →
    idx.isBlocked (p ++ "/" ++ b) = false → Under k (p ++ "/" ++ b) →
    ∃ q, Under k q ∧ Under q (p ++ "/" ++ b) ∧ ¬(q ∈ idx.dirs ∧ idx.OnListing q)

/-- An index of the scan. -/
structure Exact (idx : FileIndex) (scanned : ScanMaps) (final : FileIndex) : Prop where
  good : Good final
  files : ∀ y, final.files.lookup y = if idx.isBlocked y then none else scanned.files.lookup y
  dirs : ∀ y, y ∈ final.dirs ↔ y ∈ scanned.dirs
  complete : ∀ p b, Ordinary p → Base b → final.Indexed (p ++ "/" ++ b) → b ∈ final.children p

theorem walked_iff_path (ht : Tidy idx) :
    idx.Walked k x ↔ Under k x ∧ idx.OnListing x ∧ ∀ q, Under k q → Under q x → q ∈ idx.dirs ∧
      idx.OnListing q := by
  constructor
  · intro h
    generalize hn : x.toList.length = n
    induction n using Nat.strong_induction_on generalizing x with
    | _ n ih =>
      have hunder := h.under
      obtain ⟨p, b, rfl, hb, hp⟩ := h.last
      refine ⟨hunder, ⟨p, b, rfl, hb⟩, fun q hkq hq => ?_⟩
      rcases hp with rfl | ⟨hdir, hw⟩
      · rcases hq.parent (ht.base p b hb) with rfl | hqp
        · exact absurd hkq not_under_self
        · exact absurd (hkq.trans hqp) not_under_self
      · obtain ⟨-, hlisted, hpath⟩ := ih _ (by rw [← hn]; exact (under_child p b).length_lt) hw rfl
        rcases hq.parent (ht.base p b hb) with rfl | hqp
        · exact ⟨hdir, hlisted⟩
        · exact hpath q hkq hqp
  · rintro ⟨hunder, hlisted, hpath⟩
    generalize hn : x.toList.length = n
    induction n using Nat.strong_induction_on generalizing x with
    | _ n ih =>
      obtain ⟨p, b, rfl, hb⟩ := hlisted
      rcases hunder.parent (ht.base p b hb) with rfl | hkp
      · exact .child hb
      · obtain ⟨hdir, hlisted⟩ := hpath p hkp (under_child p b)
        refine (ih _ ?_ hkp hlisted (fun q hkq hq => hpath q hkq (hq.trans (under_child p b))) rfl).step hdir hb
        rw [← hn]
        exact (under_child p b).length_lt

/-! ### The four loops -/

/-- Before the directories outside the scan go (`s₂`), after (`s₃`), and at the end. -/
structure Phases (idx : FileIndex) (scanned : ScanMaps) (s₂ s₃ final : FileIndex) (W T : String → Prop) : Prop where
  good₂ : Good s₂
  files₂ : ∀ y, s₂.files.lookup y = if idx.isBlocked y then none else scanned.files.lookup y
  dirsSub : ∀ y ∈ s₂.dirs, y ∈ idx.dirs
  dirs₂ : ∀ y, y ∉ scanned.files → (∀ f ∈ scanned.files, ¬Under f y) → (y ∈ s₂.dirs ↔ y ∈ idx.dirs)
  children₂ : ∀ p b, (∀ f ∈ scanned.files, ¬Under f (p ++ "/" ++ b)) → (b ∈ s₂.children p ↔
    b ∈ idx.children p ∧ p ∉ idx.files ∧ (p ++ "/" ++ b ∈ idx.files → p ++ "/" ++ b ∈ scanned.files) ∨
    Ordinary p ∧ Base b ∧ p ++ "/" ++ b ∈ scanned.files ∧ idx.isBlocked (p ++ "/" ++ b) = false ∧
      idx.files.lookup (p ++ "/" ++ b) ≠ scanned.files.lookup (p ++ "/" ++ b))
  pruned : Pruned s₂ W T s₃
  gone : ∀ y, W y ↔ (y ∈ s₂.dirs ∧ y ∉ scanned.dirs) ∨ ∃ k ∈ s₂.dirs, k ∉ scanned.dirs ∧
    s₂.Walked k y
  good : Good final
  files : final.files = s₃.files
  dirs : ∀ y, y ∈ final.dirs ↔ y ∈ s₃.dirs ∨ y ∈ scanned.dirs
  children : ∀ p b, b ∈ final.children p ↔
    b ∈ s₃.children p ∨ Ordinary p ∧ Base b ∧ p ++ "/" ++ b ∈ scanned.dirs ∧ p ++ "/" ++ b ∉ s₃.dirs

theorem mem_entries_iff {e : Sigma fun _ : String => FileInfo} {m : PathMap FileInfo} :
    e ∈ m.entries ↔ m.lookup e.1 = some e.2 :=
  AList.mem_lookup_iff.symm

theorem applyScanMaps_phases (hg : Good idx) (hub : Unblocked idx) (hwf : scanned.WellFormed base) (o : Orders) :
    ∃ s₂ s₃ W T, Phases idx scanned s₂ s₃ (applyScanMaps o idx scanned) W T := by
  -- the files outside the scan
  set r₁ := o.files (idx.files.keys.filter fun f => f ∉ scanned.files) with hr₁
  have hmem₁ : ∀ y, y ∈ r₁ ↔ y ∈ idx.files ∧ y ∉ scanned.files := by
    intro y
    rw [hr₁, (o.files_perm _).mem_iff, List.mem_filter, ← AList.mem_keys]
    simp
  have hnodup₁ : r₁.Nodup := (o.files_perm _).nodup_iff.2 (idx.files.keys_nodup.filter _)
  obtain ⟨hg₁, hd₁, hb₁, hgone₁, hkept₁, hc₁⟩ := removeFiles_spec hg r₁
    (fun x hx => ((hmem₁ x).1 hx).1) hnodup₁
  set s₁ := r₁.foldl removeFile idx with hs₁
  -- the files of the scan
  set es := o.scanned scanned.files.entries with hes
  have hmem₂ : ∀ e, e ∈ es ↔ scanned.files.lookup e.1 = some e.2 := by
    intro e
    rw [hes, (o.scanned_perm _).mem_iff, mem_entries_iff]
  have hkeys : ∀ y, y ∈ es.map Sigma.fst ↔ y ∈ scanned.files := by
    intro y
    rw [hes, ((o.scanned_perm _).map Sigma.fst).mem_iff]
    exact AList.mem_keys.symm
  have hesfile : ∀ e ∈ es, e.1 ∈ scanned.files := fun e he => (hkeys e.1).1 (List.mem_map_of_mem he)
  have hnodup₂ : (es.map Sigma.fst).Nodup := ((o.scanned_perm _).map Sigma.fst).nodup_iff.2 scanned.files.nodupKeys
  have h₂ := filled_insertScanned hg₁ es hnodup₂ fun e he e' he' => hwf.not_under (hesfile e he) (.inl (hesfile e' he'))
  set s₂ := es.foldl insertScanned s₁ with hs₂
  have hblocked : ∀ y, s₁.isBlocked y = idx.isBlocked y := by
    intro y
    unfold isBlocked
    rw [hb₁]
  have hlookup₁ : ∀ y ∈ scanned.files, s₁.files.lookup y = idx.files.lookup y := fun y hy =>
    hkept₁ y fun hm => ((hmem₁ y).1 hm).2 hy
  have hunder : ∀ {y : String}, (∀ f ∈ scanned.files, ¬Under f y) → ∀ e ∈ es, ¬Under e.1 y := fun h e he =>
    h e.1 (hesfile e he)
  -- the directories outside the scan
  set r₃ := o.dirs (s₂.dirs.keys.filter fun d => d ∉ scanned.dirs) with hr₃
  have hmem₃ : ∀ y, y ∈ r₃ ↔ y ∈ s₂.dirs ∧ y ∉ scanned.dirs := by
    intro y
    rw [hr₃, (o.dirs_perm _).mem_iff, List.mem_filter, ← AList.mem_keys]
    simp
  obtain ⟨W, T, h₃, hW⟩ := removeDirs_spec h₂.good r₃ fun k hk =>
    ⟨fun hf => h₂.good.disjoint k hf ((hmem₃ k).1 hk).1, h₂.good.clean k ((hmem₃ k).1 hk).1⟩
  set s₃ := r₃.foldl removeDir s₂ with hs₃
  have hfiles₂ : ∀ y, s₂.files.lookup y = if idx.isBlocked y then none else scanned.files.lookup y := by
    intro y
    cases hlookup : scanned.files.lookup y with
    | none =>
      have hy : y ∉ scanned.files := AList.lookup_eq_none.1 hlookup
      rw [ite_self, AList.lookup_eq_none]
      intro hm
      rcases h₂.files y hm with hm | hm
      · exact hy ((hkeys y).1 hm)
      · by_cases hyr : y ∈ r₁
        · exact hgone₁ y hyr hm
        · refine hyr ((hmem₁ y).2 ⟨?_, hy⟩)
          exact (mem_iff_of_lookup (hkept₁ y hyr)).1 hm
    | some info =>
      have hy : y ∈ scanned.files := AList.lookup_isSome.1 (by rw [hlookup]; rfl)
      have hin : (⟨y, info⟩ : Sigma fun _ : String => FileInfo) ∈ es := (hmem₂ ⟨y, info⟩).2 hlookup
      split_ifs with hb
      · rw [(h₂.kept y (hunder fun f hf => hwf.not_under hf (.inl hy)) fun _ => by rw [hblocked]; exact hb).1,
          hlookup₁ y hy, AList.lookup_eq_none]
        intro hm
        have := hub y hm
        simp [hb] at this
      · exact (h₂.stored _ hin (by rw [hblocked]; exact Bool.eq_false_iff.2 hb)).1
  -- the directories of the scan
  have hds : ∀ d ∈ o.scannedDirs scanned.dirs, d ∉ s₃.files ∧ pathClean d = d := by
    intro d hd
    have hd := (o.scannedDirs_perm _).mem_iff.1 hd
    refine ⟨fun hm => ?_, hwf.clean d (.inr hd)⟩
    have hm₂ := ((h₃.mem_files d).1 hm).1
    rw [← AList.lookup_isSome, hfiles₂] at hm₂
    split_ifs at hm₂
    · simp at hm₂
    · exact hwf.disjoint d (AList.lookup_isSome.1 hm₂) hd
  obtain ⟨hg₄, hf₄, hd₄, hc₄⟩ := insertMissing_spec (h₂.good.pruned h₃) (o.scannedDirs scanned.dirs) hds
  have hfinal : applyScanMaps o idx scanned = (o.scannedDirs scanned.dirs).foldl insertMissing s₃ := rfl
  rw [hfinal]
  refine ⟨s₂, s₃, W, T, h₂.good, hfiles₂, fun y hy => ?_, fun y hy hund => ?_, fun p b hund => ?_, h₃, fun y =>
    ?_, hg₄, hf₄, fun y => ?_, fun p b => ?_⟩
  · rw [← hd₁]
    exact h₂.dirs y hy
  · rw [← hd₁]
    exact mem_iff_of_lookup (h₂.kept y (hunder hund) fun hm => absurd ((hkeys y).1 hm) hy).2
  · rw [h₂.children p b (hunder hund), hc₁]
    have hpfile : p ∉ scanned.files := fun hp => hund p hp (under_child p b)
    have hp : p ∉ r₁ ↔ p ∉ idx.files := by
      rw [hmem₁]
      simp [hpfile]
    have hpb : p ++ "/" ++ b ∉ r₁ ↔ (p ++ "/" ++ b ∈ idx.files → p ++ "/" ++ b ∈ scanned.files) := by
      rw [hmem₁]
      tauto
    rw [hp, hpb]
    refine or_congr_right (and_congr_right fun _ => and_congr_right fun _ => ?_)
    constructor
    · rintro ⟨e, he, heq, hb, hne⟩
      have hfile := hesfile e he
      rw [hblocked] at hb
      rw [hlookup₁ _ hfile, ← (hmem₂ e).1 he] at hne
      rw [← heq]
      exact ⟨hfile, hb, hne⟩
    · rintro ⟨hfile, hb, hne⟩
      obtain ⟨info, hinfo⟩ := Option.isSome_iff_exists.1 (AList.lookup_isSome.2 hfile)
      refine ⟨⟨_, info⟩, (hmem₂ _).2 hinfo, rfl, ?_, ?_⟩
      · rwa [hblocked]
      · rw [hlookup₁ _ hfile, ← hinfo]
        exact hne
  · rw [hW]
    simp only [hmem₃, and_assoc]
  · rw [hd₄, (o.scannedDirs_perm _).mem_iff]
  · rw [hc₄, (o.scannedDirs_perm _).mem_iff]

/-! ### Convergence -/

section Converge
variable {s₂ s₃ : FileIndex} {W T : String → Prop}

theorem Phases.mem_files₂ (h : Phases idx scanned s₂ s₃ final W T) (y : String) :
    y ∈ s₂.files ↔ idx.isBlocked y = false ∧ y ∈ scanned.files := by
  rw [← AList.lookup_isSome, h.files₂, ← AList.lookup_isSome]
  by_cases hb : idx.isBlocked y
  · simp [hb]
  · simp [hb]

theorem Phases.listed₂ (h : Phases idx scanned s₂ s₃ final W T) (hwf : scanned.WellFormed base) {p b : String}
    (hkept : idx.Kept scanned (p ++ "/" ++ b)) (ht : Tidy idx) :
    b ∈ s₂.children p ↔ b ∈ idx.children p ∧ p ∉ idx.files := by
  have hhas : scanned.Has (p ++ "/" ++ b) := by
    rcases hkept with ⟨hf, -, -⟩ | ⟨hd, -⟩
    exacts [.inl hf, .inr hd]
  rw [h.children₂ p b fun f hf => hwf.not_under hf hhas]
  rcases hkept with ⟨hf, -, hsame⟩ | ⟨hd, hdir⟩
  · simp [hf, hsame]
  · have hnot : p ++ "/" ++ b ∉ scanned.files := fun hf => hwf.disjoint _ hf hd
    have hfile : p ++ "/" ++ b ∉ idx.files := fun hf => ht.disjoint _ hf hdir
    simp [hnot, hfile]

theorem Phases.path (h : Phases idx scanned s₂ s₃ final W T) (hwf : scanned.WellFormed base)
    (ht : Tidy idx) (hk : k ∈ idx.dirs) (hx : x ∈ scanned.files) :
    (∀ q, Under k q → Under q x → q ∈ s₂.dirs ∧ s₂.OnListing q) ↔ ∀ q, Under k q → Under q x →
      q ∈ idx.dirs ∧
      idx.OnListing q := by
  have hnot : ∀ {q : String}, Under q x → q ∉ scanned.files ∧ ∀ f ∈ scanned.files, ¬Under f q := fun hq =>
    ⟨fun hf => hwf.not_under hf (.inl hx) hq, fun f hf hfq => hwf.not_under hf (.inl hx) (hfq.trans hq)⟩
  have hlisting : ∀ {p b : String}, Under (p ++ "/" ++ b) x → p ++ "/" ++ b ∈ idx.dirs →
      (b ∈ s₂.children p ↔ b ∈ idx.children p ∧ p ∉ idx.files) := by
    intro p b hq hdir
    obtain ⟨hf, hund⟩ := hnot hq
    have hfile : p ++ "/" ++ b ∉ idx.files := fun hf => ht.disjoint _ hf hdir
    rw [h.children₂ p b hund]
    simp [hf, hfile]
  constructor
  · intro hpath q hkq hqx
    obtain ⟨hdir, p, b, rfl, hb⟩ := hpath q hkq hqx
    have hdir' := h.dirsSub _ hdir
    exact ⟨hdir', p, b, rfl, ((hlisting hqx hdir').1 hb).1⟩
  · intro hpath q hkq hqx
    obtain ⟨hdir, p, b, rfl, hb⟩ := hpath q hkq hqx
    obtain ⟨hf, hund⟩ := hnot hqx
    refine ⟨(h.dirs₂ _ hf hund).2 hdir, p, b, rfl, (hlisting hqx hdir).2 ⟨hb, fun hpf => ?_⟩⟩
    rcases hkq.parent (ht.base p b hb) with rfl | hkp
    · exact ht.disjoint p hpf hk
    · exact ht.disjoint p hpf (hpath p hkp ((under_child p b).trans hqx)).1

theorem Phases.not_lost (h : Phases idx scanned s₂ s₃ final W T) (hwf : scanned.WellFormed base) (ht : Tidy idx)
    (hc : Convergent idx scanned) (hx : x ∈ s₂.files) : ¬W x := by
  obtain ⟨hb, hfile⟩ := (h.mem_files₂ x).1 hx
  intro hW
  rcases (h.gone x).1 hW with ⟨hdir, -⟩ | ⟨k, hk, hkD, hw⟩
  · exact h.good₂.disjoint x hx hdir
  · obtain ⟨hunder, ⟨p, b, rfl, hlist⟩, hpath⟩ := (walked_iff_path h.good₂.toTidy).1 hw
    have hk' := h.dirsSub k hk
    obtain ⟨q, hkq, hqx, hnot⟩ :=
      hc.outside k hk' hkD p b (h.good₂.ordinary hlist) (h.good₂.base p b hlist) hfile hb hunder
    exact hnot ((h.path hwf ht hk' hfile).1 hpath q hkq hqx)

theorem Phases.exact (h : Phases idx scanned s₂ s₃ final W T) (hwf : scanned.WellFormed base) (ht : Tidy idx)
    (hc : Convergent idx scanned) : Exact idx scanned final := by
  have hfiles : ∀ y, final.files.lookup y = s₂.files.lookup y := by
    intro y
    rw [h.files]
    by_cases hy : y ∈ s₂.files
    · exact h.pruned.files y (h.not_lost hwf ht hc hy)
    · have hy' : y ∉ s₃.files := fun hm => hy ((h.pruned.mem_files y).1 hm).1
      rw [AList.lookup_eq_none.2 hy, AList.lookup_eq_none.2 hy']
  have hdirs₃ : ∀ y ∈ s₃.dirs, y ∈ scanned.dirs := by
    intro y hy
    obtain ⟨hy₂, hW⟩ := (h.pruned.mem_dirs y).1 hy
    by_contra hD
    exact hW ((h.gone y).2 (.inl ⟨hy₂, hD⟩))
  have hparent : ∀ {p b : String}, scanned.Has (p ++ "/" ++ b) → p ∉ s₂.files := fun hhas hp =>
    hwf.parent_not_file hhas ((h.mem_files₂ _).1 hp).2
  refine ⟨h.good, fun y => (hfiles y).trans (h.files₂ y), fun y => ?_, fun p b hp hb hi => (h.children p b).2 ?_⟩
  · rw [h.dirs]
    exact or_iff_right_of_imp (hdirs₃ y)
  rcases hi with hf | hd
  · have hf₂ := (mem_iff_of_lookup (hfiles _)).1 hf
    obtain ⟨hblocked, hfile⟩ := (h.mem_files₂ _).1 hf₂
    refine .inl (h.pruned.listed p b ?_ (hparent (.inl hfile)) (h.not_lost hwf ht hc hf₂))
    by_cases hsame : idx.files.lookup (p ++ "/" ++ b) = scanned.files.lookup (p ++ "/" ++ b)
    · have hkept : idx.Kept scanned (p ++ "/" ++ b) := .inl ⟨hfile, hblocked, hsame⟩
      exact (h.listed₂ hwf hkept ht).2 (hc.listed p b hp hb hkept)
    · exact (h.children₂ p b fun f hf' => hwf.not_under hf' (.inl hfile)).2 (.inr ⟨hp, hb, hfile, hblocked, hsame⟩)
  · by_cases hd₃ : p ++ "/" ++ b ∈ s₃.dirs
    · have hD := hdirs₃ _ hd₃
      obtain ⟨hd₂, hW⟩ := (h.pruned.mem_dirs _).1 hd₃
      have hkept : idx.Kept scanned (p ++ "/" ++ b) := .inr ⟨hD, h.dirsSub _ hd₂⟩
      exact .inl (h.pruned.listed p b ((h.listed₂ hwf hkept ht).2 (hc.listed p b hp hb hkept)) (hparent (.inr hD)) hW)
    · exact .inr ⟨hp, hb, ((h.dirs _).1 hd).resolve_left hd₃, hd₃⟩

theorem Phases.convergent (h : Phases idx scanned s₂ s₃ final W T) (hwf : scanned.WellFormed base) (ht : Tidy idx)
    (he : Exact idx scanned final) : Convergent idx scanned := by
  have hlisted : ∀ p b, Ordinary p → Base b → idx.Kept scanned (p ++ "/" ++ b) → b ∈ idx.children p ∧
      p ∉ idx.files := by
    intro p b hp hb hkept
    refine (h.listed₂ hwf hkept ht).1 ?_
    have hfinal : final.Indexed (p ++ "/" ++ b) := by
      rcases hkept with ⟨hf, hblocked, -⟩ | ⟨hd, -⟩
      · refine .inl (AList.lookup_isSome.1 ?_)
        rw [he.files, hblocked]
        exact AList.lookup_isSome.2 hf
      · exact .inr ((he.dirs _).2 hd)
    rcases (h.children p b).1 (he.complete p b hp hb hfinal) with hmem | ⟨-, -, hD, hnot⟩
    · exact (h.pruned.sub p).subset hmem
    · -- the directory was removed with one above the base
      have hkept' : p ++ "/" ++ b ∈ idx.dirs := by
        rcases hkept with ⟨hf, -, -⟩ | ⟨-, hdir⟩
        · exact absurd hD (hwf.disjoint _ hf)
        · exact hdir
      have hd₂ : p ++ "/" ++ b ∈ s₂.dirs :=
        (h.dirs₂ _ (fun hf => hwf.disjoint _ hf hD) fun f hf => hwf.not_under hf (.inr hD)).2 hkept'
      have hW : W (p ++ "/" ++ b) := by
        by_contra hW
        exact hnot ((h.pruned.mem_dirs _).2 ⟨hd₂, hW⟩)
      rcases (h.gone _).1 hW with ⟨-, hnotD⟩ | ⟨k, -, -, hw⟩
      · exact absurd hD hnotD
      · obtain ⟨p', b', heq, hmem, -⟩ := hw.connected
        obtain ⟨rfl, rfl⟩ := under_inj hp.1 (h.good₂.ordinary hmem).1 hb (h.good₂.base p' b' hmem) heq
        exact hmem
  refine ⟨hlisted, fun k hk hkD p b hp hb hfile hblocked hunder => ?_⟩
  by_contra hnone
  push Not at hnone
  have hpath := (h.path hwf ht hk hfile).2 hnone
  -- the file is on its listing, and goes
  have hmem : b ∈ s₂.children p := by
    by_cases hsame : idx.files.lookup (p ++ "/" ++ b) = scanned.files.lookup (p ++ "/" ++ b)
    · have hkept : idx.Kept scanned (p ++ "/" ++ b) := .inl ⟨hfile, hblocked, hsame⟩
      exact (h.listed₂ hwf hkept ht).2 (hlisted p b hp hb hkept)
    · exact (h.children₂ p b fun f hf' => hwf.not_under hf' (.inl hfile)).2 (.inr ⟨hp, hb, hfile, hblocked, hsame⟩)
  have hk₂ : k ∈ s₂.dirs := by
    refine (h.dirs₂ k (fun hf => hwf.not_under hf (.inl hfile) hunder) fun f hf hfk => ?_).2 hk
    exact hwf.not_under hf (.inl hfile) (hfk.trans hunder)
  have hw : s₂.Walked k (p ++ "/" ++ b) := (walked_iff_path h.good₂.toTidy).2 ⟨hunder, ⟨p, b, rfl, hmem⟩, hpath⟩
  have hlost := (h.pruned.removed _ ((h.gone _).2 (.inr ⟨k, hk₂, hkD, hw⟩))).1
  rw [← h.files, ← AList.lookup_eq_none, he.files, hblocked] at hlost
  exact AList.lookup_eq_none.1 hlost hfile

end Converge

theorem applyScanMaps_exact (hg : Good idx) (hub : Unblocked idx) (hwf : scanned.WellFormed base) (o : Orders) :
    Good (applyScanMaps o idx scanned) ∧ (Exact idx scanned (applyScanMaps o idx scanned) ↔ Convergent idx scanned) := by
  obtain ⟨s₂, s₃, W, T, h⟩ := applyScanMaps_phases hg hub hwf o
  exact ⟨h.good, h.convergent hwf hg.toTidy, h.exact hwf hg.toTidy⟩

/-! ### The same scan -/

/-- Two scans with the same files and directories. -/
structure SameScan (scanned scanned' : ScanMaps) : Prop where
  files : ∀ y, scanned'.files.lookup y = scanned.files.lookup y
  dirs : ∀ y, y ∈ scanned'.dirs ↔ y ∈ scanned.dirs

variable {scanned' : ScanMaps}

theorem SameScan.wellFormed (h : SameScan scanned scanned') (hwf : scanned.WellFormed base) : scanned'.WellFormed base := by
  have hmem : ∀ y, y ∈ scanned'.files ↔ y ∈ scanned.files := fun y => mem_iff_of_lookup (h.files y)
  have hhas : ∀ y, scanned'.Has y ↔ scanned.Has y := fun y => or_congr (hmem y) (h.dirs y)
  refine ⟨fun x hx => hwf.clean x ((hhas x).1 hx), fun x hx hd => ?_, fun x hx hne => ?_⟩
  · exact hwf.disjoint x ((hmem x).1 hx) ((h.dirs x).1 hd)
  · rw [h.dirs]
    exact hwf.parent x ((hhas x).1 hx) hne

theorem SameScan.exact (h : SameScan scanned scanned') : Exact idx scanned' final ↔ Exact idx scanned final := by
  constructor
  · rintro ⟨hg, hf, hd, hc⟩
    refine ⟨hg, fun y => ?_, fun y => (hd y).trans (h.dirs y), hc⟩
    rw [hf, h.files]
  · rintro ⟨hg, hf, hd, hc⟩
    refine ⟨hg, fun y => ?_, fun y => (hd y).trans (h.dirs y).symm, hc⟩
    rw [hf, h.files]

theorem SameScan.convergent (h : SameScan scanned scanned') : Convergent idx scanned' ↔ Convergent idx scanned := by
  have hmem : ∀ y, y ∈ scanned'.files ↔ y ∈ scanned.files := fun y => mem_iff_of_lookup (h.files y)
  have hkept : ∀ y, idx.Kept scanned' y ↔ idx.Kept scanned y := by
    intro y
    unfold Kept
    rw [hmem, h.files, h.dirs]
  constructor
  · rintro ⟨h1, h2⟩
    refine ⟨fun p b hp hb hk => h1 p b hp hb ((hkept _).2 hk), fun k hk hD p b hp hb hf => ?_⟩
    exact h2 k hk (fun hD' => hD ((h.dirs k).1 hD')) p b hp hb ((hmem _).2 hf)
  · rintro ⟨h1, h2⟩
    refine ⟨fun p b hp hb hk => h1 p b hp hb ((hkept _).1 hk), fun k hk hD p b hp hb hf => ?_⟩
    exact h2 k hk (fun hD' => hD ((h.dirs k).2 hD')) p b hp hb ((hmem _).1 hf)

/-! ### An index from scratch -/

/-- An index built from the scan. -/
def scratch (o : Orders) (idx : FileIndex) (scanned : ScanMaps) : FileIndex :=
  applyScanMaps o { newFileIndex with blocked := idx.blocked } scanned

/-- The index is that of the scan, and as one built from it, but for the order of the listings. -/
structure Converged (idx : FileIndex) (scanned : ScanMaps) (scratch final : FileIndex) : Prop where
  files : ∀ y, final.files.lookup y = if idx.isBlocked y then none else scanned.files.lookup y
  dirs : ∀ y, y ∈ final.dirs ↔ y ∈ scanned.dirs
  filesCount : final.filesCount = scratch.filesCount
  dirsCount : final.dirsCount = scratch.dirsCount
  totalBytes : final.totalBytes = scratch.totalBytes
  children : ∀ p, (final.children p).Perm (scratch.children p)

theorem foldl_counts {α : Type} {f : FileIndex → α → FileIndex} (hf : ∀ idx a, Counts 0 idx → Counts 0 (f idx a))
    (l : List α) (h : Counts 0 idx) : Counts 0 (l.foldl f idx) := by
  induction l generalizing idx with
  | nil => exact h
  | cons a l ih => exact ih (hf idx a h)

theorem applyScanMaps_counts (h : Counts 0 idx) (o : Orders) (scanned : ScanMaps) :
    Counts 0 (applyScanMaps o idx scanned) := by
  have hscanned : ∀ (idx : FileIndex) (e : Sigma fun _ : String => FileInfo), Counts 0 idx →
      Counts 0 (idx.insertScanned e) := by
    intro idx e h
    unfold insertScanned
    split_ifs
    · exact h.insertFile e.1 e.2
    · exact h
  have hmissing : ∀ (idx : FileIndex) (d : String), Counts 0 idx → Counts 0 (idx.insertMissing d) := by
    intro idx d h
    unfold insertMissing
    split_ifs
    · exact h
    · exact h.insertDir d
  unfold applyScanMaps
  dsimp only
  refine foldl_counts hmissing _ (foldl_counts (fun idx d h => h.removeDir d) _ (foldl_counts hscanned _ ?_))
  exact foldl_counts (fun idx x h => h.removeFile x) _ h

theorem entries_perm {m m' : PathMap FileInfo} (h : ∀ y, m.lookup y = m'.lookup y) : m.entries.Perm m'.entries := by
  refine List.lookup_ext m.nodupKeys m'.nodupKeys fun y info => ?_
  show info ∈ m.lookup y ↔ info ∈ m'.lookup y
  rw [h]

theorem Exact.converged {final' : FileIndex} (h : Exact idx scanned final) (h' : Exact idx scanned final')
    (hc : Counts 0 final) (hc' : Counts 0 final') : Converged idx scanned final' final := by
  have hfiles : ∀ y, final.files.lookup y = final'.files.lookup y := fun y => (h.files y).trans (h'.files y).symm
  have hdirs : ∀ y, y ∈ final.dirs ↔ y ∈ final'.dirs := fun y => (h.dirs y).trans (h'.dirs y).symm
  have hperm := entries_perm hfiles
  have hindexed : ∀ y, final.Indexed y ↔ final'.Indexed y := fun y => or_congr (mem_iff_of_lookup (hfiles y)) (hdirs y)
  refine ⟨h.files, h.dirs, ?_, ?_, ?_, fun p => ?_⟩
  · rw [hc.files, hc'.files]
    have := (hperm.map Sigma.fst).length_eq
    exact congrArg Int.ofNat this
  · have hkeys : final.dirs.keys.Perm final'.dirs.keys := by
      refine (List.perm_ext_iff_of_nodup final.dirs.keys_nodup final'.dirs.keys_nodup).2 fun y => ?_
      rw [← AList.mem_keys, ← AList.mem_keys, hdirs]
    rw [hc.dirs, hc'.dirs, hkeys.length_eq]
  · rw [hc.bytes, hc'.bytes]
    exact (hperm.map fun e => FileInfo.size e.2).sum_eq
  · refine (List.perm_ext_iff_of_nodup (h.good.nodup p) (h'.good.nodup p)).2 fun b => ⟨fun hb => ?_, fun hb => ?_⟩
    · exact h'.complete p b (h.good.ordinary hb) (h.good.base p b hb) ((hindexed _).1 (h.good.listed p b hb))
    · exact h.complete p b (h'.good.ordinary hb) (h'.good.base p b hb) ((hindexed _).2 (h'.good.listed p b hb))

theorem Converged.exact {final' : FileIndex} (h : Converged idx scanned final' final) (hg : Good final)
    (h' : Exact idx scanned final') :
    Exact idx scanned final := by
  refine ⟨hg, h.files, h.dirs, fun p b hp hb hi => (h.children p).mem_iff.2 (h'.complete p b hp hb ?_)⟩
  refine hi.imp (fun hf => ?_) fun hd => (h'.dirs _).2 ((h.dirs _).1 hd)
  refine (mem_iff_of_lookup ?_).1 hf
  rw [h.files, h'.files]

theorem scratch_exact (hwf : scanned.WellFormed base) (o : Orders) (idx : FileIndex) :
    Exact idx scanned (scratch o idx scanned) := by
  have hg : Good { newFileIndex with blocked := idx.blocked } := good_new.congr rfl rfl rfl
  have hub : Unblocked { newFileIndex with blocked := idx.blocked } := fun p hp => absurd hp (AList.notMem_empty p)
  have hconv : Convergent { newFileIndex with blocked := idx.blocked } scanned := by
    refine ⟨fun p b _ _ hk => ?_, fun k hk => absurd hk (AList.notMem_empty k)⟩
    rcases hk with ⟨hf, -, hsame⟩ | ⟨-, hd⟩
    · have hnone : scanned.files.lookup (p ++ "/" ++ b) = none := hsame.symm
      exact absurd hf (AList.lookup_eq_none.1 hnone)
    · exact absurd hd (AList.notMem_empty _)
  obtain ⟨h1, h2, h3, h4⟩ := (applyScanMaps_exact hg hub hwf o).2.2 hconv
  exact ⟨h1, h2, h3, h4⟩

/-! ### Rebuilds -/

/-- After any run, a rebuild gives the index of the scan, in whatever order, exactly when what it leaves in place was listed
and nothing outside the scan leads to its files. -/
theorem rebuild_converges_iff (ops : List Op) (hclean : ∀ op ∈ ops, ∀ p ∈ op.path?, pathClean p = p)
    {scanned : ScanMaps} {base : String} (hwf : scanned.WellFormed base) (o o' : Orders) :
    (Converged (newFileIndex.run ops) scanned (scratch o' (newFileIndex.run ops) scanned)
        (applyScanMaps o (newFileIndex.run ops) scanned) ↔ Convergent (newFileIndex.run ops) scanned) ∧
      ∀ index : FileIndex, index.blocked = ∅ → SameScan scanned ⟨index.files, index.dirs.keys⟩ →
        (Converged (newFileIndex.run ops) scanned (scratch o' (newFileIndex.run ops) scanned)
          (applyFileIndexScan o (newFileIndex.run ops) index) ↔ Convergent (newFileIndex.run ops) scanned) := by
  have hg := run_good ops good_new hclean
  have hub : Unblocked (newFileIndex.run ops) :=
    run_unblocked ops (fun p hp => absurd hp (AList.notMem_empty p)) good_new hclean
  have hcounts : Counts 0 newFileIndex := ⟨rfl, rfl, rfl, rfl⟩
  have hc := run_counts ops hcounts
  have hscratch := scratch_exact hwf o' (newFileIndex.run ops)
  have hcs : Counts 0 (scratch o' (newFileIndex.run ops) scanned) := applyScanMaps_counts ⟨rfl, rfl, rfl, rfl⟩ o' scanned
  have hmain : ∀ {scanned' : ScanMaps}, SameScan scanned scanned' →
      (Converged (newFileIndex.run ops) scanned (scratch o' (newFileIndex.run ops) scanned)
        (applyScanMaps o (newFileIndex.run ops) scanned') ↔ Convergent (newFileIndex.run ops) scanned) := by
    intro scanned' hsame
    obtain ⟨hgf, hiff⟩ := applyScanMaps_exact hg hub (hsame.wellFormed hwf) o
    rw [hsame.exact, hsame.convergent] at hiff
    rw [← hiff]
    exact ⟨fun h => h.exact hgf hscratch, fun h => h.converged hscratch (applyScanMaps_counts hc o scanned') hcs⟩
  refine ⟨hmain ⟨fun _ => rfl, fun _ => .rfl⟩, fun index hb hsame => ?_⟩
  rw [applyFileIndexScan_eq o _ hb]
  exact hmain hsame

/-! A file became a directory, and the file in it was indexed before the old one went. -/

def inOrder : Orders :=
  ⟨id, id, id, id, fun _ => .refl _, fun _ => .refl _, fun _ => .refl _, fun _ => .refl _⟩

def turnedOps : List Op := [.insertDir "a", .insertFile "a/b" ⟨1, 1⟩, .insertFile "a/b/c" ⟨2, 2⟩]

def turnedScan : ScanMaps := ⟨AList.singleton "a/b/c" ⟨2, 2⟩, ["a", "a/b"]⟩

theorem rebuild_loses_listing : ¬Converged (newFileIndex.run turnedOps) turnedScan
    (scratch inOrder (newFileIndex.run turnedOps) turnedScan)
      (applyScanMaps inOrder (newFileIndex.run turnedOps) turnedScan) := by
  intro h
  have hperm := h.children "a/b"
  have hold : (applyScanMaps inOrder (newFileIndex.run turnedOps) turnedScan).children "a/b" = [] := by decide
  have hnew : (scratch inOrder (newFileIndex.run turnedOps) turnedScan).children "a/b" = ["c"] := by decide
  rw [hold, hnew] at hperm
  exact absurd hperm.length_eq (by decide)

def listedScan : ScanMaps := ⟨AList.singleton "a/b" ⟨3, 1⟩, ["a"]⟩

theorem rebuild_converges_listed : Converged (newFileIndex.run listedOps) listedScan
    (scratch inOrder (newFileIndex.run listedOps) listedScan)
      (applyScanMaps inOrder (newFileIndex.run listedOps) listedScan) := by
  have hhas : ∀ x, listedScan.Has x → x = "a/b" ∨ x = "a" := by
    rintro x (hx | hx)
    · exact .inl (by simpa [listedScan, AList.mem_keys] using hx)
    · exact .inr (by simpa [listedScan] using hx)
  have hwf : listedScan.WellFormed "a" := by
    refine ⟨fun x hx => ?_, fun x hx => ?_, fun x hx hne => ?_⟩
    · rcases hhas x hx with rfl | rfl <;> decide
    · rcases hhas x (.inl hx) with rfl | rfl
      · decide
      · exact absurd hx (by decide)
    · rcases hhas x hx with rfl | rfl
      · decide
      · exact absurd rfl hne
  refine (rebuild_converges_iff listedOps (by decide) hwf inOrder inOrder).1.2 ⟨fun p b hp hb hkept => ?_,
    fun k hk hD => ?_⟩
  · have hpb : p ++ "/" ++ b = "a" ++ "/" ++ "b" := by
      rcases hhas (p ++ "/" ++ b) (hkept.imp And.left And.left) with h | h
      · exact h
      · have hlen := congrArg (fun s : String => s.toList.length) h
        have hone : "a".toList.length = 1 := rfl
        have hpos : p.toList ≠ [] := fun he => hp.1 (String.toList_eq_nil_iff.1 he)
        have := List.length_pos_iff.2 hpos
        simp only [toList_under, List.length_append, List.length_cons, hone] at hlen
        omega
    obtain ⟨rfl, rfl⟩ := under_inj hp.1 (by decide) hb (by unfold Base; decide) hpb
    decide
  · have hkeys : (newFileIndex.run listedOps).dirs.keys = ["a"] := by decide
    have hka := AList.mem_keys.1 hk
    rw [hkeys] at hka
    exact absurd hka hD

end FileIndex
end Renop.Index
