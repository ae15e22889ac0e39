import Renop.CargoArchive

/-!
# The README of a crate

`validateArchive` captures a README as it passes it, the declared one only after the manifest; `publish` reads the archive
again for one it missed. Together they find the declared file wherever it stands, so the order of the entries does not matter.
-/

namespace Renop.Cargo.Archive

open Renop.Index
open Sql

/-! ### The second reading -/

section Publish
variable (lib : IndexLib) (toml : List UInt8 → Option CargoManifestPackage) (crateName version : String)

/-- The first file of that name. -/
def readDeclaredCargoReadme (archive : Option TarStream) (relative : String) : Except String String := do
  let stream ← orError archive "cargo crate is not a valid gzip archive"
  match stream.entries.find? fun h => pathClean h.name = rootOf crateName version ++ "/" ++ relative ∧
    h.typeflag = .reg with
  | some h => pure (readCargoReadmeFile h.size h.content)
  | none => do
    require (stream.complete = true) "cargo crate contains an invalid tar archive"
    pure ""

/-- The manifest and the README of a crate that is published; the archive is read again for a README that was declared after
it. -/
def publishedReadme (archive : Option TarStream) : Except String (CargoManifestPackage × String) := do
  let manifest ← validateArchive lib toml crateName version archive
  let declared := cargoReadmePath manifest.readme
  if manifest.readmeContent = "" ∧ declared.2 = true ∧ declared.1 ≠ "" ∧ defaultCargoReadmeRank declared.1 =
    none then do
    let readme ← (readDeclaredCargoReadme crateName version archive declared.1).mapError fun _ =>
      "Cargo crate README could not be read"
    pure (manifest, readme)
  else pure (manifest, manifest.readmeContent)

end Publish

/-! ### The README -/

section Readme
variable (crateName version : String)

def Header.text (h : Header) : String := readCargoReadmeFile h.size h.content

def Header.relative (h : Header) : String := relativePath (rootOf crateName version) h.path

/-- The text of the entry of a kind, where there is one. -/
def contentOf (entries : List Header) (P : Header → Prop) [DecidablePred P] :
    String := (entries.find? (P ·)).elim "" Header.text

def Header.isDefault (rank : Nat) (h : Header) : Prop :=
  h.typeflag = .reg ∧ defaultCargoReadmeRank (h.relative crateName version) = some rank

def Header.isDeclared (path : String) (h : Header) : Prop :=
  h.typeflag = .reg ∧ h.path = rootOf crateName version ++ "/" ++ path

instance (rank : Nat) : DecidablePred (Header.isDefault crateName version rank) :=
  fun h => inferInstanceAs (Decidable (h.typeflag = .reg ∧ _))

instance (path : String) : DecidablePred (Header.isDeclared crateName version path) :=
  fun h => inferInstanceAs (Decidable (h.typeflag = .reg ∧ _))

/-- The README of a crate: the declared file, or the first of the default ones that says something. -/
def readmeOf (entries : List Header) (m : CargoManifestPackage) : String :=
  let default := fun rank => contentOf entries (Header.isDefault crateName version rank)
  if (cargoReadmePath m.readme).2 = false then ""
  else if (cargoReadmePath m.readme).1 ≠ "" then
    match defaultCargoReadmeRank (cargoReadmePath m.readme).1 with
    | some rank => default rank
    | none => contentOf entries (Header.isDeclared crateName version (cargoReadmePath m.readme).1)
  else ((List.range 3).find? fun rank => default rank ≠ "").elim "" default

/-- The package's directory is no file, and no two files have the same default name. -/
structure Unambiguous (entries : List Header) : Prop where
  root : ∀ h ∈ entries, h.path = rootOf crateName version → h.typeflag ≠ .reg
  defaults : ∀ rank, ∀ g ∈ entries, ∀ h ∈ entries, g.isDefault crateName version rank →
    h.isDefault crateName version rank → h = g

end Readme

section ReadmeRun
variable {lib : IndexLib} {toml : List UInt8 → Option CargoManifestPackage} {crateName version : String}

theorem relativePath_append (root path : String) : relativePath root (root ++ "/" ++ path) = path := by
  have hlist : (root ++ "/" ++ path).toList = root.toList ++ ['/'] ++ path.toList := by
    rw [String.toList_append, String.toList_append]
    rfl
  rw [relativePath, hlist, if_pos (List.prefix_append _ _),
    show root.toList.length + 1 = (root.toList ++ ['/']).length by simp, List.drop_left, String.ofList_toList]

theorem record_defaultReadmes {w : Walk} {h : Header} (hclean : pathClean h.name = h.path) (rank : Nat) :
    (record toml crateName version w h).defaultReadmes rank =
      if h.isDefault crateName version rank then h.text else w.defaultReadmes rank := by
  unfold record
  by_cases hm : h.isManifest crateName version
  · have hnot : ¬h.isDefault crateName version rank := by
      rintro ⟨-, hrank⟩
      rw [Header.relative, hm.1, show "/Cargo.toml" = "/" ++ "Cargo.toml" from rfl, ← String.append_assoc,
        relativePath_append] at hrank
      exact absurd hrank (by rw [show defaultCargoReadmeRank "Cargo.toml" = none by decide]; simp)
    rw [if_pos hm, if_neg hnot]
    rfl
  · rw [if_neg hm]
    split
    · rename_i hreg
      simp only [readReadme, hclean, Header.isDefault, hreg, true_and]
      rfl
    · rename_i hreg
      rw [if_neg fun h => hreg h.1]
      rfl

theorem foldl_defaultReadmes (toml : List UInt8 → Option CargoManifestPackage) {entries : List Header}
    (hclean : ∀ h ∈ entries, pathClean h.name = h.path) (hu : Unambiguous crateName version entries) (rank : Nat) :
    (entries.foldl (record toml crateName version) Walk.start).defaultReadmes rank =
      contentOf entries (Header.isDefault crateName version rank) := by
  rw [foldl_last (f := fun w => w.defaultReadmes rank) (fun _ => True) trivial fun w _ h hh =>
    ⟨trivial, record_defaultReadmes (hclean h hh) rank⟩, getLast?_filter_eq_find? (hu.defaults rank)]
  rfl

theorem record_declaredReadme {w : Walk} {h : Header} (hclean : pathClean h.name = h.path)
    (hm : ¬h.isManifest crateName version) :
    (record toml crateName version w h).declaredReadme =
      if h.typeflag = .reg ∧ w.hasManifest = true ∧ (cargoReadmePath w.manifest.readme).2 = true ∧
        (cargoReadmePath w.manifest.readme).1 ≠ "" ∧
          h.relative crateName version = (cargoReadmePath w.manifest.readme).1 then h.text
      else w.declaredReadme := by
  unfold record
  rw [if_neg hm]
  split
  · rename_i hreg
    simp only [readReadme, hclean, hreg, true_and]
    rfl
  · rename_i hreg
    rw [if_neg fun h => hreg h.1]
    rfl

theorem record_declaredReadme_manifest {w : Walk} {h : Header} (hm : h.isManifest crateName version) :
    (record toml crateName version w h).declaredReadme = w.declaredReadme := by
  unfold record
  rw [if_pos hm]
  rfl

theorem relative_eq_iff {h : Header} (hroot : Plain (rootOf crateName version).toList)
    (hfine : Fine lib toml crateName version h) (hfile : h.path ≠ rootOf crateName version) (path : String) :
    h.relative crateName version = path ↔ h.path = rootOf crateName version ++ "/" ++ path := by
  constructor
  · rintro rfl
    obtain ⟨segs, hsegs, hname, -⟩ := hfine.name
    have hplain : ∀ seg ∈ (rootOf crateName version).toList :: segs, Plain seg := by
      intro seg hseg
      rcases List.mem_cons.1 hseg with rfl | hseg
      · exact hroot
      · exact hsegs seg hseg
    have hclean := pathClean_safe hplain (by simp) hname
    rw [hfine.name.clean hroot] at hclean
    cases segs with
    | nil =>
      rw [List.intercalate_singleton] at hclean
      exact absurd (String.toList_inj.1 hclean) hfile
    | cons seg segs =>
      have hbegin : (rootOf crateName version).toList ++ ['/'] <+: h.path.toList := by
        rw [Header.path, hclean, List.intercalate_cons_cons]
        exact List.prefix_append _ _
      obtain ⟨rest, hrest⟩ := hbegin
      rw [Header.relative, relativePath, if_pos ⟨rest, hrest⟩, ← String.toList_inj, String.toList_append,
        String.toList_append, ← hrest, show (rootOf crateName version).toList.length + 1 =
        ((rootOf crateName version).toList ++ ['/']).length by simp, List.drop_left]
      simp
  · intro h
    rw [Header.relative, h, relativePath_append]

theorem foldl_before (toml : List UInt8 → Option CargoManifestPackage) {entries : List Header}
    (hclean : ∀ h ∈ entries, pathClean h.name = h.path)
    (hm : ∀ h ∈ entries, ¬h.isManifest crateName version) {w : Walk} (hw : w.hasManifest = false) :
    (entries.foldl (record toml crateName version) w).hasManifest = false ∧
      (entries.foldl (record toml crateName version) w).declaredReadme = w.declaredReadme := by
  induction entries generalizing w with
  | nil => exact ⟨hw, rfl⟩
  | cons h entries ih =>
    have hnot := hm h (List.mem_cons_self ..)
    have hhas : (record toml crateName version w h).hasManifest = false := by rw [record_hasManifest, if_neg hnot, hw]
    obtain ⟨hhas', hdeclared⟩ := ih (fun g hg => hclean g (List.mem_cons_of_mem _ hg))
      (fun g hg => hm g (List.mem_cons_of_mem _ hg)) hhas
    refine ⟨hhas', hdeclared.trans ?_⟩
    rw [record_declaredReadme (hclean h (List.mem_cons_self ..)) hnot, if_neg (by simp [hw])]

/-- What is captured of the declared README: its text, or nothing. -/
theorem foldl_declaredReadme (hroot : Plain (rootOf crateName version).toList) {entries : List Header}
    {m : CargoManifestPackage}
    (h : Accepted lib toml crateName version entries m) (hu : Unambiguous crateName version entries)
    (henabled : (cargoReadmePath m.readme).2 = true) (hpath : (cargoReadmePath m.readme).1 ≠ "") :
    (entries.foldl (record toml crateName version) Walk.start).declaredReadme = "" ∨
      (entries.foldl (record toml crateName version) Walk.start).declaredReadme =
        contentOf entries (Header.isDeclared crateName version (cargoReadmePath m.readme).1) := by
  obtain ⟨h0, h0mem, h0manifest, -, read, hread, -, -, hmread⟩ := h.manifest
  have hclean : ∀ h ∈ entries, pathClean h.name = h.path := fun g hg => (h.fine g hg).name.clean hroot
  have honly : ∀ g ∈ entries, g.isManifest crateName version → g = h0 :=
    fun g hg hgm => eq_of_path h.distinct hg h0mem (hgm.1.trans h0manifest.1.symm)
  obtain ⟨before, after, rfl⟩ := List.append_of_mem h0mem
  have hdistinct := h.distinct
  rw [List.map_append, List.map_cons, List.nodup_append, List.nodup_cons] at hdistinct
  have hbefore : ∀ g ∈ before, ¬g.isManifest crateName version := by
    intro g hg hgm
    obtain rfl := honly g (List.mem_append_left _ hg) hgm
    exact hdistinct.2.2 _ (List.mem_map_of_mem hg) _ (List.mem_cons_self ..) rfl
  have hafter : ∀ g ∈ after, ¬g.isManifest crateName version := by
    intro g hg hgm
    obtain rfl := honly g (List.mem_append_right _ (List.mem_cons_of_mem _ hg)) hgm
    exact hdistinct.2.1.1 (List.mem_map_of_mem hg)
  have hmem : ∀ g ∈ after, g ∈ before ++ h0 :: after := fun g hg => List.mem_append_right _ (List.mem_cons_of_mem _ hg)
  obtain ⟨-, hnone⟩ := foldl_before toml (fun g hg => hclean g (List.mem_append_left _ hg)) hbefore
    (show Walk.start.hasManifest = false from rfl)
  rw [List.foldl_append, List.foldl_cons]
  rw [foldl_last (f := Walk.declaredReadme) (g := Header.text)
    (P := fun g => g.typeflag = .reg ∧ g.relative crateName version = (cargoReadmePath m.readme).1)
    (fun w => w.hasManifest = true ∧ w.manifest = m)
    ⟨by rw [record_hasManifest, if_pos h0manifest], by rw [record_manifest, if_pos h0manifest, hread, hmread]; rfl⟩]
  · rw [record_declaredReadme_manifest h0manifest, hnone]
    cases hlast : (after.filter fun g => g.typeflag = .reg ∧
      g.relative crateName version = (cargoReadmePath m.readme).1).getLast? with
    | none => exact .inl rfl
    | some g =>
      right
      obtain ⟨hg, hP⟩ := List.mem_filter.1 (List.mem_of_getLast? hlast)
      obtain ⟨hreg, hrelative⟩ := of_decide_eq_true hP
      have hfile : g.path ≠ rootOf crateName version := fun hpath => hu.root g (hmem g hg) hpath hreg
      have hdeclared := (relative_eq_iff hroot (h.fine g (hmem g hg)) hfile _).1 hrelative
      rw [contentOf, find?_unique (hmem g hg) (show g.isDeclared crateName version _ from ⟨hreg, hdeclared⟩)
        fun f hf hfP => eq_of_path h.distinct hf (hmem g hg) (hfP.2.trans hdeclared.symm)]
      rfl
  · rintro w ⟨hhas, hmanifest⟩ g hg
    refine ⟨⟨by rw [record_hasManifest, if_neg (hafter g hg), hhas],
      by rw [record_manifest, if_neg (hafter g hg), hmanifest]⟩, ?_⟩
    rw [record_declaredReadme (hclean g (hmem g hg)) (hafter g hg), hhas, hmanifest]
    simp only [henabled, hpath, true_and, ne_eq, not_false_eq_true]

theorem readDeclaredCargoReadme_eq {stream : TarStream} (hcomplete : stream.complete = true)
    (hclean : ∀ h ∈ stream.entries, pathClean h.name = h.path) (path : String) :
    readDeclaredCargoReadme crateName version (some stream) path =
      .ok (contentOf stream.entries (Header.isDeclared crateName version path)) := by
  have hfind : stream.entries.find? (fun h => decide (pathClean h.name = rootOf crateName version ++ "/" ++ path ∧
    h.typeflag = .reg)) = stream.entries.find? (fun h => decide (h.isDeclared crateName version path)) := by
    refine List.find?_congr fun h hh => ?_
    rw [hclean h hh]
    exact decide_eq_decide.2 and_comm
  rw [contentOf, ← hfind, readDeclaredCargoReadme]
  refine bind_ok.2 ⟨stream, rfl, ?_⟩
  split
  · rename_i h hh
    rw [hh]
    rfl
  · rename_i hh
    rw [hh]
    exact require_bind_ok.2 ⟨hcomplete, rfl⟩

/-- A README is declared that is none of the default ones. -/
def DeclaredElsewhere (m : CargoManifestPackage) : Prop :=
  (cargoReadmePath m.readme).2 = true ∧ (cargoReadmePath m.readme).1 ≠ "" ∧
    defaultCargoReadmeRank (cargoReadmePath m.readme).1 = none

instance (m : CargoManifestPackage) : Decidable (DeclaredElsewhere m) := inferInstanceAs (Decidable (_ ∧ _ ∧ _))

theorem Walk.readme_declared {w : Walk} (h : DeclaredElsewhere w.manifest) : w.readme = w.declaredReadme := by
  obtain ⟨henabled, hpath, hrank⟩ := h
  unfold Walk.readme
  split
  · rename_i path hd
    rw [hd] at henabled
    cases henabled
  · rename_i path hd
    rw [hd] at hpath hrank
    rw [if_pos hpath, hrank]

theorem readmeOf_declared {entries : List Header} {m : CargoManifestPackage} (h : DeclaredElsewhere m) :
    readmeOf crateName version entries m = contentOf entries
      (Header.isDeclared crateName version (cargoReadmePath m.readme).1) := by
  obtain ⟨henabled, hpath, hrank⟩ := h
  unfold readmeOf
  rw [if_neg (by simp [henabled]), if_pos hpath, hrank]

theorem Walk.readme_default {w : Walk} {entries : List Header} (h : ¬DeclaredElsewhere w.manifest)
    (hcleared : w.manifest.readmeContent = "")
    (hdefault : ∀ rank, w.defaultReadmes rank = contentOf entries (Header.isDefault crateName version rank)) :
    w.readme = readmeOf crateName version entries w.manifest := by
  have hfun : w.defaultReadmes = fun rank => contentOf entries (Header.isDefault crateName version rank) := funext hdefault
  unfold Walk.readme readmeOf
  split
  · rename_i path hd
    rw [hd, if_pos rfl, hcleared]
  · rename_i path hd
    rw [hd]
    simp only [DeclaredElsewhere, hd, true_and, not_and] at h
    simp only [Bool.true_eq_false, if_false, hfun]
    split
    · rename_i hpath
      cases hrank : defaultCargoReadmeRank path with
      | none => exact absurd hrank (h hpath)
      | some rank => rfl
    · rw [hcleared]

theorem publishedReadme_eq (hroot : Plain (rootOf crateName version).toList) {stream : TarStream} {m : CargoManifestPackage}
    (hcomplete : stream.complete = true) (h : Accepted lib toml crateName version stream.entries m)
    (hu : Unambiguous crateName version stream.entries) :
    ∃ pkg, publishedReadme lib toml crateName version (some stream) = .ok (pkg, readmeOf crateName version stream.entries m)
      ∧ m = { pkg with readmeContent := "" } := by
  obtain ⟨hmanifest, -⟩ := foldl_manifest h
  have hclean : ∀ h ∈ stream.entries, pathClean h.name = h.path := fun g hg => (h.fine g hg).name.clean hroot
  have hdefault := foldl_defaultReadmes toml hclean hu
  have hdeclared := foldl_declaredReadme hroot h hu
  have hcleared : m.readmeContent = "" := by
    obtain ⟨-, -, -, -, read, -, -, -, rfl⟩ := h.manifest
    rfl
  have hvalid := (validateArchive_ok hroot stream).2 ⟨hcomplete, m, h, rfl⟩
  generalize stream.entries.foldl (record toml crateName version) Walk.start = w at hmanifest hdefault hdeclared hvalid
  subst hmanifest
  refine ⟨{ w.manifest with readmeContent := w.readme }, bind_ok.2 ⟨_, hvalid, ?_⟩, ?_⟩
  · show (if w.readme = "" ∧ DeclaredElsewhere w.manifest then _ else _) = _
    by_cases he : DeclaredElsewhere w.manifest
    · rw [Walk.readme_declared he, readmeOf_declared he]
      by_cases hempty : w.declaredReadme = ""
      · rw [if_pos ⟨hempty, he⟩]
        refine bind_ok.2 ⟨_, mapError_ok.2 (readDeclaredCargoReadme_eq hcomplete hclean _), ?_⟩
        rfl
      · rw [if_neg fun h => hempty h.1, ← (hdeclared he.1 he.2.1).resolve_left hempty]
        rfl
    · rw [if_neg fun h => he h.2, Walk.readme_default he hcleared hdefault]
      rfl
  · cases hw : w.manifest
    rw [hw] at hcleared
    simpa using hcleared

theorem contentOf_perm {P : Header → Prop} [DecidablePred P] {l l' : List Header} (hperm : l'.Perm l)
    (huniq : ∀ a ∈ l, ∀ b ∈ l, P a → P b → b = a) : contentOf l' P = contentOf l P := by
  unfold contentOf
  cases hfind : l.find? (P ·) with
  | none =>
    have hnone : l'.find? (P ·) = none :=
      List.find?_eq_none.2 fun h hh => List.find?_eq_none.1 hfind h (hperm.mem_iff.1 hh)
    rw [hnone]
  | some a =>
    have ha := List.mem_of_find?_eq_some hfind
    have hP : P a := by simpa using List.find?_some hfind
    rw [find?_unique (hperm.mem_iff.2 ha) hP fun b hb hPb => huniq a ha b (hperm.mem_iff.1 hb) hP hPb]

theorem readmeOf_perm {m : CargoManifestPackage} {l l' : List Header} (hperm : l'.Perm l)
    (hdistinct : (l.map (·.path)).Nodup)
    (hu : Unambiguous crateName version l) : readmeOf crateName version l' m = readmeOf crateName version l m := by
  have hdefault : ∀ rank, contentOf l' (Header.isDefault crateName version rank) = contentOf l
      (Header.isDefault crateName version rank) :=
    fun rank => contentOf_perm hperm (hu.defaults rank)
  have hdeclared : ∀ path, contentOf l' (Header.isDeclared crateName version path) =
      contentOf l (Header.isDeclared crateName version path) :=
    fun path => contentOf_perm hperm fun a ha b hb hPa hPb => eq_of_path hdistinct hb ha (hPb.2.trans hPa.2.symm)
  unfold readmeOf
  simp only [hdefault, hdeclared]

theorem Accepted.perm {m : CargoManifestPackage} {l l' : List Header} (hperm : l'.Perm l)
    (h : Accepted lib toml crateName version l m) : Accepted lib toml crateName version l' m := by
  obtain ⟨h0, h0mem, h0manifest⟩ := h.manifest
  refine ⟨by rw [hperm.length_eq]; exact h.count, fun g hg => h.fine g (hperm.mem_iff.1 hg), ?_, ?_, h0,
    hperm.mem_iff.2 h0mem, h0manifest⟩
  · exact (hperm.map (·.path)).nodup_iff.2 h.distinct
  · rw [(hperm.map (·.size)).sum_eq]
    exact h.unpacked

theorem Unambiguous.perm {l l' : List Header} (hperm : l'.Perm l) (hu : Unambiguous crateName version l) :
    Unambiguous crateName version l' :=
  ⟨fun h hh => hu.root h (hperm.mem_iff.1 hh), fun rank g hg h hh => hu.defaults rank g (hperm.mem_iff.1 hg) h
    (hperm.mem_iff.1 hh)⟩

/-- The README that is published does not depend on the order of the entries: it is the declared file, wherever it stands, or
the first of the default files that says something. -/
theorem publishedReadme_order (hroot : Plain (rootOf crateName version).toList) {stream stream' : TarStream}
    {m : CargoManifestPackage} (hcomplete : stream.complete = true) (hcomplete' : stream'.complete = true)
    (h : Accepted lib toml crateName version stream.entries m) (hu : Unambiguous crateName version stream.entries)
    (hperm : stream'.entries.Perm stream.entries) :
    (∃ pkg, publishedReadme lib toml crateName version (some stream) =
      .ok (pkg, readmeOf crateName version stream.entries m)
      ∧
      m = { pkg with readmeContent := "" }) ∧
    ∃ pkg, publishedReadme lib toml crateName version (some stream') =
      .ok (pkg, readmeOf crateName version stream.entries m)
      ∧
      m = { pkg with readmeContent := "" } := by
  refine ⟨publishedReadme_eq hroot hcomplete h hu, ?_⟩
  rw [← readmeOf_perm hperm h.distinct hu]
  exact publishedReadme_eq hroot hcomplete' (h.perm hperm) (hu.perm hperm)

theorem publishedReadme_order_demo :
    ∃ pkg, publishedReadme plainLib demoToml "d" "1" (some ⟨demo.entries.reverse, true⟩) = .ok (pkg, "h") ∧
      demoPackage = { pkg with readmeContent := "" } := by
  have hroot : Plain (rootOf "d" "1").toList := by decide
  have hvalid : validateArchive plainLib demoToml "d" "1" (some demo) = .ok demoPackage := by decide
  have hnone : ∀ h ∈ demo.entries, defaultCargoReadmeRank (h.relative "d" "1") = none := by decide
  have hu : Unambiguous "d" "1" demo.entries := by
    refine ⟨by decide, fun rank g hg h hh hdefault => ?_⟩
    rw [Header.isDefault, hnone g hg] at hdefault
    cases hdefault.2
  have horder := publishedReadme_order hroot rfl (show (TarStream.mk demo.entries.reverse true).complete = true from rfl)
    (accepted_of_valid hroot hvalid).2 hu demo.entries.reverse_perm
  rw [show readmeOf "d" "1" demo.entries { demoPackage with readmeContent := "" } = "h" by decide] at horder
  exact horder.2

end ReadmeRun

end Renop.Cargo.Archive
