import Mathlib
import Renop.CargoIndex
import Renop.Maven
import Renop.SanitizePath

/-!
# Crate archives

A crate is a tar archive in which every entry is to stand at or below `name-version` and one is the manifest.
`validateArchive` goes over the entries once; `Accepted` is what it accepts, said of the entries as a whole.
-/

namespace Renop.Cargo.Archive

open Renop.Index
open Sql

/-! ### The archive -/

inductive TypeFlag
  | reg
  | dir
  | other
deriving DecidableEq, Repr

structure Header where
  name : String
  typeflag : TypeFlag
  size : Int
  content : List UInt8
deriving DecidableEq, Repr

/-- The entries of a tar stream, and whether it ends after them. -/
structure TarStream where
  entries : List Header
  complete : Bool

/-- The `readme` of a manifest, which may be any value. -/
inductive ReadmeValue
  | nil
  | bool (b : Bool)
  | text (s : String)
  | other
deriving DecidableEq, Repr

structure CargoManifestPackage where
  name : String
  version : String
  description : String
  license : String
  licenseFile : String
  documentation : String
  homepage : String
  repository : String
  rustVersion : String
  edition : String
  links : String
  readme : ReadmeValue
  readmeContent : String
deriving DecidableEq, Repr

def maxArchiveEntries : Nat := 10000

def maxUnpackedSize : Int := 512 * 2 ^ 20

def maxManifestSize : Int := 2 ^ 20

def maxCargoReadmeSize : Nat := 512 * 2 ^ 10

/-! ### READMEs -/

/-- The path that a manifest declares, and whether there is to be a README. -/
def cargoReadmePath : ReadmeValue → String × Bool
  | .nil => ("", true)
  | .bool b => ("", b)
  | .text s =>
    if '\\' ∈ s.toList ∨ '\x00' ∈ s.toList then ("", false)
    else
      let clean := pathClean (Renop.Maven.trimSpace s)
      if clean = "." ∨ clean = ".." ∨ clean.toList.head? = some '/' ∨ ['.', '.', '/'] <+: clean.toList ∨
        ':' ∈ clean.toList then ("", false)
      else (clean, true)
  | .other => ("", false)

def defaultNames : List String := ["README.md", "README.txt", "README"]

/-- The place among the default names, which have no letter that folds beyond ASCII. -/
def defaultCargoReadmeRank (relativePath : String) : Option Nat :=
  defaultNames.findIdx? fun candidate => Renop.Maven.lower relativePath = Renop.Maven.lower candidate

/-- The text without its last bytes, as few as make it valid. -/
def validText : Nat → List UInt8 → List Char
  | 0, _ => []
  | n + 1, bytes => (Renop.Path.validString bytes).getD (validText n bytes.dropLast)

def readCargoReadmeFile (size : Int) (content : List UInt8) : String :=
  if size ≤ 0 then ""
  else
    let readme := content.take (maxCargoReadmeSize + 1)
    if maxCargoReadmeSize < readme.length then
      let text := Renop.Maven.trimSpace (String.ofList (validText readme.length (readme.take (maxCargoReadmeSize - 5))))
      if text = "" then "" else text ++ "\n\n…"
    else
      match Renop.Path.validString readme with
      | none => ""
      | some text => Renop.Maven.trimSpace (String.ofList text)

/-! ### The walk -/

section Walk
variable (lib : IndexLib) (toml : List UInt8 → Option CargoManifestPackage) (crateName version : String)

def rootOf : String := crateName ++ "-" ++ version

/-- What the loop has seen so far. -/
structure Walk where
  entries : Nat
  unpacked : Int
  hasManifest : Bool
  seenPaths : List String
  manifest : CargoManifestPackage
  declaredReadme : String
  defaultReadmes : Nat → String

def emptyPackage : CargoManifestPackage := ⟨"", "", "", "", "", "", "", "", "", "", "", .nil, ""⟩

def Walk.start : Walk := ⟨0, 0, false, [], emptyPackage, "", fun _ => ""⟩

def canonicalName (name : String) : String := (Renop.Storage.cutSuffix name "/").getD name

/-- The checks of a name. -/
def checkName (root name : String) : Except String Unit := do
  let clean := pathClean name
  require ('\\' ∉ name.toList ∧ '\x00' ∉ name.toList) "cargo crate contains an unsafe path"
  require (¬(clean = "." ∨ ['.', '.', '/'] <+: clean.toList ∨ ['/'] <+: clean.toList ∨ ':' ∈ clean.toList ∨
    (clean ≠ root ∧ ¬root.toList ++ ['/'] <+: clean.toList))) "cargo crate contains an unsafe path"
  require (¬(canonicalName name = "" ∨ clean ≠ canonicalName name)) "cargo crate contains a non-canonical path"

/-- A path below the root, relative to it. -/
def relativePath (root clean : String) : String :=
  if root.toList ++ ['/'] <+: clean.toList then String.ofList (clean.toList.drop (root.toList.length + 1)) else clean

def readManifest (h : Header) (w : Walk) : Except String Walk := do
  require (h.size ≤ maxManifestSize) "cargo.toml exceeds the size limit"
  let manifest ← orError (toml h.content) "cargo crate contains an invalid Cargo.toml"
  require (manifest.name = crateName ∧ sameVersion lib manifest.version version = true)
    "cargo.toml package name or version does not match publish metadata"
  pure { w with manifest := { manifest with readmeContent := "" }, hasManifest := true }

/-- A README is kept as a default one, as the declared one, or as both. -/
def readReadme (h : Header) (w : Walk) : Walk :=
  let relative := relativePath (rootOf crateName version) (pathClean h.name)
  let readme := readCargoReadmeFile h.size h.content
  let declared := cargoReadmePath w.manifest.readme
  { w with
    defaultReadmes := fun rank => if defaultCargoReadmeRank relative = some rank then readme else w.defaultReadmes rank
    declaredReadme :=
      if w.hasManifest = true ∧ declared.2 = true ∧ declared.1 ≠ "" ∧
        relative = declared.1 then readme else w.declaredReadme }

/-- An entry that is counted. -/
def enter (h : Header) (w : Walk) : Walk :=
  { w with entries := w.entries + 1, seenPaths := pathClean h.name :: w.seenPaths, unpacked := w.unpacked + h.size }

/-- What is read of an entry. -/
def keep (h : Header) (w : Walk) : Except String Walk :=
  if pathClean h.name = rootOf crateName version ++ "/Cargo.toml" ∧ h.typeflag = .reg then readManifest lib toml crateName
    version h w
  else if h.typeflag = .reg then pure (readReadme crateName version h w)
  else pure w

def visit (h : Header) (w : Walk) : Except String Walk := do
  require (w.entries + 1 ≤ maxArchiveEntries) "cargo crate contains too many files"
  checkName (rootOf crateName version) h.name
  require (pathClean h.name ∉ w.seenPaths) "cargo crate contains a duplicate path"
  require (h.typeflag = .reg ∨ h.typeflag = .dir) "cargo crate contains an unsupported file type"
  require (¬(h.size < 0 ∨ maxUnpackedSize - h.size < w.unpacked)) "cargo crate expands beyond the size limit"
  keep lib toml crateName version h (enter h w)

def walk : List Header → Walk → Except String Walk
  | [], w => pure w
  | h :: entries, w => do
    let w ← visit lib toml crateName version h w
    walk entries w

/-- The README that the walk found for a manifest. -/
def Walk.readme (w : Walk) : String :=
  match cargoReadmePath w.manifest.readme with
  | (_, false) => w.manifest.readmeContent
  | (path, true) =>
    if path ≠ "" then
      match defaultCargoReadmeRank path with
      | some rank => w.defaultReadmes rank
      | none => w.declaredReadme
    else ((List.range 3).find? fun rank => w.defaultReadmes rank ≠ "").elim w.manifest.readmeContent w.defaultReadmes

def validateArchive (archive : Option TarStream) : Except String CargoManifestPackage := do
  let stream ← orError archive "cargo crate is not a valid gzip archive"
  let w ← walk lib toml crateName version stream.entries Walk.start
  require (stream.complete = true) "cargo crate contains an invalid tar archive"
  require (w.hasManifest = true) "cargo crate does not contain Cargo.toml"
  pure { w.manifest with readmeContent := w.readme }

end Walk

/-! ### Names -/

section Names
variable {root name : String}

/-- A path of plain segments, of which the root is the first, perhaps with a slash behind it. -/
def SafeName (root name : String) : Prop :=
  ∃ segs : List (List Char), (∀ seg ∈ segs, Plain seg) ∧
    (name.toList = List.intercalate ['/'] (root.toList :: segs) ∨ name.toList = List.intercalate ['/'] (root.toList :: segs)
      ++ ['/']) ∧
    '\\' ∉ name.toList ∧ '\x00' ∉ name.toList ∧ ':' ∉ name.toList

/-- What is above the start of a path stands at its start. -/
def ParentsFirst (acc : List (List Char)) : Prop := ['.', '.'] ∈ acc → acc.getLast? = some ['.', '.']

theorem getLast?_of_mem {α : Type} {x a : α} {l : List α} (h : x ∈ l) : (a :: l).getLast? = l.getLast? := by
  cases l with
  | nil => cases h
  | cons b l => rw [List.getLast?_cons_cons]

theorem cleanSegment_parentsFirst {acc : List (List Char)} (h : ParentsFirst acc) (seg : List Char) :
    ParentsFirst (cleanSegment false acc seg) := by
  unfold cleanSegment
  split
  · exact h
  · split
    · rename_i hseg
      cases acc with
      | nil => exact fun _ => by rw [hseg]; rfl
      | cons last rest =>
        simp only
        split
        · rename_i hlast
          have hmem : ['.', '.'] ∈ last :: rest := hlast ▸ List.mem_cons_self ..
          exact fun _ => (getLast?_of_mem hmem).trans (h hmem)
        · exact fun hmem => (getLast?_of_mem hmem).symm.trans (h (List.mem_cons_of_mem _ hmem))
    · rename_i hseg
      intro hmem
      have hmem := (List.mem_cons.1 hmem).resolve_left (Ne.symm hseg)
      exact (getLast?_of_mem hmem).trans (h hmem)

theorem cleanSegments_parentsFirst (p : List Char) : ParentsFirst (cleanSegments false [] p) := by
  have hfold : ∀ (l acc : List (List Char)), ParentsFirst acc → ParentsFirst (l.foldl (cleanSegment false) acc) := by
    intro l
    induction l with
    | nil => exact fun _ h => h
    | cons seg l ih => exact fun acc h => ih _ (cleanSegment_parentsFirst h seg)
  exact hfold _ [] fun h => absurd h List.not_mem_nil

theorem splitOn_plain {seg : List Char} (h : '/' ∉ seg) : seg.splitOn '/' = [seg] := by
  have hsplit : (List.intercalate ['/'] [seg]).splitOn '/' = [seg] := List.splitOn_intercalate '/' (by simpa using h)
    (by simp)
  rwa [List.intercalate_singleton] at hsplit

/-- A clean path that begins with the root goes on in plain segments. -/
theorem clean_segments (hroot : Plain root.toList) (hdot : pathClean name ≠ ".")
    (hslash : ¬['/'] <+: (pathClean name).toList)
    (hunder : pathClean name = root ∨ root.toList ++ ['/'] <+: (pathClean name).toList) :
    ∃ segs : List (List Char), (∀ seg ∈ segs, Plain seg) ∧ (pathClean name).toList = List.intercalate ['/']
      (root.toList :: segs) := by
  have hrooted : (name.toList.head? == some '/') = false := by
    by_contra h
    rw [Bool.not_eq_false] at h
    apply hslash
    rw [Renop.Path.pathClean_eq, h, String.toList_ofList]
    exact ⟨_, rfl⟩
  have hclean : pathClean name = String.ofList (render false (cleanSegments false [] name.toList)) := by
    rw [Renop.Path.pathClean_eq, hrooted]
  have hsegments : Segments (cleanSegments false [] name.toList) := Renop.Path.cleanSegments_of_root _ _
  have hfirst := cleanSegments_parentsFirst name.toList
  have hnedot := @Renop.Path.cleanSegments_ne_dot false name.toList
  generalize cleanSegments false [] name.toList = acc at hclean hsegments hfirst hnedot
  have hbody : (pathClean name).toList = List.intercalate ['/'] acc.reverse := by
    rw [hclean, String.toList_ofList]
    show (if List.intercalate ['/'] acc.reverse = [] then ['.'] else List.intercalate ['/'] acc.reverse) = _
    rw [if_neg]
    intro hnil
    apply hdot
    rw [hclean]
    show String.ofList (if List.intercalate ['/'] acc.reverse = [] then ['.'] else List.intercalate ['/'] acc.reverse) = _
    rw [if_pos hnil]
  have hne : acc.reverse ≠ [] := by
    intro hnil
    apply hdot
    rw [hclean, List.reverse_eq_nil_iff.1 hnil]
    rfl
  have hsplit : (pathClean name).toList.splitOn '/' = acc.reverse := by
    rw [hbody, List.splitOn_intercalate '/' (fun seg hseg => (hsegments seg (List.mem_reverse.1 hseg)).2) hne]
  obtain ⟨tail, htail⟩ : ∃ tail, acc.reverse = root.toList :: tail := by
    rcases hunder with h | ⟨rest, h⟩
    · exact ⟨[], by rw [← hsplit, h, splitOn_plain hroot.2]⟩
    · refine ⟨rest.splitOn '/', ?_⟩
      rw [← hsplit, ← h, List.append_assoc, List.singleton_append, List.splitOn_append_cons_self_of_not_mem hroot.2]
  have hlast : acc.getLast? = some root.toList := by rw [← List.head?_reverse, htail, List.head?_cons]
  refine ⟨tail, fun seg hseg => ?_, by rw [hbody, htail]⟩
  have hmem : seg ∈ acc := by
    rw [← List.mem_reverse, htail]
    exact List.mem_cons_of_mem _ hseg
  refine ⟨?_, (hsegments seg hmem).2⟩
  simp only [List.mem_cons, List.not_mem_nil, or_false, not_or]
  refine ⟨(hsegments seg hmem).1, hnedot seg hmem, ?_⟩
  rintro rfl
  have hparent := (hfirst hmem).symm.trans hlast
  exact hroot.1 (by rw [← Option.some.inj hparent]; simp)

theorem canonicalName_slash {p : List Char} (h : name.toList = p ++ ['/']) : canonicalName name = String.ofList p := by
  have hsuffix : Renop.Storage.hasSuffix name "/" = true := by
    rw [Renop.Storage.hasSuffix, List.isSuffixOf_iff_suffix, h]
    exact List.suffix_append _ _
  rw [canonicalName, Renop.Storage.cutSuffix, if_pos hsuffix, Option.getD_some, Renop.Storage.dropRight, h]
  congr 1
  simp

theorem canonicalName_eq (h : name.toList.getLast? ≠ some '/') : canonicalName name = name := by
  have hsuffix : ¬Renop.Storage.hasSuffix name "/" = true := by
    rw [Renop.Storage.hasSuffix, List.isSuffixOf_iff_suffix]
    rintro ⟨p, hp⟩
    apply h
    rw [← hp]
    exact List.getLast?_concat ..
  rw [canonicalName, Renop.Storage.cutSuffix, if_neg hsuffix, Option.getD_none]

theorem toList_canonicalName (name : String) :
    name.toList = (canonicalName name).toList ∨ name.toList = (canonicalName name).toList ++ ['/'] := by
  by_cases h : name.toList.getLast? = some '/'
  · obtain ⟨p, hp⟩ := List.getLast?_eq_some_iff.1 h
    exact .inr (by rw [canonicalName_slash hp, String.toList_ofList, hp])
  · exact .inl (by rw [canonicalName_eq h])

section Path
variable {segs : List (List Char)}

theorem getLast?_intercalate (h : ∀ seg ∈ segs, Plain seg) (hne : segs ≠ []) :
    (List.intercalate ['/'] segs).getLast? ≠ some '/' := by
  induction segs with
  | nil => exact absurd rfl hne
  | cons seg segs ih =>
    cases segs with
    | nil =>
      rw [List.intercalate_singleton]
      intro hlast
      exact (h seg (List.mem_cons_self ..)).2 (List.mem_of_getLast? hlast)
    | cons seg' segs =>
      have ih := ih (fun s hs => h s (List.mem_cons_of_mem _ hs)) (by simp)
      have hnil := intercalate_ne_nil (fun s hs => (h s (List.mem_cons_of_mem _ hs)).segment) (by simp : seg' :: segs ≠ [])
      rw [List.intercalate_cons_cons, List.append_assoc, List.getLast?_append, List.getLast?_append]
      cases hlast : (List.intercalate ['/'] (seg' :: segs)).getLast? with
      | none => exact absurd (List.getLast?_eq_none_iff.1 hlast) hnil
      | some c => rwa [hlast] at ih

theorem pathClean_safe (h : ∀ seg ∈ segs, Plain seg) (hne : segs ≠ [])
    (hname : name.toList = List.intercalate ['/'] segs ∨ name.toList = List.intercalate ['/'] segs ++ ['/']) :
    (pathClean name).toList = List.intercalate ['/'] segs := by
  have hnil := intercalate_ne_nil (fun s hs => (h s hs).segment) hne
  have hhead : (List.intercalate ['/'] segs).head? ≠ some '/' := Renop.Path.intercalate_head?_ne_slash fun s hs =>
    (h s hs).segment
  have hrooted : (name.toList.head? == some '/') = false := by
    rw [beq_eq_false_iff_ne]
    rcases hname with hname | hname
    · rwa [hname]
    · rw [hname, List.head?_append]
      cases hlist : List.intercalate ['/'] segs with
      | nil => exact absurd hlist hnil
      | cons c cs => rwa [hlist] at hhead
  have hsegs : cleanSegments false [] name.toList = segs.reverse := by
    rcases hname with hname | hname
    · rw [hname, cleanSegments_plain h hne, List.append_nil]
    · rw [hname, cleanSegments_append, cleanSegments_plain h hne, List.append_nil]
      rfl
  rw [Renop.Path.pathClean_eq, hrooted, hsegs, String.toList_ofList]
  show (if List.intercalate ['/'] segs.reverse.reverse = [] then ['.'] else List.intercalate ['/'] segs.reverse.reverse) = _
  rw [List.reverse_reverse, if_neg hnil]

end Path

theorem SafeName.clean (hroot : Plain root.toList) (h : SafeName root name) : pathClean name = canonicalName name := by
  obtain ⟨segs, hsegs, hname, -⟩ := h
  have hplain : ∀ seg ∈ root.toList :: segs, Plain seg := List.forall_mem_cons.2 ⟨hroot, hsegs⟩
  have hclean := pathClean_safe hplain (by simp) hname
  rcases hname with hname | hname
  · rw [canonicalName_eq (by rw [hname]; exact getLast?_intercalate hplain (by simp)), ← String.toList_inj, hclean, hname]
  · rw [canonicalName_slash hname, ← String.toList_inj, hclean, String.toList_ofList]

/-- The checks of a name let pass the safe names and no others. -/
theorem checkName_ok (hroot : Plain root.toList) : checkName root name = .ok () ↔ SafeName root name := by
  unfold checkName
  rw [require_bind_ok, require_bind_ok, require_ok]
  constructor
  · rintro ⟨⟨hback, hnul⟩, hunsafe, hcanonical⟩
    simp only [not_or, not_and, not_not] at hunsafe hcanonical
    obtain ⟨hdot, -, hslash, hcolon, hunder⟩ := hunsafe
    obtain ⟨segs, hsegs, hclean⟩ := clean_segments hroot hdot hslash (or_iff_not_imp_left.2 hunder)
    have hname : name.toList = List.intercalate ['/'] (root.toList :: segs) ∨
        name.toList = List.intercalate ['/'] (root.toList :: segs) ++ ['/'] := by
      rw [← hclean, hcanonical.2]
      exact toList_canonicalName name
    refine ⟨segs, hsegs, hname, hback, hnul, ?_⟩
    rcases hname with hname | hname
    · rwa [hname, ← hclean]
    · rw [hname, ← hclean]
      simpa using hcolon
  · intro h
    have hclean := h.clean hroot
    obtain ⟨segs, hsegs, hname, hback, hnul, hcolon⟩ := h
    have hplain : ∀ seg ∈ root.toList :: segs, Plain seg := List.forall_mem_cons.2 ⟨hroot, hsegs⟩
    have hpath := pathClean_safe hplain (by simp) hname
    have hsplit : (pathClean name).toList.splitOn '/' = root.toList :: segs := by
      rw [hpath, List.splitOn_intercalate '/' (fun seg hseg => (hplain seg hseg).2) (by simp)]
    have hfirst : ∀ {l : List Char}, l.splitOn '/' = root.toList :: segs → ∀ {seg rest : List Char},
      l = seg ++ '/' :: rest →
      '/' ∉ seg →
        seg = root.toList := by
      rintro l hl seg rest rfl hseg
      rw [List.splitOn_append_cons_self_of_not_mem hseg] at hl
      exact (List.cons.inj hl).1
    have hproper : ∀ seg, seg = root.toList → seg ∉ [[], ['.'], ['.', '.']] := fun seg hseg => hseg ▸ hroot.1
    refine ⟨⟨hback, hnul⟩, ?_, ?_⟩
    · rintro (hdot | ⟨rest, hparent⟩ | ⟨rest, hslash⟩ | hcolon' | ⟨hne, hunder⟩)
      · rw [hdot] at hsplit
        exact hproper ['.'] (List.cons.inj hsplit).1 (by simp)
      · exact hproper ['.', '.'] (hfirst hsplit hparent.symm (by simp)) (by simp)
      · exact hproper [] (hfirst hsplit hslash.symm (by simp)) (by simp)
      · apply hcolon
        rcases hname with hname | hname
        · rwa [hname, ← hpath]
        · rw [hname, ← hpath]
          exact List.mem_append_left _ hcolon'
      · cases segs with
        | nil =>
          apply hne
          rw [← String.toList_inj, hpath, List.intercalate_singleton]
        | cons seg segs =>
          apply hunder
          rw [hpath, List.intercalate_cons_cons]
          exact List.prefix_append _ _
    · rintro (hempty | hne)
      · rw [← hclean] at hempty
        rw [hempty] at hsplit
        exact hproper [] (List.cons.inj hsplit).1 (by simp)
      · exact hne hclean

end Names

/-! ### What is accepted -/

section Accepted
variable (lib : IndexLib) (toml : List UInt8 → Option CargoManifestPackage) (crateName version : String)

def Header.path (h : Header) : String := canonicalName h.name

def Header.isFile (h : Header) : Prop := h.typeflag = .reg

def Header.isManifest (h : Header) : Prop := h.path = rootOf crateName version ++ "/Cargo.toml" ∧ h.isFile

/-- A manifest of this crate. -/
def Declares (h : Header) (m : CargoManifestPackage) : Prop :=
  h.size ≤ maxManifestSize ∧ ∃ read, toml h.content = some read ∧ read.name = crateName ∧
    sameVersion lib read.version version = true ∧ m = { read with readmeContent := "" }

/-- What is asked of each entry by itself. -/
structure Fine (h : Header) : Prop where
  name : SafeName (rootOf crateName version) h.name
  type : h.typeflag = .reg ∨ h.typeflag = .dir
  size : 0 ≤ h.size
  manifest : h.isManifest crateName version → ∃ m, Declares lib toml crateName version h m

/-- The entries of an accepted crate, with its manifest. -/
structure Accepted (entries : List Header) (m : CargoManifestPackage) : Prop where
  count : entries.length ≤ maxArchiveEntries
  fine : ∀ h ∈ entries, Fine lib toml crateName version h
  distinct : (entries.map (·.path)).Nodup
  unpacked : (entries.map (·.size)).sum ≤ maxUnpackedSize
  manifest : ∃ h ∈ entries, h.isManifest crateName version ∧ Declares lib toml crateName version h m

end Accepted

/-! ### One entry -/

section Visit
variable {lib : IndexLib} {toml : List UInt8 → Option CargoManifestPackage} {crateName version : String} {h : Header}
    {w w' : Walk}

instance : Decidable (h.isManifest crateName version) := inferInstanceAs (Decidable (_ ∧ h.typeflag = .reg))

/-- What an entry that passes its checks makes of the state. -/
def record (toml : List UInt8 → Option CargoManifestPackage) (crateName version : String) (w : Walk) (h : Header) : Walk :=
  if h.isManifest crateName version then
    { enter h w with manifest := { (toml h.content).getD emptyPackage with readmeContent := "" }, hasManifest := true }
  else if h.typeflag = .reg then readReadme crateName version h (enter h w)
  else enter h w

theorem readManifest_ok : readManifest lib toml crateName version h w = .ok w' ↔
    (∃ m, Declares lib toml crateName version h m) ∧
      w' = { w with manifest := { (toml h.content).getD emptyPackage with readmeContent := "" }, hasManifest := true } := by
  unfold readManifest
  rw [require_bind_ok, bind_ok]
  constructor
  · rintro ⟨hsize, read, hread, h⟩
    rw [orError_ok] at hread
    rw [require_bind_ok] at h
    obtain ⟨⟨hname, hversion⟩, h⟩ := h
    refine ⟨⟨_, hsize, read, hread, hname, hversion, rfl⟩, ?_⟩
    rw [hread]
    exact (Except.ok.inj h).symm
  · rintro ⟨⟨m, hsize, read, hread, hname, hversion, -⟩, rfl⟩
    refine ⟨hsize, read, orError_ok.2 hread, require_bind_ok.2 ⟨⟨hname, hversion⟩, ?_⟩⟩
    rw [hread]
    rfl

theorem keep_ok (hclean : pathClean h.name = h.path) : keep lib toml crateName version h (enter h w) = .ok w' ↔
    (h.isManifest crateName version → ∃ m, Declares lib toml crateName version h m) ∧
      w' = record toml crateName version w h := by
  unfold keep record
  rw [hclean]
  by_cases hm : h.isManifest crateName version
  · rw [if_pos hm, if_pos (show h.path = _ ∧ h.typeflag = .reg from hm), readManifest_ok]
    exact ⟨fun hr => ⟨fun _ => hr.1, hr.2⟩, fun hr => ⟨hr.1 hm, hr.2⟩⟩
  · rw [if_neg hm, if_neg (show ¬(h.path = _ ∧ h.typeflag = .reg) from hm)]
    split
    · exact ⟨fun hr => ⟨fun h => absurd h hm, (Except.ok.inj hr).symm⟩, fun hr => congrArg Except.ok hr.2.symm⟩
    · exact ⟨fun hr => ⟨fun h => absurd h hm, (Except.ok.inj hr).symm⟩, fun hr => congrArg Except.ok hr.2.symm⟩

theorem visit_ok (hroot : Plain (rootOf crateName version).toList) : visit lib toml crateName version h w = .ok w' ↔
    w.entries + 1 ≤ maxArchiveEntries ∧ Fine lib toml crateName version h ∧ h.path ∉ w.seenPaths ∧
      w.unpacked + h.size ≤ maxUnpackedSize ∧ w' = record toml crateName version w h := by
  unfold visit
  rw [require_bind_ok, bind_ok]
  constructor
  · rintro ⟨hcount, u, hname, hrest⟩
    have hsafe := (checkName_ok hroot).1 hname
    have hclean : pathClean h.name = h.path := hsafe.clean hroot
    rw [require_bind_ok, require_bind_ok, require_bind_ok, keep_ok hclean, hclean] at hrest
    obtain ⟨hseen, htype, hsize, hmanifest, hrecord⟩ := hrest
    exact ⟨hcount, ⟨hsafe, htype, by omega, hmanifest⟩, hseen, by omega, hrecord⟩
  · rintro ⟨hcount, ⟨hsafe, htype, hsize, hmanifest⟩, hseen, hunpacked, hrecord⟩
    have hclean : pathClean h.name = h.path := hsafe.clean hroot
    refine ⟨hcount, (), (checkName_ok hroot).2 hsafe, ?_⟩
    rw [require_bind_ok, require_bind_ok, require_bind_ok, keep_ok hclean, hclean]
    exact ⟨hseen, htype, by omega, hmanifest, hrecord⟩

end Visit

/-! ### The walk over all entries -/

section Run
variable {lib : IndexLib} {toml : List UInt8 → Option CargoManifestPackage} {crateName version : String}

@[simp] theorem record_entries (w : Walk) (h : Header) : (record toml crateName version w h).entries = w.entries + 1 := by
  unfold record
  split_ifs <;> rfl

@[simp] theorem record_unpacked (w : Walk) (h : Header) :
    (record toml crateName version w h).unpacked = w.unpacked + h.size := by
  unfold record
  split_ifs <;> rfl

@[simp] theorem record_seenPaths (w : Walk) (h : Header) :
    (record toml crateName version w h).seenPaths = pathClean h.name :: w.seenPaths := by
  unfold record
  split_ifs <;> rfl

/-- The walk gets to its end just where each entry passes, no path comes twice and the limits hold for all entries together.
-/
theorem walk_ok (hroot : Plain (rootOf crateName version).toList) {entries : List Header} {w w' : Walk}
    (hcount : w.entries ≤ maxArchiveEntries) (hunpacked : w.unpacked ≤ maxUnpackedSize) :
    walk lib toml crateName version entries w = .ok w' ↔
      w.entries + entries.length ≤ maxArchiveEntries ∧ (∀ h ∈ entries, Fine lib toml crateName version h) ∧
        (entries.map (·.path)).Nodup ∧ (∀ h ∈ entries, h.path ∉ w.seenPaths) ∧
        w.unpacked + (entries.map (·.size)).sum ≤ maxUnpackedSize ∧
          w' = entries.foldl (record toml crateName version) w := by
  induction entries generalizing w with
  | nil =>
    constructor
    · intro h
      exact ⟨hcount, by simp, List.nodup_nil, by simp, by simpa using hunpacked, (Except.ok.inj h).symm⟩
    · rintro ⟨-, -, -, -, -, rfl⟩
      rfl
  | cons h entries ih =>
    rw [walk, bind_ok]
    simp only [visit_ok hroot]
    have hnonneg : (∀ g ∈ entries, Fine lib toml crateName version g) → 0 ≤ (entries.map (·.size)).sum := by
      intro hfine
      refine List.sum_nonneg fun x hx => ?_
      obtain ⟨g, hg, rfl⟩ := List.mem_map.1 hx
      exact (hfine g hg).size
    have hclean : Fine lib toml crateName version h → pathClean h.name = h.path := fun hfine => hfine.name.clean hroot
    constructor
    · rintro ⟨_, ⟨hcount, hfine, hseen, hunpacked, rfl⟩, hrest⟩
      rw [ih (by simpa using hcount) (by simpa using hunpacked)] at hrest
      obtain ⟨hcount, hfines, hnodup, hseens, hunpacked, rfl⟩ := hrest
      simp only [record_entries, record_unpacked, record_seenPaths, hclean hfine, List.mem_cons,
        not_or] at hcount hseens hunpacked
      refine ⟨by simp; omega, ?_, ?_, ?_, by simp; omega, rfl⟩
      · intro g hg
        rcases List.mem_cons.1 hg with rfl | hg
        · exact hfine
        · exact hfines g hg
      · rw [List.map_cons, List.nodup_cons]
        refine ⟨fun hmem => ?_, hnodup⟩
        obtain ⟨g, hg, heq⟩ := List.mem_map.1 hmem
        exact (hseens g hg).1 heq
      · intro g hg
        rcases List.mem_cons.1 hg with rfl | hg
        · exact hseen
        · exact (hseens g hg).2
    · rintro ⟨hcount, hfines, hnodup, hseens, hunpacked, rfl⟩
      rw [List.map_cons, List.nodup_cons] at hnodup
      rw [List.map_cons, List.sum_cons] at hunpacked
      rw [List.length_cons] at hcount
      have hfine := hfines h (List.mem_cons_self ..)
      have hfines' : ∀ g ∈ entries, Fine lib toml crateName version g := fun g hg => hfines g (List.mem_cons_of_mem _ hg)
      have hsum := hnonneg hfines'
      refine ⟨_, ⟨by omega, hfine, hseens h (List.mem_cons_self ..), by omega, rfl⟩, ?_⟩
      rw [ih (by simp; omega) (by simp; omega)]
      refine ⟨by simp; omega, hfines', hnodup.2, ?_, by simp; omega, rfl⟩
      intro g hg
      rw [record_seenPaths, hclean hfine, List.mem_cons, not_or]
      exact ⟨fun heq => hnodup.1 (heq ▸ List.mem_map_of_mem hg), hseens g (List.mem_cons_of_mem _ hg)⟩

theorem foldl_last {β : Type} {entries : List Header} {P : Header → Prop} [DecidablePred P] {f : Walk → β}
    {g : Header → β} (I : Walk → Prop) {w : Walk} (hw : I w)
    (hstep : ∀ w, I w → ∀ h ∈ entries, I (record toml crateName version w h) ∧
      f (record toml crateName version w h) = if P h then g h else f w) :
    f (entries.foldl (record toml crateName version) w) = (entries.filter (P ·)).getLast?.elim (f w) g := by
  induction entries generalizing w with
  | nil => rfl
  | cons h entries ih =>
    obtain ⟨hI, hf⟩ := hstep w hw h (List.mem_cons_self ..)
    rw [List.foldl_cons, ih hI fun w hw g hg => hstep w hw g (List.mem_cons_of_mem _ hg), hf, List.filter_cons]
    by_cases hP : P h
    · rw [if_pos hP, if_pos (by simpa using hP), List.getLast?_cons]
      cases (entries.filter (P ·)).getLast? <;> rfl
    · rw [if_neg hP, if_neg (by simpa using hP)]

theorem getLast?_filter {α : Type} {P : α → Prop} [DecidablePred P] {l : List α} {a : α} (ha : a ∈ l) (hP : P a)
    (huniq : ∀ b ∈ l, P b → b = a) : (l.filter (P ·)).getLast? = some a := by
  have hmem : a ∈ l.filter (P ·) := List.mem_filter.2 ⟨ha, by simpa using hP⟩
  cases hlast : (l.filter (P ·)).getLast? with
  | none =>
    rw [List.getLast?_eq_none_iff.1 hlast] at hmem
    cases hmem
  | some b =>
    obtain ⟨hb, hPb⟩ := List.mem_filter.1 (List.mem_of_getLast? hlast)
    rw [huniq b hb (by simpa using hPb)]

theorem find?_unique {α : Type} {P : α → Prop} [DecidablePred P] {l : List α} {a : α} (ha : a ∈ l) (hP : P a)
    (huniq : ∀ b ∈ l, P b → b = a) : l.find? (P ·) = some a := by
  cases hfind : l.find? (P ·) with
  | none => exact absurd hP (by simpa using List.find?_eq_none.1 hfind a ha)
  | some b => rw [huniq b (List.mem_of_find?_eq_some hfind) (by simpa using List.find?_some hfind)]

theorem getLast?_filter_eq_find? {α : Type} {P : α → Prop} [DecidablePred P] {l : List α}
    (huniq : ∀ a ∈ l, ∀ b ∈ l, P a → P b → b = a) :
    (l.filter (P ·)).getLast? = l.find? (P ·) := by
  cases hfind : l.find? (P ·) with
  | none =>
    rw [List.getLast?_eq_none_iff, List.filter_eq_nil_iff]
    exact List.find?_eq_none.1 hfind
  | some a =>
    have ha := List.mem_of_find?_eq_some hfind
    have hP : P a := by simpa using List.find?_some hfind
    exact getLast?_filter ha hP fun b hb hPb => huniq a ha b hb hP hPb

theorem record_manifest (w : Walk) (h : Header) : (record toml crateName version w h).manifest =
    if h.isManifest crateName version then { (toml h.content).getD emptyPackage with readmeContent := "" } else
      w.manifest := by
  unfold record
  split_ifs <;> rfl

theorem record_hasManifest (w : Walk) (h : Header) : (record toml crateName version w h).hasManifest =
    if h.isManifest crateName version then true else w.hasManifest := by
  unfold record
  split_ifs <;> rfl

theorem foldl_manifest_eq {entries : List Header} {w : Walk} : (entries.foldl (record toml crateName version) w).manifest =
    (entries.filter (·.isManifest crateName version)).getLast?.elim w.manifest
      fun h => { (toml h.content).getD emptyPackage with readmeContent := "" } :=
  foldl_last (fun _ => True) trivial fun w _ h _ => ⟨trivial, record_manifest w h⟩

theorem foldl_hasManifest_eq {entries : List Header} {w : Walk} :
    (entries.foldl (record toml crateName version) w).hasManifest =
    (entries.filter (·.isManifest crateName version)).getLast?.elim w.hasManifest fun _ => true :=
  foldl_last (fun _ => True) trivial fun w _ h _ => ⟨trivial, record_hasManifest w h⟩

theorem eq_of_path {entries : List Header} (hnodup : (entries.map (·.path)).Nodup) {g h : Header} (hg : g ∈ entries)
    (hh : h ∈ entries) (hpath : g.path = h.path) : g = h :=
  List.inj_on_of_nodup_map hnodup hg hh hpath

theorem foldl_manifest {entries : List Header} {m : CargoManifestPackage}
    (h : Accepted lib toml crateName version entries m) :
    (entries.foldl (record toml crateName version) Walk.start).manifest = m ∧
      (entries.foldl (record toml crateName version) Walk.start).hasManifest = true := by
  obtain ⟨h0, h0mem, h0manifest, -, read, hread, -, -, rfl⟩ := h.manifest
  have hlast := getLast?_filter (P := fun h => h.isManifest crateName version) h0mem h0manifest
    fun g hg hgm => eq_of_path h.distinct hg h0mem (hgm.1.trans h0manifest.1.symm)
  rw [foldl_manifest_eq, foldl_hasManifest_eq, hlast]
  exact ⟨by simp [hread], rfl⟩

theorem validateArchive_ok (hroot : Plain (rootOf crateName version).toList) (stream : TarStream)
    {pkg : CargoManifestPackage} :
    validateArchive lib toml crateName version (some stream) = .ok pkg ↔
      stream.complete = true ∧ ∃ m, Accepted lib toml crateName version stream.entries m ∧
        pkg = { m with readmeContent := (stream.entries.foldl (record toml crateName version) Walk.start).readme } := by
  unfold validateArchive
  simp only [bind_ok, orError_ok, Option.some.injEq, exists_eq_left', require_ok]
  constructor
  · rintro ⟨w, hwalk, -, hcomplete, -, hhas, hpkg⟩
    rw [walk_ok hroot (by decide) (by decide)] at hwalk
    obtain ⟨hcount, hfine, hnodup, -, hunpacked, rfl⟩ := hwalk
    obtain ⟨h0, h0mem, h0manifest⟩ : ∃ h ∈ stream.entries, h.isManifest crateName version := by
      by_contra hnone
      rw [foldl_hasManifest_eq, List.filter_eq_nil_iff.2 fun h hh => by simpa using fun hm => hnone ⟨h, hh, hm⟩] at hhas
      cases hhas
    obtain ⟨m, hm⟩ := (hfine h0 h0mem).manifest h0manifest
    have haccepted : Accepted lib toml crateName version stream.entries m :=
      ⟨by simpa [Walk.start] using hcount, hfine, hnodup, by simpa [Walk.start] using hunpacked, h0, h0mem,
        h0manifest, hm⟩
    refine ⟨hcomplete, m, haccepted, ?_⟩
    rw [← (foldl_manifest haccepted).1]
    exact (Except.ok.inj hpkg).symm
  · rintro ⟨hcomplete, m, haccepted, rfl⟩
    obtain ⟨hmanifest, hhas⟩ := foldl_manifest haccepted
    refine ⟨_, (walk_ok hroot (by decide) (by decide)).2
      ⟨by simpa [Walk.start] using haccepted.count, haccepted.fine,
        haccepted.distinct, by simp [Walk.start], by simpa [Walk.start] using haccepted.unpacked, rfl⟩, (), hcomplete, (),
        hhas, ?_⟩
    rw [hmanifest]
    rfl

theorem Accepted.cleared {entries : List Header} {m : CargoManifestPackage}
    (h : Accepted lib toml crateName version entries m) :
    m = { m with readmeContent := "" } := by
  obtain ⟨-, -, -, -, read, -, -, -, rfl⟩ := h.manifest
  rfl

theorem accepted_of_valid (hroot : Plain (rootOf crateName version).toList) {stream : TarStream} {pkg : CargoManifestPackage}
    (h : validateArchive lib toml crateName version (some stream) = .ok pkg) :
    stream.complete = true ∧ Accepted lib toml crateName version stream.entries { pkg with readmeContent := "" } := by
  obtain ⟨hcomplete, m, haccepted, rfl⟩ := (validateArchive_ok hroot stream).1 h
  have hm := haccepted.cleared
  rw [hm] at haccepted
  exact ⟨hcomplete, haccepted⟩

/-- An archive is accepted, with this manifest, if and only if it is complete, no more than the limits, and each entry is a
file or a directory at a path of its own at or below the package's directory, one of them being the manifest of this crate. -/
theorem validateArchive_accepts (hroot : Plain (rootOf crateName version).toList) (stream : TarStream)
    (m : CargoManifestPackage) :
    (∃ pkg, validateArchive lib toml crateName version (some stream) = .ok pkg ∧ m = { pkg with readmeContent := "" }) ↔
      stream.complete = true ∧ Accepted lib toml crateName version stream.entries m := by
  constructor
  · rintro ⟨pkg, hvalid, rfl⟩
    exact accepted_of_valid hroot hvalid
  · rintro ⟨hcomplete, h⟩
    exact ⟨_, (validateArchive_ok hroot stream).2 ⟨hcomplete, m, h, rfl⟩, h.cleared⟩

/-- A crate whose declared README stands before its manifest. -/
def demo : TarStream where
  entries := [⟨"d-1/", .dir, 0, []⟩, ⟨"d-1/docs.md", .reg, 1, [104]⟩, ⟨"d-1/Cargo.toml", .reg, 1, [1]⟩]
  complete := true

def demoPackage : CargoManifestPackage := { emptyPackage with name := "d", version := "1", readme := .text "docs.md" }

def demoToml (content : List UInt8) : Option CargoManifestPackage := if content = [1] then some demoPackage else none

theorem validateArchive_accepts_demo : Accepted plainLib demoToml "d" "1" demo.entries demoPackage :=
  ((validateArchive_accepts (by decide) demo demoPackage).1 ⟨demoPackage, by decide, rfl⟩).2

end Run

end Renop.Cargo.Archive
