import Mathlib.Data.List.TakeWhile
import Renop.Hierarchy
import Renop.MavenNamespace
import Renop.NpmPublish
import Renop.SanitizePath

/-!
# Paths of npm tarballs

A tarball is stored at `canonicalTarballPath` of its package and version, and `ClassifyTarballPath` reads the two back from a
request path. A request path is bytes here: it may be escaped in any way, and need not be valid UTF-8.
-/

namespace Renop.NpmService

open Npm Cargo
open Index (Plain)
open Renop.Path (validString)

/-! ### Request paths -/

def utf8 (s : String) : List UInt8 := s.toList.flatMap String.utf8EncodeChar

def slash : UInt8 := 0x2f

def percent : UInt8 := 0x25

/-- `url.PathUnescape` -/
def pathUnescape : List UInt8 → Option (List UInt8)
  | [] => some []
  | [b] => if b = percent then none else some [b]
  | [b, c] => if b = percent ∨ c = percent then none else some [b, c]
  | b :: hi :: lo :: rest =>
    if b = percent then
      if Path.isHex (Char.ofUInt8 hi) && Path.isHex (Char.ofUInt8 lo) then
        (pathUnescape rest).map fun bytes => (Path.unhex (Char.ofUInt8 hi) <<< 4 ||| Path.unhex (Char.ofUInt8 lo)) :: bytes
      else none
    else (pathUnescape (hi :: lo :: rest)).map fun bytes => b :: bytes

/-- `strings.Trim` of slashes. -/
def trimSlashes (p : List UInt8) : List UInt8 := ((p.dropWhile (· = slash)).reverse.dropWhile (· = slash)).reverse

def decodeRegistryPath (value : List UInt8) : Option (List UInt8) :=
  (pathUnescape (trimSlashes value)).bind fun decoded => if 0 ∈ decoded then none else some (trimSlashes decoded)

/-- `path.Base` -/
def pathBase (p : List UInt8) : List UInt8 :=
  if p = [] then utf8 "."
  else
    let base := (((p.reverse.dropWhile (· = slash)).reverse.splitOn slash).getLast?).getD []
    if base = [] then [slash] else base

section Classify
variable (text : Text) (semver : Semver)

/-- What is not UTF-8 is no name. -/
def normalizeName (value : List UInt8) : Option String := (validString value).bind fun chars =>
    normalizePackageName text (String.ofList chars)

def packageFromTarballPath (value : List UInt8) : Option String :=
  (decodeRegistryPath value).bind fun decoded =>
    match decoded.splitOn slash with
    | [name, dash, _] => if dash = utf8 "-" then normalizeName text name else none
    | [scope, name, dash, _] =>
      if scope.head? = some 0x40 ∧ dash = utf8 "-" then normalizeName text (scope ++ slash :: name) else none
    | _ => none

/-- The version between a prefix and `.tgz`; what is not UTF-8 is none. -/
def versionBetween (start filename : List UInt8) : Option String :=
  if start.isPrefixOf filename && (utf8 ".tgz").isSuffixOf filename then
    let rest := filename.drop start.length
    let version := if (utf8 ".tgz").isSuffixOf rest then rest.take (rest.length - 4) else rest
    (validString version).bind fun chars =>
      if validNPMVersion text semver (String.ofList chars) then some (String.ofList chars) else none
  else none

def classifyTarballPath (value : List UInt8) : Option (String × String) := do
  let packageName ← packageFromTarballPath text value
  let decoded ← decodeRegistryPath value
  let version ← versionBetween text semver (utf8 (baseName packageName ++ "-")) (pathBase decoded)
  pure (packageName, version)

/-- The resource whose locks hold for a path; `fold` is `EqualFold`. -/
def npmPathResource (fold : List UInt8 → List UInt8 → Bool) (value : List UInt8) : String × String :=
  match decodeRegistryPath (value.map fun b => if b = 0x5c then slash else b) with
  | none => ("", "")
  | some decoded =>
    match packageFromTarballPath text decoded with
    | some name =>
      let filename := pathBase decoded
      let start := pathBase (utf8 name) ++ utf8 "-"
      if filename.length > start.length + 4 && fold (filename.take start.length) start &&
          fold (filename.drop (filename.length - 4)) (utf8 ".tgz") then
        let candidate := (filename.take (filename.length - 4)).drop start.length
        match validString candidate with
        | some chars => (name, if validNPMVersion text semver (String.ofList chars) then String.ofList chars else "")
        | none => (name, "")
      else (name, "")
    | none =>
      let name := if (utf8 "/-").isSuffixOf decoded then decoded.take (decoded.length - 2) else decoded
      ((normalizeName text name).getD "", "")

end Classify

/-! ### Bytes -/

theorem utf8_ofList (cs : List Char) : utf8 (String.ofList cs) = cs.flatMap String.utf8EncodeChar := by
  rw [utf8, String.toList_ofList]

theorem utf8_append (s t : String) : utf8 (s ++ t) = utf8 s ++ utf8 t := by
  rw [utf8, String.toList_append, List.flatMap_append]
  rfl

theorem validString_utf8 (s : String) : validString (utf8 s) = some s.toList := Path.validString_encode s.toList

theorem utf8_ne_nil {s : String} (h : s ≠ "") : utf8 s ≠ [] := by
  intro hnil
  have hvalid := validString_utf8 s
  have hempty : validString [] = some [] := Path.validString_encode []
  rw [hnil, hempty] at hvalid
  exact h (String.toList_eq_nil_iff.1 (Option.some.inj hvalid).symm)

theorem ascii_mem_utf8EncodeChar {b : UInt8} {c : Char} (hb : b.toNat < 128) (h : b ∈ String.utf8EncodeChar c) :
    c.toNat = b.toNat := by
  unfold String.utf8EncodeChar at h
  dsimp only at h
  change c.val.toNat = b.toNat
  split at h
  · obtain rfl := List.mem_singleton.1 h
    simp only [UInt8.toNat_ofNat']
    omega
  · have hhigh : ∀ n, 128 ≤ n → n < 256 → b = UInt8.ofNat n → c.val.toNat = b.toNat := by
      intro n hlo hhi hn
      rw [hn, UInt8.toNat_ofNat', Nat.mod_eq_of_lt hhi] at hb
      omega
    split at h
    · simp only [List.mem_cons, List.not_mem_nil, or_false] at h
      rcases h with h | h <;> refine hhigh _ ?_ ?_ h <;> omega
    · split at h <;> simp only [List.mem_cons, List.not_mem_nil, or_false] at h
      · rcases h with h | h | h <;> refine hhigh _ ?_ ?_ h <;> omega
      · rcases h with h | h | h | h <;> refine hhigh _ ?_ ?_ h <;> omega

theorem not_mem_utf8 {s : String} {c : Char} (hc : c.toNat < 128) (h : c ∉ s.toList) : UInt8.ofNat c.toNat ∉ utf8 s := by
  intro hmem
  obtain ⟨d, hd, hbyte⟩ := List.mem_flatMap.1 hmem
  have hnat : (UInt8.ofNat c.toNat).toNat = c.toNat := by
    rw [UInt8.toNat_ofNat', Nat.mod_eq_of_lt (by omega)]
  have hval := ascii_mem_utf8EncodeChar (by omega) hbyte
  rw [hnat] at hval
  have heq : d = c := Char.ext (UInt32.toNat_inj.1 hval)
  exact h (heq ▸ hd)

theorem backslash_of_pathUnescape {p decoded : List UInt8} (h : pathUnescape p = some decoded) (hp : (0x5c : UInt8) ∈ p) :
    (0x5c : UInt8) ∈ decoded := by
  have hhex : Path.isHex (Char.ofUInt8 0x5c) = false := by decide
  fun_induction pathUnescape p generalizing decoded with
  | case1 => cases hp
  | case2 => cases h
  | case3 => exact Option.some.inj h ▸ hp
  | case4 => cases h
  | case5 => exact Option.some.inj h ▸ hp
  | case6 hi lo rest hboth ih =>
    obtain ⟨bytes, hbytes, rfl⟩ := Option.map_eq_some_iff.1 h
    simp only [Bool.and_eq_true] at hboth
    simp only [List.mem_cons] at hp
    rcases hp with hp | rfl | rfl | hp
    · exact absurd hp (by decide)
    · exact absurd hboth.1 (by rw [hhex]; decide)
    · exact absurd hboth.2 (by rw [hhex]; decide)
    · exact List.mem_cons_of_mem _ (ih hbytes hp)
  | case7 => cases h
  | case8 b hi lo rest hb ih =>
    obtain ⟨bytes, hbytes, rfl⟩ := Option.map_eq_some_iff.1 h
    rcases List.mem_cons.1 hp with rfl | hp
    · exact List.mem_cons_self
    · exact List.mem_cons_of_mem _ (ih hbytes hp)

theorem mem_trimSlashes {b : UInt8} (hb : b ≠ slash) {p : List UInt8} : b ∈ trimSlashes p ↔ b ∈ p := by
  have hdrop : ∀ l : List UInt8, b ∈ l.dropWhile (· = slash) ↔ b ∈ l := by
    intro l
    refine ⟨fun h => (List.dropWhile_sublist _).subset h, fun h => ?_⟩
    rw [← List.takeWhile_append_dropWhile (p := (· = slash)) (l := l), List.mem_append] at h
    exact h.resolve_left fun hfront => hb (by simpa using List.mem_takeWhile_imp hfront)
  rw [trimSlashes, List.mem_reverse, hdrop, List.mem_reverse, hdrop]

theorem backslash_of_decodeRegistryPath {value decoded : List UInt8} (h : decodeRegistryPath value = some decoded)
    (hvalue : (0x5c : UInt8) ∈ value) : (0x5c : UInt8) ∈ decoded := by
  obtain ⟨unescaped, hunescaped, h⟩ := Option.bind_eq_some_iff.1 h
  split at h
  · cases h
  · obtain rfl := Option.some.inj h
    exact (mem_trimSlashes (by decide)).2 (backslash_of_pathUnescape hunescaped ((mem_trimSlashes (by decide)).2 hvalue))

theorem pathUnescape_plain {p : List UInt8} (h : percent ∉ p) : pathUnescape p = some p := by
  fun_induction pathUnescape p with
  | case1 => rfl
  | case2 => simp_all
  | case3 => rfl
  | case4 => simp_all [eq_comm]
  | case5 => rfl
  | case6 => simp_all
  | case7 => simp_all
  | case8 b hi lo rest hb ih =>
    rw [ih fun hmem => h (List.mem_cons_of_mem b hmem)]
    rfl

theorem trimSlashes_eq {p : List UInt8} (hhead : p.head? ≠ some slash) (hlast : p.getLast? ≠ some slash) :
    trimSlashes p = p := by
  have hdrop : ∀ l : List UInt8, l.head? ≠ some slash → l.dropWhile (· = slash) = l := by
    intro l hl
    cases l with
    | nil => rfl
    | cons b l => rw [List.dropWhile_cons_of_neg (by simpa using hl)]
  unfold trimSlashes
  rw [hdrop p hhead, hdrop p.reverse (by rwa [List.head?_reverse]), List.reverse_reverse]

theorem trimSlashes_ends (p : List UInt8) : (trimSlashes p).head? ≠ some slash ∧ (trimSlashes p).getLast? ≠
    some slash := by
  have hend : ∀ l : List UInt8, (l.dropWhile (· = slash)).head? ≠ some slash := by
    intro l
    induction l with
    | nil => simp
    | cons b l ih =>
      by_cases hb : b = slash
      · rwa [List.dropWhile_cons_of_pos (by simpa using hb)]
      · rw [List.dropWhile_cons_of_neg (by simpa using hb)]
        simpa using hb
  unfold trimSlashes
  refine ⟨?_, by rw [List.getLast?_reverse]; exact hend _⟩
  rw [List.head?_reverse]
  intro hlast
  have hne : (p.dropWhile (· = slash)).reverse.dropWhile (· = slash) ≠ [] := by
    intro hnil
    simp [hnil] at hlast
  have hsuffix := List.dropWhile_suffix (· = slash) (l := (p.dropWhile (· = slash)).reverse)
  obtain ⟨front, hfront⟩ := hsuffix
  have hhead : (p.dropWhile (· = slash)).reverse.getLast? = some slash := by
    rw [← hfront, List.getLast?_append_of_ne_nil _ hne]
    exact hlast
  rw [List.getLast?_reverse] at hhead
  exact hend p hhead

theorem decodeRegistryPath_plain {p : List UInt8} (hpercent : percent ∉ p) (hnul : 0 ∉ p) (hhead : p.head? ≠ some slash)
    (hlast : p.getLast? ≠ some slash) : decodeRegistryPath p = some p := by
  rw [decodeRegistryPath, trimSlashes_eq hhead hlast, pathUnescape_plain hpercent, Option.bind_some, if_neg hnul,
    trimSlashes_eq hhead hlast]

theorem decodeRegistryPath_ends {value p : List UInt8} (h : decodeRegistryPath value = some p) :
    p.head? ≠ some slash ∧ p.getLast? ≠ some slash := by
  obtain ⟨decoded, -, h⟩ := Option.bind_eq_some_iff.1 h
  split at h
  · cases h
  · cases h
    exact trimSlashes_ends decoded

theorem nul_of_decodeRegistryPath {value p : List UInt8} (h : decodeRegistryPath value = some p) : 0 ∉ p := by
  obtain ⟨decoded, -, h⟩ := Option.bind_eq_some_iff.1 h
  split at h
  · cases h
  · next hnul =>
    cases h
    exact fun hmem => hnul ((mem_trimSlashes (by decide)).1 hmem)

theorem intercalate_getLast? (front : List (List UInt8)) {base : List UInt8} (hbase : base ≠ []) :
    (List.intercalate [slash] (front ++ [base])).getLast? = base.getLast? := by
  induction front with
  | nil => simp
  | cons part front ih =>
    have hcons : List.intercalate [slash] (part :: (front ++ [base])) = part ++ slash :: List.intercalate [slash]
        (front ++ [base]) := by
      cases front <;> simp [List.intercalate]
    rw [List.cons_append, hcons, List.getLast?_append, List.getLast?_cons, ih]
    cases hlast : base.getLast? with
    | none => exact absurd (List.getLast?_eq_none_iff.1 hlast) hbase
    | some b => rfl

theorem pathBase_eq {front : List (List UInt8)} {base : List UInt8} (hslash : ∀ part ∈ front ++ [base], slash ∉ part)
    (hbase : base ≠ []) : pathBase (List.intercalate [slash] (front ++ [base])) = base := by
  have hlast : (List.intercalate [slash] (front ++ [base])).getLast? ≠ some slash := by
    rw [intercalate_getLast? front hbase]
    exact fun hend => hslash base (by simp) (List.mem_of_getLast? hend)
  have hsplit := List.splitOn_intercalate slash hslash (by simp)
  have hne : List.intercalate [slash] (front ++ [base]) ≠ [] := by
    intro hnil
    rw [hnil] at hsplit
    have hmem : base ∈ ([] : List UInt8).splitOn slash := by
      rw [hsplit]
      simp
    exact hbase (by simpa using hmem)
  have hdrop : (List.intercalate [slash] (front ++ [base])).reverse.dropWhile (· = slash) =
      (List.intercalate [slash] (front ++ [base])).reverse := by
    cases hrev : (List.intercalate [slash] (front ++ [base])).reverse with
    | nil => rfl
    | cons b l =>
      rw [← List.head?_reverse, hrev] at hlast
      rw [List.dropWhile_cons_of_neg (by simpa using hlast)]
  rw [pathBase, if_neg hne, hdrop, List.reverse_reverse, hsplit, List.getLast?_append]
  simp [hbase]

theorem utf8_intercalate (parts : List (List Char)) :
    utf8 (String.ofList (List.intercalate ['/'] parts)) = List.intercalate [slash] (parts.map fun part =>
      utf8 (String.ofList part)) := by
  simp only [utf8_ofList]
  induction parts with
  | nil => rfl
  | cons part parts ih =>
    cases parts with
    | nil => simp
    | cons part' parts =>
      have hslash : String.utf8EncodeChar '/' = [slash] := by decide
      simp only [List.intercalate, List.map_cons, List.intersperse_cons_cons, List.flatten_cons,
        List.flatMap_append] at ih ⊢
      rw [ih]
      simp [hslash]

theorem utf8_parts {parts : List (List Char)} (h : ∀ part ∈ parts, '/' ∉ part) :
    ∀ part ∈ parts.map fun part => utf8 (String.ofList part), slash ∉ part := by
  intro part hpart
  obtain ⟨cs, hcs, rfl⟩ := List.mem_map.1 hpart
  exact not_mem_utf8 (c := '/') (by decide) (by rw [String.toList_ofList]; exact h cs hcs)

theorem validString_eq {bytes : List UInt8} {cs : List Char} (h : validString bytes = some cs) :
    bytes = utf8 (String.ofList cs) := by
  obtain ⟨s, hs, rfl⟩ := Option.map_eq_some_iff.1 h
  unfold String.fromUTF8? at hs
  split at hs
  · next hvalid =>
    have hbytes : s.toByteArray = bytes.toByteArray := by
      rw [← Option.some.inj hs]
      rfl
    have hencode : (s.toList.flatMap String.utf8EncodeChar).toByteArray = bytes.toByteArray := by
      rw [← hbytes, ← String.ofList_toList (s := s), String.toByteArray_ofList, String.toList_ofList]
      rfl
    rw [utf8_ofList]
    have hlist := congrArg (fun b : ByteArray => b.data.toList) hencode
    simpa using hlist.symm
  · cases hs

/-! ### Names -/

/-- A package name is a valid segment, below a scope or alone. -/
structure Parts (p : String) (scope : List (List Char)) (name : List Char) : Prop where
  join : p.toList = List.intercalate ['/'] (scope ++ [name])
  scope : scope = [] ∨ ∃ s, scope = ['@' :: s] ∧ validNPMSegment s = true
  name : validNPMSegment name = true

variable {text : Text} {semver : Semver} {p v a : String}

theorem validNPMSegment_chars {seg : List Char} (h : validNPMSegment seg = true) {c : Char} (hc : c ∈ seg) :
    nameChar c = true := by
  cases seg with
  | nil => cases hc
  | cons d seg =>
    obtain ⟨hd, hall⟩ := Bool.and_eq_true_iff.1 h
    rcases List.mem_cons.1 hc with rfl | hc
    · rw [nameChar, hd, Bool.true_or]
    · exact List.all_eq_true.1 hall c hc

theorem normalizePackageName_ok (h : normalizePackageName text a = some p) :
    text.toLower (text.trimSpace a) = p ∧ ∃ scope name, Parts p scope name := by
  simp only [normalizePackageName] at h
  split at h
  · cases h
  · split at h
    · next hat =>
      split at h
      · next scope name hsplit =>
        split at h
        · next hvalid =>
          simp only [Option.some.injEq] at h
          simp only [Bool.and_eq_true, decide_eq_true_eq] at hvalid
          rw [h] at hat hsplit
          have hjoin : p.toList = List.intercalate ['/'] [scope, name] := by
            rw [← hsplit, List.intercalate_splitOn]
          obtain ⟨s, rfl⟩ : ∃ s, scope = '@' :: s := by
            cases scope with
            | nil => simp at hvalid
            | cons c s =>
              rw [hjoin] at hat
              have hc : c = '@' := by simpa [List.intercalate] using hat
              exact ⟨s, by rw [hc]⟩
          exact ⟨h, ['@' :: s], name, hjoin, .inr ⟨s, rfl, hvalid.1.2⟩, hvalid.2⟩
        · cases h
      · cases h
    · split at h
      · cases h
      · next hvalid =>
        simp only [Option.some.injEq] at h
        simp only [Bool.or_eq_true, Bool.not_eq_true', not_or, Bool.not_eq_false, decide_eq_true_eq] at hvalid
        rw [h] at hvalid
        exact ⟨h, [], p.toList, by simp, .inl rfl, hvalid.2⟩

theorem Parts.char {scope : List (List Char)} {name : List Char} (h : Parts p scope name) {c : Char} :
    (∀ part ∈ scope ++ [name], c ∈ part → nameChar c = true ∨ c = '@') := by
  intro part hpart hc
  rcases List.mem_append.1 hpart with hpart | hpart
  · rcases h.scope with rfl | ⟨s, rfl, hs⟩
    · cases hpart
    · obtain rfl := List.mem_singleton.1 hpart
      rcases List.mem_cons.1 hc with rfl | hc
      · exact .inr rfl
      · exact .inl (validNPMSegment_chars hs hc)
  · obtain rfl := List.mem_singleton.1 hpart
    exact .inl (validNPMSegment_chars h.name hc)

theorem Parts.noSlash {scope : List (List Char)} {name : List Char} (h : Parts p scope name) :
    ∀ part ∈ scope ++ [name], '/' ∉ part :=
  fun part hpart hc => absurd (h.char part hpart hc) (by decide)

theorem Parts.baseName {scope : List (List Char)} {name : List Char} (h : Parts p scope name) :
    baseName p = String.ofList name := by
  rw [NpmService.baseName, h.join, List.splitOn_intercalate '/' h.noSlash (by simp), List.getLast?_append]
  rfl

/-- What of a tarball's path follows the package. -/
def tarballFile (p v : String) : String := baseName p ++ "-" ++ v ++ ".tgz"

/-- The parts of the path of a tarball. -/
def tarballParts (front : List (List Char)) (p v : String) : List (List Char) := front ++ [['-'], (tarballFile p v).toList]

theorem intercalate_tarballParts {front : List (List Char)} (hne : front ≠ []) (p v : String) :
    String.ofList (List.intercalate ['/'] (tarballParts front p v)) =
      String.ofList (List.intercalate ['/'] front) ++ "/-/" ++ tarballFile p v := by
  refine String.toList_inj.1 ?_
  rw [tarballParts, Path.intercalate_append hne (by simp)]
  simp [List.intercalate]

/-- A version as the path of a tarball has it: neither separator nor escape. -/
def Unmarked (v : String) : Prop := '/' ∉ v.toList ∧ '%' ∉ v.toList ∧ '\x00' ∉ v.toList ∧ '\\' ∉ v.toList

theorem mem_trimSpace {s : String} {c : Char} (hc : c ∈ s.toList) :
    Maven.isSpace c = true ∨ c ∈ (Maven.trimSpace s).toList := by
  have hdrop : ∀ l : List Char, c ∈ l → Maven.isSpace c = true ∨ c ∈ l.dropWhile Maven.isSpace := by
    intro l hl
    rw [← List.takeWhile_append_dropWhile (p := Maven.isSpace) (l := l)] at hl
    exact (List.mem_append.1 hl).imp_left fun htake => List.mem_takeWhile_imp htake
  rw [Maven.trimSpace, String.toList_ofList, List.mem_reverse]
  rcases hdrop _ hc with hspace | hmem
  · exact .inl hspace
  · exact hdrop _ (List.mem_reverse.2 hmem)

/-- The characters of a semantic version. -/
def versionChar (c : Char) : Bool := c.isAlphanum || c ∈ ['.', '+', '-']

theorem validNPMVersion_unmarked (htrim : text.trimSpace = Maven.trimSpace)
    (hsemver : ∀ v, semver.isValid ("v" ++ v) = true → v.toList.all versionChar = true)
    (h : validNPMVersion text semver v = true) :
    Unmarked v := by
  simp only [validNPMVersion, Bool.and_eq_true, htrim] at h
  have hchars := List.all_eq_true.1 (hsemver _ h.2)
  have hmark : ∀ c, Maven.isSpace c = false → versionChar c = false → c ∉ v.toList := by
    intro c hspace hchar hc
    rcases mem_trimSpace hc with hc | hc
    · exact absurd hc (by simp [hspace])
    · exact absurd (hchars c hc) (by simp [hchar])
  exact ⟨hmark _ (by decide) (by decide), hmark _ (by decide) (by decide), hmark _ (by decide) (by decide),
    hmark _ (by decide) (by decide)⟩

theorem mem_tarballFile {scope : List (List Char)} {name : List Char} (hp : Parts p scope name) {c : Char}
    (hc : c ∈ (tarballFile p v).toList) : nameChar c = true ∨ c ∈ v.toList := by
  rw [tarballFile, hp.baseName] at hc
  simp only [String.toList_append, String.toList_ofList, List.mem_append] at hc
  rcases hc with ((hc | hc) | hc) | hc
  · exact .inl (validNPMSegment_chars hp.name hc)
  · obtain rfl : c = '-' := by simpa using hc
    exact .inl (by decide)
  · exact .inr hc
  · have htgz : ".tgz".toList.all nameChar = true := by decide
    exact .inl (List.all_eq_true.1 htgz c hc)

theorem Parts.plain {scope : List (List Char)} {name : List Char} (h : Parts p scope name) :
    ∀ part ∈ scope ++ [name], Plain part := by
  intro part hpart
  refine ⟨?_, h.noSlash part hpart⟩
  rcases List.mem_append.1 hpart with hpart | hpart
  · rcases h.scope with rfl | ⟨s, rfl, -⟩
    · cases hpart
    · obtain rfl := List.mem_singleton.1 hpart
      simp
  · obtain rfl := List.mem_singleton.1 hpart
    have hname := h.name
    cases part with
    | nil => cases hname
    | cons c part =>
      have hc : c ≠ '.' := by
        rintro rfl
        exact absurd hname (by simp [validNPMSegment])
      simp [hc]

theorem canonicalTarballPath_parts {scope : List (List Char)} {name : List Char} (hp : Parts p scope name) (hv : Unmarked v) :
    canonicalTarballPath p v = String.ofList (List.intercalate ['/'] (tarballParts (scope ++ [name]) p v)) := by
  have hplain : ∀ part ∈ tarballParts (scope ++ [name]) p v, Plain part := by
    intro part hpart
    rcases List.mem_append.1 hpart with hpart | hpart
    · exact hp.plain part hpart
    · simp only [List.mem_cons, List.not_mem_nil, or_false] at hpart
      rcases hpart with rfl | rfl
      · decide
      · refine ⟨?_, fun hc => ?_⟩
        · rw [tarballFile]
          have hlen : 4 ≤ (baseName p ++ "-" ++ v ++ ".tgz").toList.length := by
            simp only [String.toList_append, List.length_append]
            have : ".tgz".toList.length = 4 := by decide
            omega
          intro hmem
          simp only [List.mem_cons, List.not_mem_nil, or_false] at hmem
          rcases hmem with hmem | hmem | hmem <;> rw [hmem] at hlen <;> simp at hlen
        · rcases mem_tarballFile hp hc with hc | hc
          · exact absurd hc (by decide)
          · exact hv.1 hc
  have hjoin : p ++ "/-/" ++ baseName p ++ "-" ++ v ++ ".tgz" =
      String.ofList (List.intercalate ['/'] (tarballParts (scope ++ [name]) p v)) := by
    rw [intercalate_tarballParts (by simp), ← hp.join, String.ofList_toList, tarballFile]
    simp only [String.append_assoc]
  have hsegs : Index.Segments (tarballParts (scope ++ [name]) p v) := fun part hpart => (hplain part hpart).segment
  have hne : tarballParts (scope ++ [name]) p v ≠ [] := by simp [tarballParts]
  have hroot : (List.intercalate ['/'] (tarballParts (scope ++ [name]) p v)).head? ≠ some '/' :=
    Path.intercalate_head?_ne_slash hsegs
  rw [canonicalTarballPath, hjoin, Path.pathClean_eq, String.toList_ofList]
  have hfalse : ((List.intercalate ['/'] (tarballParts (scope ++ [name]) p v)).head? == some '/') =
    false := by simpa using hroot
  rw [hfalse, Index.cleanSegments_plain hplain hne, List.append_nil, Index.render, List.reverse_reverse]
  simp [Index.intercalate_ne_nil hsegs hne]

/-! ### Reading a path back -/

theorem splitOn_utf8 {parts : List (List Char)} (h : ∀ part ∈ parts, '/' ∉ part) (hne : parts ≠ []) :
    (utf8 (String.ofList (List.intercalate ['/'] parts))).splitOn slash = parts.map fun part =>
      utf8 (String.ofList part) := by
  rw [utf8_intercalate, List.splitOn_intercalate slash (utf8_parts h) (by simpa using hne)]

theorem utf8_head? {s : String} {c : Char} (hc : c.toNat < 128) (h : s.toList.head? ≠ some c) :
    (utf8 s).head? ≠ some (UInt8.ofNat c.toNat) := by
  intro hhead
  unfold utf8 at hhead
  cases hs : s.toList with
  | nil => simp [hs] at hhead
  | cons d cs =>
    rw [hs] at h hhead
    have hmem : UInt8.ofNat c.toNat ∈ String.utf8EncodeChar d := by
      rw [List.flatMap_cons] at hhead
      have hne : String.utf8EncodeChar d ≠ [] := String.utf8EncodeChar_ne_nil
      rw [List.head?_append_of_ne_nil _ hne] at hhead
      exact List.mem_of_mem_head? hhead
    have hnat : (UInt8.ofNat c.toNat).toNat = c.toNat := by
      rw [UInt8.toNat_ofNat', Nat.mod_eq_of_lt (by omega)]
    have hval := ascii_mem_utf8EncodeChar (by omega) hmem
    rw [hnat] at hval
    have heq : d = c := Char.ext (UInt32.toNat_inj.1 hval)
    exact h (by rw [heq]; rfl)

theorem packageFromTarballPath_parts {value : List UInt8} {scope : List (List Char)} {name file : List Char}
    (hscope : scope = [] ∨ ∃ s, scope = ['@' :: s]) (hslash : ∀ part ∈ scope ++ [name] ++ [['-'], file], '/' ∉ part)
    (hdecode : decodeRegistryPath value =
      some (utf8 (String.ofList (List.intercalate ['/'] (scope ++ [name] ++ [['-'], file]))))) :
    packageFromTarballPath text value = normalizePackageName text
      (String.ofList (List.intercalate ['/'] (scope ++ [name]))) := by
  have hname : ∀ parts : List (List Char), normalizeName text (utf8 (String.ofList (List.intercalate ['/'] parts))) =
      normalizePackageName text (String.ofList (List.intercalate ['/'] parts)) := by
    intro parts
    rw [normalizeName, validString_utf8, Option.bind_some, String.ofList_toList]
  rw [packageFromTarballPath, hdecode, Option.bind_some, splitOn_utf8 hslash (by simp)]
  rcases hscope with rfl | ⟨s, rfl⟩
  · rw [← hname]
    simp [utf8]
  · have hjoin : utf8 (String.ofList ('@' :: s)) ++ slash :: utf8 (String.ofList name) =
        utf8 (String.ofList (List.intercalate ['/'] ['@' :: s, name])) := by
      rw [utf8_intercalate]
      simp [List.intercalate]
    have hat : (utf8 (String.ofList ('@' :: s))).head? = some 0x40 := by
      have hchar : String.utf8EncodeChar '@' = [0x40] := by decide
      rw [utf8_ofList, List.flatMap_cons, hchar]
      rfl
    have hdash : utf8 (String.ofList ['-']) = utf8 "-" := by rw [utf8_ofList]
    simp only [List.cons_append, List.nil_append, List.map_cons, List.map_nil, hat, hdash, true_and, if_true,
      hjoin, hname]

theorem versionBetween_eq (start : List UInt8) (hv : validNPMVersion text semver v = true) :
    versionBetween text semver start (start ++ utf8 v ++ utf8 ".tgz") = some v := by
  have hlen : (utf8 ".tgz").length = 4 := by decide
  have hprefix : start.isPrefixOf (start ++ utf8 v ++ utf8 ".tgz") = true := by
    rw [List.isPrefixOf_iff_prefix, List.append_assoc]
    exact List.prefix_append _ _
  have hsuffix : ∀ l, (utf8 ".tgz").isSuffixOf (l ++ utf8 ".tgz") = true := by
    intro l
    rw [List.isSuffixOf_iff_suffix]
    exact List.suffix_append _ _
  have hdrop : (start ++ utf8 v ++ utf8 ".tgz").drop start.length = utf8 v ++ utf8 ".tgz" := by
    rw [List.append_assoc, List.drop_left]
  have htake : (utf8 v ++ utf8 ".tgz").take ((utf8 v ++ utf8 ".tgz").length - 4) = utf8 v := by
    rw [List.length_append, hlen, Nat.add_sub_cancel, List.take_left]
  simp only [versionBetween, hprefix, hsuffix, hdrop, htake, Bool.and_self, if_true, validString_utf8, Option.bind_some,
    String.ofList_toList, hv]

/-- What `ClassifyTarballPath` reads stands between the prefix and the suffix; the two do not overlap. -/
theorem versionBetween_ok {front filename : List UInt8}
    (h : versionBetween text semver (front ++ utf8 "-") filename = some v) :
    filename = front ++ utf8 "-" ++ utf8 v ++ utf8 ".tgz" ∧ validNPMVersion text semver v = true := by
  have htgz : utf8 ".tgz" = [0x2e, 0x74, 0x67, 0x7a] := by decide
  have hdash : utf8 "-" = [0x2d] := by decide
  simp only [versionBetween] at h
  split at h
  · next hfile =>
    simp only [Bool.and_eq_true, List.isPrefixOf_iff_prefix, List.isSuffixOf_iff_suffix] at hfile
    obtain ⟨⟨rest, rfl⟩, hsuffix⟩ := hfile
    rw [List.drop_left] at h
    have hrest : utf8 ".tgz" <:+ rest := by
      rcases List.suffix_or_suffix_of_suffix hsuffix (List.suffix_append _ rest) with hshort | ⟨extra, hextra⟩
      · exact hshort
      · -- The dash would be a character of the suffix.
        rw [← hextra] at hsuffix ⊢
        have hend := List.suffix_append_self_iff.1 hsuffix
        rcases List.eq_nil_or_concat extra with rfl | ⟨init, b, rfl⟩
        · exact List.suffix_refl _
        · rw [hdash, List.concat_eq_append] at hend
          have hb : b = 0x2d := (List.singleton_suffix_append_singleton_iff.1 ((List.suffix_append init [b]).trans hend))
          have hmem : b ∈ utf8 ".tgz" := by
            rw [← hextra]
            simp
          rw [hb, htgz] at hmem
          exact absurd hmem (by decide)
    obtain ⟨chars, hchars, h⟩ := Option.bind_eq_some_iff.1 h
    split at h
    · next hvalid =>
      cases h
      obtain ⟨front', rfl⟩ := hrest
      rw [if_pos (by rw [List.isSuffixOf_iff_suffix]; exact List.suffix_append _ _)] at hchars
      have htake : (front' ++ utf8 ".tgz").take ((front' ++ utf8 ".tgz").length - 4) = front' := by
        rw [List.length_append, htgz]
        exact List.take_left
      rw [htake] at hchars
      rw [← validString_eq hchars]
      exact ⟨by simp, hvalid⟩
    · cases h
  · cases h

/-! ### Canonical paths -/

section Canonical
variable {scope : List (List Char)} {name : List Char}

theorem tarballParts_noSlash (hp : Parts p scope name) (hv : Unmarked v) :
    ∀ part ∈ tarballParts (scope ++ [name]) p v, '/' ∉ part := by
  intro part hpart
  rcases List.mem_append.1 hpart with hpart | hpart
  · exact hp.noSlash part hpart
  · simp only [List.mem_cons, List.not_mem_nil, or_false] at hpart
    rcases hpart with rfl | rfl
    · decide
    · intro hc
      rcases mem_tarballFile hp hc with hc | hc
      · exact absurd hc (by decide)
      · exact hv.1 hc

theorem mem_canonicalTarballPath (hp : Parts p scope name) (hv : Unmarked v) {c : Char}
    (hc : c ∈ (canonicalTarballPath p v).toList) :
    nameChar c = true ∨ c = '@' ∨ c = '/' ∨ c ∈ v.toList := by
  rw [canonicalTarballPath_parts hp hv, String.toList_ofList] at hc
  rcases Maven.mem_of_mem_intercalate hc with hc | ⟨part, hpart, hc⟩
  · exact .inr (.inr (.inl (List.mem_singleton.1 hc)))
  · rcases List.mem_append.1 hpart with hpart | hpart
    · exact (hp.char part hpart hc).imp_right .inl
    · simp only [List.mem_cons, List.not_mem_nil, or_false] at hpart
      rcases hpart with rfl | rfl
      · obtain rfl := List.mem_singleton.1 hc
        exact .inl (by decide)
      · exact (mem_tarballFile hp hc).imp_right fun hv => .inr (.inr hv)

theorem canonical_unmarked (hp : Parts p scope name) (hv : Unmarked v) {c : Char} (hc : c = '\\' ∨ c = '%') :
    c ∉ (canonicalTarballPath p v).toList := by
  have hmark : ¬nameChar c = true ∧ c ≠ '@' ∧ c ≠ '/' := by rcases hc with rfl | rfl <;> decide
  intro hmem
  rcases mem_canonicalTarballPath hp hv hmem with hname | hat | hslash | hmem
  · exact hmark.1 hname
  · exact hmark.2.1 hat
  · exact hmark.2.2 hslash
  · rcases hc with rfl | rfl
    · exact hv.2.2.2 hmem
    · exact hv.2.1 hmem

theorem canonical_getLast? (hp : Parts p scope name) (hv : Unmarked v) :
    (utf8 (canonicalTarballPath p v)).getLast? ≠ some slash := by
  have hlast : utf8 ".tgz" = [0x2e, 0x74, 0x67] ++ [0x7a] := by decide
  rw [canonicalTarballPath_parts hp hv, intercalate_tarballParts (by simp), tarballFile, utf8_append, utf8_append,
    utf8_append, hlast, ← List.append_assoc, ← List.append_assoc, List.getLast?_concat]
  decide

theorem decodeRegistryPath_canonical (hp : Parts p scope name) (hv : Unmarked v) :
    decodeRegistryPath (utf8 (canonicalTarballPath p v)) = some (utf8 (canonicalTarballPath p v)) := by
  refine decodeRegistryPath_plain (not_mem_utf8 (c := '%') (by decide) (canonical_unmarked hp hv (.inr rfl)))
    (not_mem_utf8 (c := '\x00') (by decide) fun hc => ?_) (utf8_head? (c := '/') (by decide) ?_) (canonical_getLast? hp hv)
  · rcases mem_canonicalTarballPath hp hv hc with hc | hc | hc | hc
    · exact absurd hc (by decide)
    · exact absurd hc (by decide)
    · exact absurd hc (by decide)
    · exact hv.2.2.1 hc
  · rw [canonicalTarballPath_parts hp hv, intercalate_tarballParts (by simp), ← hp.join, String.ofList_toList,
      String.append_assoc, String.toList_append]
    have hsegs : Index.Segments (scope ++ [name]) := fun part hpart => (hp.plain part hpart).segment
    rw [List.head?_append_of_ne_nil _ (by rw [hp.join]; exact Index.intercalate_ne_nil hsegs (by simp)), hp.join]
    exact Path.intercalate_head?_ne_slash hsegs

theorem Parts.scoped (hp : Parts p scope name) : scope = [] ∨ ∃ s, scope = ['@' :: s] :=
  hp.scope.imp_right fun ⟨s, hs, _⟩ => ⟨s, hs⟩

theorem packageFromTarballPath_canonical (hp : Parts p scope name) (hnorm : normalizePackageName text p = some p)
    (hv : Unmarked v) {value : List UInt8} (hdecode : decodeRegistryPath value = some (utf8 (canonicalTarballPath p v))) :
    packageFromTarballPath text value = some p := by
  rw [canonicalTarballPath_parts hp hv] at hdecode
  rw [packageFromTarballPath_parts hp.scoped (tarballParts_noSlash hp hv) hdecode, ← hp.join, String.ofList_toList, hnorm]

theorem pathBase_canonical (hp : Parts p scope name) (hv : Unmarked v) :
    pathBase (utf8 (canonicalTarballPath p v)) = utf8 (tarballFile p v) := by
  have hparts : (tarballParts (scope ++ [name]) p v).map (fun part => utf8 (String.ofList part)) =
      ((scope ++ [name] ++ [['-']]).map fun part => utf8 (String.ofList part)) ++ [utf8 (tarballFile p v)] := by
    simp [tarballParts, String.ofList_toList]
  have hpath : utf8 (canonicalTarballPath p v) =
      List.intercalate [slash] (((scope ++ [name] ++ [['-']]).map fun part => utf8 (String.ofList part)) ++
          [utf8 (tarballFile p v)]) := by
    rw [canonicalTarballPath_parts hp hv, utf8_intercalate, hparts]
  rw [hpath]
  refine pathBase_eq (fun part hpart => ?_) ?_
  · rw [← hparts] at hpart
    exact utf8_parts (tarballParts_noSlash hp hv) part hpart
  · have htgz : utf8 ".tgz" ≠ [] := by decide
    rw [tarballFile, utf8_append]
    simp [htgz]

theorem pathBase_package (hp : Parts p scope name) : pathBase (utf8 p) = utf8 (baseName p) := by
  have hpath : utf8 p = List.intercalate [slash] ((scope.map fun part => utf8 (String.ofList part)) ++
      [utf8 (String.ofList name)]) := by
    have hmap : (scope.map fun part => utf8 (String.ofList part)) ++ [utf8 (String.ofList name)] =
        (scope ++ [name]).map fun part => utf8 (String.ofList part) := by simp
    rw [hmap, ← utf8_intercalate, ← hp.join, String.ofList_toList]
  have hnonempty : utf8 (String.ofList name) ≠ [] := by
    refine utf8_ne_nil fun hnil => ?_
    have hname := hp.name
    rw [← String.toList_ofList (l := name), hnil] at hname
    exact absurd hname (by decide)
  rw [hp.baseName, hpath]
  refine pathBase_eq (fun part hpart => ?_) hnonempty
  have hmem : part ∈ (scope ++ [name]).map fun part => utf8 (String.ofList part) := by simpa using hpart
  exact utf8_parts hp.noSlash part hmem

/-- What stands before the file is the package, however it is spelled. -/
theorem packageFromTarballPath_ok {value : List UInt8} (h : packageFromTarballPath text value = some p) :
    ∃ a front file, normalizePackageName text a = some p ∧ decodeRegistryPath value = some (utf8 (a ++ "/-/") ++ file) ∧
      utf8 (a ++ "/-/") ++ file = List.intercalate [slash] (front ++ [file]) ∧ ∀ part ∈ front ++ [file], slash ∉ part := by
  obtain ⟨decoded, hdecode, h⟩ := Option.bind_eq_some_iff.1 h
  have hjoin : decoded = List.intercalate [slash] (decoded.splitOn slash) := (List.intercalate_splitOn slash).symm
  have hdash : utf8 "/-/" = slash :: utf8 "-" ++ [slash] := by decide
  suffices hparts : ∃ bytes front file, normalizeName text bytes = some p ∧ decoded.splitOn slash = front ++ [file] ∧
      decoded = bytes ++ utf8 "/-/" ++ file by
    obtain ⟨bytes, front, file, hname, hsplit, hdecoded⟩ := hparts
    obtain ⟨chars, hchars, hnorm⟩ := Option.bind_eq_some_iff.1 hname
    rw [validString_eq hchars, ← utf8_append] at hdecoded
    exact ⟨String.ofList chars, front, file, hnorm, hdecoded ▸ hdecode, by rw [← hsplit, ← hdecoded, ← hjoin],
      hsplit ▸ Index.not_mem_splitOn decoded⟩
  split at h
  · next name dash file hsplit =>
    split at h
    · next hname =>
      refine ⟨name, [name, dash], file, h, hsplit, ?_⟩
      rw [hjoin, hsplit, hname, hdash]
      simp [List.intercalate]
    · cases h
  · next scope name dash file hsplit =>
    split at h
    · next hname =>
      refine ⟨scope ++ slash :: name, [scope, name, dash], file, h, hsplit, ?_⟩
      rw [hjoin, hsplit, hname.2, hdash]
      simp [List.intercalate]
    · cases h
  · cases h

theorem tarballFile_utf8 (p v : String) : utf8 (tarballFile p v) = utf8 (baseName p ++ "-") ++ utf8 v ++ utf8 ".tgz" := by
  rw [tarballFile, utf8_append, utf8_append]

theorem classifyTarballPath_of (hp : Parts p scope name) (hnorm : normalizePackageName text p = some p) (hv : Unmarked v)
    (hvalid : validNPMVersion text semver v = true) {value : List UInt8}
    (hdecode : decodeRegistryPath value = some (utf8 (canonicalTarballPath p v))) :
      classifyTarballPath text semver value = some (p, v) := by
  have hversion : versionBetween text semver (utf8 (baseName p ++ "-")) (pathBase (utf8 (canonicalTarballPath p v))) =
      some v := by
    rw [pathBase_canonical hp hv, tarballFile_utf8]
    exact versionBetween_eq _ hvalid
  simp only [classifyTarballPath, packageFromTarballPath_canonical hp hnorm hv hdecode, hdecode, hversion, Option.pure_def,
    Option.bind_eq_bind, Option.bind_some]

/-- The locks that are read for a path that is read back are those of its package and version. -/
theorem npmPathResource_of {fold : List UInt8 → List UInt8 → Bool} (hfold : ∀ b, fold b b = true)
    (htrim : text.trimSpace = Maven.trimSpace) {value : List UInt8}
    (h : classifyTarballPath text semver value = some (p, v)) {path : String}
    (hdecode : decodeRegistryPath value = some (utf8 path)) (hpath : ∀ c, c = '\\' ∨ c = '%' → c ∉ path.toList) :
    npmPathResource text semver fold value = (p, v) := by
  have hbackslash : (0x5c : UInt8) ∉ utf8 path := not_mem_utf8 (c := '\\') (by decide) (hpath _ (.inl rfl))
  have hpercent : percent ∉ utf8 path := not_mem_utf8 (c := '%') (by decide) (hpath _ (.inr rfl))
  set decoded := utf8 path
  simp only [classifyTarballPath, hdecode, Option.pure_def, Option.bind_eq_bind, Option.bind_eq_some_iff,
    Option.some.injEq, Prod.mk.injEq] at h
  obtain ⟨p, hpackage, _, rfl, v, hversion, rfl, rfl⟩ := h
  have hmap : value.map (fun b => if b = 0x5c then slash else b) = value := by
    refine (List.map_congr_left fun b hb => if_neg fun h : b = 0x5c => ?_).trans (List.map_id _)
    exact hbackslash (backslash_of_decodeRegistryPath hdecode (h ▸ hb))
  have hstored : decodeRegistryPath decoded = some decoded :=
    decodeRegistryPath_plain hpercent (nul_of_decodeRegistryPath hdecode) (decodeRegistryPath_ends hdecode).1
      (decodeRegistryPath_ends hdecode).2
  have hagain : packageFromTarballPath text decoded = some p := by
    rw [← hpackage, packageFromTarballPath, packageFromTarballPath, hstored, hdecode]
  obtain ⟨a, _, _, hnorm, -⟩ := packageFromTarballPath_ok hpackage
  obtain ⟨-, scope, name, hp⟩ := normalizePackageName_ok hnorm
  rw [utf8_append] at hversion
  obtain ⟨hfile, hvalid⟩ := versionBetween_ok hversion
  rw [← utf8_append] at hfile
  have hlen : (utf8 ".tgz").length = 4 := by decide
  have hstart : pathBase (utf8 p) ++ utf8 "-" = utf8 (baseName p ++ "-") := by rw [pathBase_package hp, utf8_append]
  have hpos : 0 < (utf8 v).length := by
    refine List.length_pos_iff.2 (utf8_ne_nil ?_)
    rintro rfl
    have htrimmed : Maven.trimSpace "" = "" := by decide
    simp [validNPMVersion, htrim, htrimmed] at hvalid
  have hlong : (pathBase decoded).length > (utf8 (baseName p ++ "-")).length + 4 := by
    rw [hfile, List.length_append, List.length_append, hlen]
    omega
  have htake : (pathBase decoded).take (utf8 (baseName p ++ "-")).length = utf8 (baseName p ++ "-") := by
    rw [hfile, List.append_assoc, List.take_left]
  have hcut : (pathBase decoded).length - 4 = (utf8 (baseName p ++ "-") ++ utf8 v).length := by
    rw [hfile, List.length_append, hlen, Nat.add_sub_cancel]
  have hdrop : (pathBase decoded).drop ((pathBase decoded).length - 4) = utf8 ".tgz" := by
    rw [hcut, hfile, List.drop_left]
  have hcandidate : ((pathBase decoded).take ((pathBase decoded).length - 4)).drop
      (utf8 (baseName p ++ "-")).length = utf8 v := by
    rw [hcut, hfile, List.take_left, List.drop_left]
  simp only [npmPathResource, hmap, hdecode, hagain, hstart, hlong, htake, hdrop, hfold, hcandidate, validString_utf8,
    String.ofList_toList, hvalid, decide_true, Bool.and_self, if_true]

end Canonical

/-- A path that is read back is that of the tarball, but for the spelling of the package. -/
theorem classifyTarballPath_ok (htrim : text.trimSpace = Maven.trimSpace)
    (hsemver : ∀ v, semver.isValid ("v" ++ v) = true → v.toList.all versionChar = true) {value : List UInt8}
    (h : classifyTarballPath text semver value = some (p, v)) :
    ∃ a, text.toLower (text.trimSpace a) = p ∧ canonicalTarballPath p v = p ++ "/-/" ++ tarballFile p v ∧
      decodeRegistryPath value = some (utf8 (a ++ "/-/" ++ tarballFile p v)) := by
  simp only [classifyTarballPath, Option.pure_def, Option.bind_eq_bind, Option.bind_eq_some_iff, Option.some.injEq,
    Prod.mk.injEq] at h
  obtain ⟨p, hpackage, decoded, hdecode, v, hversion, rfl, rfl⟩ := h
  obtain ⟨a, front, file, hnorm, hdecode', hjoin, hslash⟩ := packageFromTarballPath_ok hpackage
  obtain rfl := Option.some.inj (hdecode.symm.trans hdecode')
  obtain ⟨hlower, scope, name, hp⟩ := normalizePackageName_ok hnorm
  rw [utf8_append (baseName p)] at hversion
  obtain ⟨hfile, hvalid⟩ := versionBetween_ok hversion
  have hne : file ≠ [] := by
    rintro rfl
    have hlast : utf8 "/-/" = [slash, 0x2d] ++ [slash] := by decide
    refine (decodeRegistryPath_ends hdecode).2 ?_
    rw [List.append_nil, utf8_append, hlast, ← List.append_assoc, List.getLast?_concat]
  rw [hjoin, pathBase_eq hslash hne] at hfile
  refine ⟨a, hlower, ?_, ?_⟩
  · rw [canonicalTarballPath_parts hp (validNPMVersion_unmarked htrim hsemver hvalid), intercalate_tarballParts (by simp),
      ← hp.join, String.ofList_toList]
  · rw [hdecode, hfile, utf8_append (a ++ "/-/"), tarballFile_utf8, utf8_append (baseName p)]

/-- `strings.ToLower` maps letters only. -/
def KeepsMarks (text : Text) : Prop :=
  ∀ s : String, ∀ c ∈ s.toList, c = '\\' ∨ c = '%' → c ∈ (text.toLower s).toList

theorem unmarked_of_classify (htrim : text.trimSpace = Maven.trimSpace)
    (hsemver : ∀ v, semver.isValid ("v" ++ v) = true → v.toList.all versionChar = true) (hkeeps : KeepsMarks text)
    {value : List UInt8} (h : classifyTarballPath text semver value = some (p, v))
    (hlower : text.toLower (text.trimSpace a) = p)
    (hpath : canonicalTarballPath p v = p ++ "/-/" ++ tarballFile p v) {c : Char} (hc : c = '\\' ∨ c = '%') :
    c ∉ (a ++ "/-/" ++ tarballFile p v).toList := by
  simp only [classifyTarballPath, Option.pure_def, Option.bind_eq_bind, Option.bind_eq_some_iff, Option.some.injEq,
    Prod.mk.injEq] at h
  obtain ⟨p, hpackage, _, -, v, hversion, rfl, rfl⟩ := h
  obtain ⟨_, _, _, hnorm, -⟩ := packageFromTarballPath_ok hpackage
  obtain ⟨-, scope, name, hp⟩ := normalizePackageName_ok hnorm
  rw [utf8_append] at hversion
  have hplain := canonical_unmarked hp (validNPMVersion_unmarked htrim hsemver (versionBetween_ok hversion).2) hc
  have hspace : Maven.isSpace c = false := by rcases hc with rfl | rfl <;> decide
  simp only [hpath, String.toList_append, List.mem_append, not_or] at hplain ⊢
  refine ⟨⟨fun ha => ?_, hplain.1.2⟩, hplain.2⟩
  -- it would be a character of the package
  have htrimmed := (mem_trimSpace ha).resolve_left (by simp [hspace])
  exact hplain.1.1 (hlower ▸ hkeeps _ c (htrim ▸ htrimmed) hc)

/-- The path of a tarball is read back, two tarballs are stored at one path only if they are one, and a path that is read back
is the tarball's up to letter case and white space of its package. The locks of the version are read for each path that is
read back. -/
theorem classifyTarballPath_canonical (htrim : text.trimSpace = Maven.trimSpace)
    (hsemver : ∀ v, semver.isValid ("v" ++ v) = true → v.toList.all versionChar = true)
    {fold : List UInt8 → List UInt8 → Bool} (hfold : ∀ b, fold b b = true) :
    (∀ p v, normalizePackageName text p = some p → validNPMVersion text semver v = true →
      classifyTarballPath text semver (utf8 (canonicalTarballPath p v)) = some (p, v) ∧
      ∀ value, decodeRegistryPath value = some (utf8 (canonicalTarballPath p v)) →
        classifyTarballPath text semver value = some (p, v) ∧ npmPathResource text semver fold value = (p, v)) ∧
    (∀ p v p' v', normalizePackageName text p = some p → validNPMVersion text semver v = true →
      normalizePackageName text p' = some p' →
      validNPMVersion text semver v' = true → canonicalTarballPath p v = canonicalTarballPath p' v' → p = p' ∧
        v = v') ∧
    (∀ value p v, classifyTarballPath text semver value = some (p, v) →
      ∃ a, text.toLower (text.trimSpace a) = p ∧ canonicalTarballPath p v = p ++ "/-/" ++ tarballFile p v ∧
        decodeRegistryPath value = some (utf8 (a ++ "/-/" ++ tarballFile p v))) ∧
    (KeepsMarks text → ∀ value p v, classifyTarballPath text semver value = some (p, v) →
      npmPathResource text semver fold value = (p, v)) := by
  have hread : ∀ {p v}, normalizePackageName text p = some p → validNPMVersion text semver v = true →
      classifyTarballPath text semver (utf8 (canonicalTarballPath p v)) = some (p, v) ∧
      ∀ value, decodeRegistryPath value = some (utf8 (canonicalTarballPath p v)) →
        classifyTarballPath text semver value = some (p, v) ∧ npmPathResource text semver fold value = (p, v) := by
    intro p v hnorm hvalid
    obtain ⟨-, scope, name, hp⟩ := normalizePackageName_ok hnorm
    have hv := validNPMVersion_unmarked htrim hsemver hvalid
    refine ⟨classifyTarballPath_of hp hnorm hv hvalid (decodeRegistryPath_canonical hp hv), fun value hdecode => ?_⟩
    have hclassified := classifyTarballPath_of hp hnorm hv hvalid hdecode
    exact ⟨hclassified, npmPathResource_of hfold htrim hclassified hdecode fun _ hc => canonical_unmarked hp hv hc⟩
  refine ⟨fun p v hnorm hvalid => hread hnorm hvalid, fun p v p' v' hnorm hvalid hnorm' hvalid' heq => ?_,
    fun value p v h => classifyTarballPath_ok htrim hsemver h, fun hkeeps value p v h => ?_⟩
  · have hboth := (hread hnorm hvalid).1
    rw [heq, (hread hnorm' hvalid').1] at hboth
    exact ⟨(Prod.mk.inj (Option.some.inj hboth)).1.symm, (Prod.mk.inj (Option.some.inj hboth)).2.symm⟩
  · obtain ⟨a, hlower, hpath, hdecode⟩ := classifyTarballPath_ok htrim hsemver h
    exact npmPathResource_of hfold htrim h hdecode fun _ hc =>
      unmarked_of_classify htrim hsemver hkeeps h hlower hpath hc

/-! ### Two paths -/

/-- `semver.IsValid` of three numbers. -/
def plainSemver : Semver where
  isValid v := match v.toList with
    | 'v' :: rest => (rest.splitOn '.').length = 3 && (rest.splitOn '.').all fun part => part ≠ [] && part.all (·.isDigit)
    | _ => false
  compare _ _ := 0

def lowerText : Text := ⟨Maven.lower, Maven.trimSpace, fun _ => true, fun _ => ""⟩

/-- White space around the package name is trimmed, so the path is not that of the tarball in any letter case. -/
theorem classifyTarballPath_spaced :
    ¬∀ value p v, classifyTarballPath lowerText plainSemver value = some (p, v) →
      ∃ d, decodeRegistryPath value = some (utf8 d) ∧
        lowerText.toLower d = lowerText.toLower (canonicalTarballPath p v) := by
  intro h
  have hread : classifyTarballPath lowerText plainSemver (utf8 "foo%20/-/foo-1.0.0.tgz") = some ("foo", "1.0.0") := by decide
  obtain ⟨d, hd, hlower⟩ := h _ _ _ hread
  have hdecode : decodeRegistryPath (utf8 "foo%20/-/foo-1.0.0.tgz") = some (utf8 "foo /-/foo-1.0.0.tgz") := by decide
  rw [hdecode] at hd
  have hvalid := validString_utf8 d
  rw [← Option.some.inj hd, validString_utf8] at hvalid
  have hpath : d = "foo /-/foo-1.0.0.tgz" := String.toList_inj.1 (Option.some.inj hvalid).symm
  rw [hpath] at hlower
  exact absurd hlower (by decide)

theorem plainSemver_chars (v : String) (h : plainSemver.isValid ("v" ++ v) = true) : v.toList.all versionChar = true := by
  have hlist : ("v" ++ v).toList = 'v' :: v.toList := by rw [String.toList_append]; rfl
  simp only [plainSemver, hlist, Bool.and_eq_true, List.all_eq_true] at h
  rw [List.all_eq_true]
  intro c hc
  have hjoin : v.toList = List.intercalate ['.'] (v.toList.splitOn '.') := (List.intercalate_splitOn '.').symm
  rw [hjoin] at hc
  rcases Maven.mem_of_mem_intercalate hc with hc | ⟨part, hpart, hc⟩
  · obtain rfl := List.mem_singleton.1 hc
    decide
  · have hdigit := (h.2 part hpart).2 c hc
    simp [versionChar, Char.isAlphanum, hdigit]

/-- A scoped package, also in capitals and with a blank, and the path of its next version. -/
theorem classifyTarballPath_canonical_scoped :
    classifyTarballPath lowerText plainSemver (utf8 (canonicalTarballPath "@acme/cli" "1.0.0")) =
      some ("@acme/cli", "1.0.0") ∧
    npmPathResource lowerText plainSemver (· == ·) (utf8 "@ACME%2fcli%20/-/cli-1.0.0.tgz") = ("@acme/cli", "1.0.0") ∧
    canonicalTarballPath "@acme/cli" "1.0.0" ≠ canonicalTarballPath "@acme/cli" "1.0.1" := by
  have hfold : ∀ b : List UInt8, (b == b) = true := fun _ => beq_self_eq_true _
  have htrim : lowerText.trimSpace = Maven.trimSpace := rfl
  have hkeeps : KeepsMarks lowerText := by
    intro s c hc hmark
    rw [show lowerText.toLower s = Maven.lower s from rfl, Maven.lower, String.toList_ofList]
    exact List.mem_map.2 ⟨c, hc, by rcases hmark with rfl | rfl <;> decide⟩
  obtain ⟨hread, hinj, -, hlocks⟩ := classifyTarballPath_canonical htrim plainSemver_chars hfold
  refine ⟨(hread _ _ (by decide) (by decide)).1, hlocks hkeeps _ _ _ (by decide), fun h => ?_⟩
  have hsame := hinj "@acme/cli" "1.0.0" "@acme/cli" "1.0.1" (by decide) (by decide) (by decide) (by decide) h
  exact absurd hsame.2 (by decide)

end Renop.NpmService
