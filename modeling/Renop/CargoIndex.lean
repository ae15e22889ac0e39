import Renop.Cargo

/-!
# The Cargo sparse index

`index.go` and the names of `metadata.go`. An index file is the list of its lines, each ended by a newline as the
writers here end it. The writers copy a file line by line; they decode what they have to change and encode it
again.
-/

namespace Renop.Cargo

open Sql

/-! ### Names -/

section Names

def isASCIIAlpha (c : Char) : Bool := ('a' ≤ c && c ≤ 'z') || ('A' ≤ c && c ≤ 'Z')

/-- Names that Windows keeps for devices. -/
def reservedName (lower : String) : Bool :=
  lower = "con" || lower = "prn" || lower = "aux" || lower = "nul" ||
    (lower.length = 4 && ((lower.toList.take 3 = "com".toList) || (lower.toList.take 3 = "lpt".toList)) &&
      (lower.toList.drop 3).all fun c => '1' ≤ c && c ≤ '9')

def validateCrateName (text : Text) (name : String) : Bool :=
  match name.toList with
  | [] => false
  | c :: cs =>
    name.utf8ByteSize ≤ 64 && isASCIIAlpha c && (cs.all fun c => isASCIIAlpha c || c.isDigit || c = '-' || c = '_') &&
      !reservedName (text.toLower name)

def normalizeCrateName (text : Text) (name : String) : String :=
  String.ofList ((text.toLower (text.trimSpace name)).toList.map fun c => if c = '_' then '-' else c)

/-- `bytes.ToLower` of a valid name. -/
def lowerName (name : String) : List Char := name.toList.map Char.toLower

def indexPath (crateName : String) : String :=
  let name := lowerName crateName
  match name with
  | [_] => "1/" ++ String.ofList name
  | [_, _] => "2/" ++ String.ofList name
  | [c, _, _] => "3/" ++ String.ofList [c] ++ "/" ++ String.ofList name
  | _ => String.ofList (name.take 2) ++ "/" ++ String.ofList ((name.drop 2).take 2) ++ "/" ++ String.ofList name

end Names

example : indexPath "Serde" = "se/rd/serde" ∧ indexPath "Foo" = "3/f/foo" := by decide +kernel

/-! ### Lines -/

/-- A line of the index, with what the registry looks at. -/
structure IndexEntry where
  name : String
  version : String
  checksum : String
  yanked : Bool
  /-- Dependencies, features, links, schema and Rust version. -/
  details : String
deriving DecidableEq, Repr

/-- What the index takes from `golang.org/x/mod/semver`, `goccy/go-json` and the Unicode tables. -/
structure IndexLib where
  /-- `semver.IsValid` and `semver.Compare`, behind a `v`. -/
  semverValid : String → Bool
  semverCompare : String → String → Int
  equalFold : String → String → Bool
  /-- `json.Unmarshal` into a `cargoIndexValidationEntry`: the name and the version. -/
  unmarshalName : String → Option (String × String)
  /-- `json.Unmarshal` into an `IndexEntry`. -/
  unmarshal : String → Option IndexEntry
  /-- The line that `json.Encoder` writes, without its newline. -/
  encode : IndexEntry → String

/-- ASCII without blanks and control characters. -/
def Printable (s : String) : Prop := ∀ c ∈ s.toList, 33 ≤ c.toNat ∧ c.toNat < 127

structure IndexLib.Lawful (text : Text) (lib : IndexLib) : Prop where
  compare_self : ∀ v, lib.semverCompare v v = 0
  semver_printable : ∀ v, lib.semverValid v = true → Printable v
  trimSpace_printable : ∀ s, Printable s → text.trimSpace s = s
  unmarshal_encode : ∀ e, lib.unmarshal (lib.encode e) = some e
  unmarshalName_eq : ∀ line e, lib.unmarshal line = some e → lib.unmarshalName line = some (e.name, e.version)
  encode_nonblank : ∀ e, text.trimSpace (lib.encode e) ≠ ""

inductive IndexError
  | tooLarge
  | versionExists
  /-- `invalid Cargo index entry` -/
  | invalidEntry
  /-- `cargo crate name collides with an existing package` -/
  | nameCollision
  /-- `cargo index contains an unmanaged package version` -/
  | unmanaged
deriving DecidableEq, Repr

def maxIndexSize : Nat := 16 * 2 ^ 20

def maxIndexLineSize : Nat := 2 * 2 ^ 20

def lineSize (line : String) : Nat := line.utf8ByteSize + 1

def fileSize (lines : List String) : Nat := (lines.map lineSize).sum

@[simp] theorem fileSize_nil : fileSize [] = 0 := rfl

@[simp] theorem fileSize_cons (line : String) (lines : List String) :
    fileSize (line :: lines) = lineSize line + fileSize lines := by
  simp [fileSize]

@[simp] theorem fileSize_append (xs ys : List String) : fileSize (xs ++ ys) = fileSize xs + fileSize ys := by
  simp [fileSize]

section Rewrite
variable (text : Text) (lib : IndexLib)

def validatePackage (name version : String) : Bool :=
  validateCrateName text name && version ≠ "" && version.utf8ByteSize ≤ 128 && lib.semverValid version

def sameVersion (left right : String) : Bool :=
  if !lib.semverValid left || !lib.semverValid right then left = right else lib.semverCompare left right = 0

/-- The scanner gives up at a line that does not fit its buffer. -/
def scanIndex {α : Type} (visit : α → String → Except IndexError α) :
    Nat → List String → α → Except IndexError α
  | _, [], a => pure a
  | total, line :: lines, a => do
    require (line.utf8ByteSize < maxIndexLineSize) .tooLarge
    require (total + lineSize line ≤ maxIndexSize) .tooLarge
    require (text.trimSpace line ≠ "") .invalidEntry
    let a ← visit a line
    scanIndex visit (total + lineSize line) lines a

/-- `limitedIndexWriter.Write` of a line and its newline. -/
def writeLine (out : List String) (line : String) : Except IndexError (List String) := do
  require (fileSize out + lineSize line ≤ maxIndexSize) .tooLarge
  pure (out ++ [line])

/-- The visitor of `rewriteIndex`: the lines so far, and whether the version is among them. -/
def copyLine (entry : IndexEntry) (x : List String × Bool) (line : String) : Except IndexError (List String × Bool) := do
  let (name, version) ← orError (lib.unmarshalName line) .invalidEntry
  require (name ≠ "" ∧ version ≠ "") .invalidEntry
  require (lib.equalFold name entry.name = true) .nameCollision
  let out ← writeLine x.1 line
  pure (out, x.2 || sameVersion lib version entry.version)

def rewriteIndex (lines : List String) (entry : IndexEntry) : Except IndexError (List String) := do
  let (out, versionExists) ← scanIndex text (copyLine lib entry) 0 lines ([], false)
  require (versionExists = false) .versionExists
  writeLine out (lib.encode entry)

/-- An entry that can be read. -/
def readEntry (line : String) : Except IndexError IndexEntry := do
  let entry ← orError (lib.unmarshal line) .invalidEntry
  require (entry.version ≠ "") .invalidEntry
  pure entry

/-- The first line of the version is encoded again; the lines after it are copied unread. -/
def yankLine (version : String) (yanked : Bool) (x : List String × Bool) (line : String) :
    Except IndexError (List String × Bool) :=
  if x.2 then do
    let out ← writeLine x.1 line
    pure (out, true)
  else do
    let entry ← readEntry lib line
    if entry.version ≠ version then do
      let out ← writeLine x.1 line
      pure (out, false)
    else do
      let out ← writeLine x.1 (lib.encode { entry with yanked })
      pure (out, true)

def rewriteYanked (lines : List String) (version : String) (yanked : Bool) : Except IndexError (List String × Bool) :=
  scanIndex text (yankLine lib version yanked) 0 lines ([], false)

def removeLine (version : String) (x : List String × Bool) (line : String) : Except IndexError (List String × Bool) := do
  let entry ← readEntry lib line
  if entry.version = version then pure (x.1, true)
  else do
    let out ← writeLine x.1 line
    pure (out, x.2)

/-- What is left, and whether the version was there. -/
def rewriteRemoveVersion (lines : List String) (version : String) : Except IndexError (List String × Bool) :=
  scanIndex text (removeLine lib version) 0 lines ([], false)

def packageLine (desired : String → Option Bool) (x : List String × Nat) (line : String) :
    Except IndexError (List String × Nat) := do
  let entry ← readEntry lib line
  let yanked ← orError (desired entry.version) .unmanaged
  let out ← writeLine x.1 (lib.encode { entry with yanked })
  pure (out, x.2 + 1)

/-- `desired` is a map from versions to flags; the number is that of the lines. -/
def rewritePackageYanked (lines : List String) (desired : String → Option Bool) : Except IndexError (List String × Nat) :=
  scanIndex text (packageLine lib desired) 0 lines ([], 0)

end Rewrite

/-! ### What a rewrite does -/

section Specs
variable {text : Text} {lib : IndexLib}

/-- The scanner gets through the file. -/
structure Scannable (text : Text) (lines : List String) : Prop where
  line : ∀ line ∈ lines, line.utf8ByteSize < maxIndexLineSize ∧ text.trimSpace line ≠ ""
  total : fileSize lines ≤ maxIndexSize

theorem scanIndex_ok {α : Type} {visit : α → String → Except IndexError α} {total : Nat} {lines : List String} {a b : α} :
    scanIndex text visit total lines a = .ok b ↔
      (∀ line ∈ lines, line.utf8ByteSize < maxIndexLineSize ∧ text.trimSpace line ≠ "") ∧
      (lines = [] ∨ total + fileSize lines ≤ maxIndexSize) ∧ lines.foldlM visit a = .ok b := by
  induction lines generalizing total a with
  | nil => simp [scanIndex]
  | cons line lines ih =>
    simp only [scanIndex, List.foldlM_cons]
    rw [require_bind_ok, require_bind_ok, require_bind_ok, bind_ok, bind_ok]
    constructor
    · rintro ⟨hsize, htotal, hblank, c, hc, hrest⟩
      obtain ⟨hlines, hfit, hfold⟩ := ih.1 hrest
      refine ⟨?_, .inr ?_, c, hc, hfold⟩
      · intro l hl
        rcases List.mem_cons.1 hl with rfl | hl
        exacts [⟨hsize, hblank⟩, hlines l hl]
      · rcases hfit with rfl | hfit
        · simpa using htotal
        · simp only [fileSize_cons]; omega
    · rintro ⟨hlines, hfit, c, hc, hfold⟩
      have hfit := hfit.resolve_left (by simp)
      simp only [fileSize_cons] at hfit
      obtain ⟨hsize, hblank⟩ := hlines line (by simp)
      exact ⟨hsize, by omega, hblank, c, hc, ih.2 ⟨fun l hl => hlines l (by simp [hl]), .inr (by omega), hfold⟩⟩

theorem scanIndex_zero_ok {α : Type} {visit : α → String → Except IndexError α} {lines : List String} {a b : α} :
    scanIndex text visit 0 lines a = .ok b ↔ Scannable text lines ∧ lines.foldlM visit a = .ok b := by
  rw [scanIndex_ok]
  constructor
  · rintro ⟨h, ht, hf⟩
    refine ⟨⟨h, ?_⟩, hf⟩
    rcases ht with rfl | ht
    · simp
    · omega
  · rintro ⟨⟨h, ht⟩, hf⟩
    exact ⟨h, .inr (by omega), hf⟩

theorem writeLine_ok {out out' : List String} {line : String} :
    writeLine out line = .ok out' ↔ fileSize out + lineSize line ≤ maxIndexSize ∧ out' = out ++ [line] := by
  unfold writeLine
  rw [require_bind_ok]
  simp [eq_comm, pure, Except.pure]

theorem sameVersion_self (hlib : lib.Lawful text) (v : String) : sameVersion lib v v = true := by
  unfold sameVersion
  split
  · simp
  · simp [hlib.compare_self]

theorem readEntry_ok {line : String} {e : IndexEntry} :
    readEntry lib line = .ok e ↔ lib.unmarshal line = some e ∧ e.version ≠ "" := by
  unfold readEntry
  rw [bind_ok]
  constructor
  · rintro ⟨e', he', h⟩
    obtain ⟨hne, h⟩ := require_bind_ok.1 h
    cases h
    exact ⟨orError_ok.1 he', hne⟩
  · rintro ⟨he, hne⟩
    exact ⟨e, orError_ok.2 he, require_bind_ok.2 ⟨hne, rfl⟩⟩

/-! #### A new line -/

theorem foldlM_copyLine {entry : IndexEntry} {lines out out' : List String} {b b' : Bool}
    (h : lines.foldlM (copyLine lib entry) (out, b) = .ok (out', b')) :
    out' = out ++ lines ∧ (b' = false → b = false ∧ ∀ line ∈ lines, ∃ name version,
      lib.unmarshalName line = some (name, version) ∧ sameVersion lib version entry.version = false) := by
  induction lines generalizing out b with
  | nil =>
    cases h
    exact ⟨by simp, fun hb => ⟨hb, by simp⟩⟩
  | cons line lines ih =>
    rw [List.foldlM_cons] at h
    obtain ⟨⟨out₁, b₁⟩, hline, h⟩ := bind_ok.1 h
    obtain ⟨⟨name, version⟩, hname, hline⟩ := bind_ok.1 hline
    obtain ⟨-, hline⟩ := require_bind_ok.1 hline
    obtain ⟨-, hline⟩ := require_bind_ok.1 hline
    obtain ⟨out₂, hwrite, hline⟩ := bind_ok.1 hline
    cases hline
    obtain ⟨-, rfl⟩ := writeLine_ok.1 hwrite
    obtain ⟨hout, hb⟩ := ih h
    refine ⟨by simp [hout], fun hbf => ?_⟩
    obtain ⟨hor, hrest⟩ := hb hbf
    obtain ⟨hb₀, hsame⟩ := Bool.or_eq_false_iff.1 hor
    refine ⟨hb₀, fun l hl => ?_⟩
    rcases List.mem_cons.1 hl with rfl | hl
    exacts [⟨name, version, orError_ok.1 hname, hsame⟩, hrest l hl]

theorem rewriteIndex_ok {lines out : List String} {entry : IndexEntry} (h : rewriteIndex text lib lines entry = .ok out) :
    Scannable text lines ∧ out = lines ++ [lib.encode entry] ∧ fileSize out ≤ maxIndexSize ∧
      ∀ line ∈ lines, ∃ name version, lib.unmarshalName line = some (name, version) ∧
        sameVersion lib version entry.version = false := by
  unfold rewriteIndex at h
  obtain ⟨⟨out₁, versionExists⟩, hscan, h⟩ := bind_ok.1 h
  obtain ⟨hexists, h⟩ := require_bind_ok.1 h
  obtain ⟨hsize, rfl⟩ := writeLine_ok.1 h
  obtain ⟨hlines, hfold⟩ := scanIndex_zero_ok.1 hscan
  obtain ⟨rfl, hdiff⟩ := foldlM_copyLine hfold
  refine ⟨hlines, by simp, ?_, (hdiff hexists).2⟩
  simpa [fileSize] using hsize

/-! #### Removing a version -/

/-- The version of a line that can be read. -/
def lineVersion (lib : IndexLib) (line : String) : Option String := (lib.unmarshal line).map (·.version)

theorem removeLine_ok {version line : String} {x y : List String × Bool} :
    removeLine lib version x line = .ok y ↔ ∃ v, lineVersion lib line = some v ∧ v ≠ "" ∧
      (v = version ∧ y = (x.1, true) ∨ v ≠ version ∧ fileSize x.1 + lineSize line ≤ maxIndexSize ∧
        y = (x.1 ++ [line], x.2)) := by
  unfold removeLine lineVersion
  rw [bind_ok]
  constructor
  · rintro ⟨e, he, h⟩
    obtain ⟨hu, hne⟩ := readEntry_ok.1 he
    refine ⟨e.version, by simp [hu], hne, ?_⟩
    split at h
    · rename_i heq
      cases h
      exact .inl ⟨heq, rfl⟩
    · rename_i heq
      obtain ⟨out, hwrite, h⟩ := bind_ok.1 h
      cases h
      obtain ⟨hsize, rfl⟩ := writeLine_ok.1 hwrite
      exact .inr ⟨heq, hsize, rfl⟩
  · rintro ⟨v, hv, hne, h⟩
    obtain ⟨e, hu, rfl⟩ := Option.map_eq_some_iff.1 hv
    refine ⟨e, readEntry_ok.2 ⟨hu, hne⟩, ?_⟩
    rcases h with ⟨heq, rfl⟩ | ⟨heq, hsize, rfl⟩
    · rw [if_pos heq]; rfl
    · rw [if_neg heq]
      exact bind_ok.2 ⟨_, writeLine_ok.2 ⟨hsize, rfl⟩, rfl⟩

theorem foldlM_removeLine {version : String} {lines out out' : List String} {b b' : Bool}
    (hsize : fileSize out + fileSize lines ≤ maxIndexSize) :
    lines.foldlM (removeLine lib version) (out, b) = .ok (out', b') ↔
      (∀ line ∈ lines, ∃ v, lineVersion lib line = some v ∧ v ≠ "") ∧
        out' = out ++ lines.filter (fun line => lineVersion lib line ≠ some version) ∧
        b' = (b || lines.any fun line => lineVersion lib line = some version) := by
  induction lines generalizing out b with
  | nil => simp [pure, Except.pure, Prod.ext_iff, eq_comm (a := out), eq_comm (a := b)]
  | cons line lines ih =>
    rw [fileSize_cons] at hsize
    rw [List.foldlM_cons, bind_ok]
    constructor
    · rintro ⟨⟨out₁, b₁⟩, hline, h⟩
      rcases removeLine_ok.1 hline with ⟨v, hv, hne, ⟨rfl, hx⟩ | ⟨heq, -, hx⟩⟩
      · cases hx
        obtain ⟨hall, rfl, rfl⟩ := (@ih out true (by omega)).1 h
        exact ⟨by simpa using ⟨⟨v, hv, hne⟩, hall⟩, by simp [hv], by simp [hv]⟩
      · cases hx
        obtain ⟨hall, rfl, rfl⟩ := (ih (by simp; omega)).1 h
        exact ⟨by simpa using ⟨⟨v, hv, hne⟩, hall⟩, by simp [hv, heq], by simp [hv, heq]⟩
    · rintro ⟨hall, rfl, rfl⟩
      obtain ⟨v, hv, hne⟩ := hall line (by simp)
      have hrest : ∀ l ∈ lines, ∃ v, lineVersion lib l = some v ∧ v ≠ "" := fun l hl => hall l (by simp [hl])
      by_cases heq : v = version
      · refine ⟨(out, true), removeLine_ok.2 ⟨v, hv, hne, .inl ⟨heq, rfl⟩⟩,
          (ih (Nat.le_trans ?_ hsize)).2 ⟨hrest, ?_, ?_⟩⟩
        · omega
        · simp [hv, heq]
        · simp [hv, heq]
      · refine ⟨(out ++ [line], b), removeLine_ok.2 ⟨v, hv, hne, .inr ⟨heq, ?_, rfl⟩⟩,
          (ih (by simp; omega)).2 ⟨hrest, ?_, ?_⟩⟩
        · show fileSize out + lineSize line ≤ maxIndexSize
          omega
        · simp [hv, heq]
        · simp [hv, heq]

theorem rewriteRemoveVersion_ok {lines out : List String} {version : String} {removed : Bool} :
    rewriteRemoveVersion text lib lines version = .ok (out, removed) ↔
      Scannable text lines ∧ (∀ line ∈ lines, ∃ v, lineVersion lib line = some v ∧ v ≠ "") ∧
      out = lines.filter (fun line => lineVersion lib line ≠ some version) ∧
      removed = lines.any fun line => lineVersion lib line = some version := by
  unfold rewriteRemoveVersion
  rw [scanIndex_zero_ok]
  refine and_congr_right fun hs => ?_
  rw [foldlM_removeLine (by simpa using hs.total)]
  simp

/-! #### Flags -/

/-- The entry with the flag that a map has for its version. -/
def IndexEntry.flag (desired : String → Option Bool) (e : IndexEntry) : IndexEntry :=
  { e with yanked := (desired e.version).getD e.yanked }

@[simp] theorem IndexEntry.flag_version (desired : String → Option Bool) (e : IndexEntry) :
    (e.flag desired).version = e.version := rfl

/-- The map that changes one version. -/
def single (version : String) (yanked : Bool) : String → Option Bool := fun v => if v = version then some yanked else none

/-- The lines of a file as the encoder writes them. -/
def encodeAll (lib : IndexLib) (entries : List IndexEntry) : List String := entries.map lib.encode

@[simp] theorem encodeAll_nil : encodeAll lib [] = [] := rfl

@[simp] theorem encodeAll_cons (e : IndexEntry) (entries : List IndexEntry) :
    encodeAll lib (e :: entries) = lib.encode e :: encodeAll lib entries := rfl

theorem lineVersion_encode (hlib : lib.Lawful text) (e : IndexEntry) : lineVersion lib (lib.encode e) = some e.version := by
  simp [lineVersion, hlib.unmarshal_encode]

theorem foldlM_yankLine_found {version : String} {yanked : Bool} {lines out out' : List String} {b' : Bool}
    (hout : fileSize out ≤ maxIndexSize) :
    lines.foldlM (yankLine lib version yanked) (out, true) = .ok (out', b') ↔
      fileSize out + fileSize lines ≤ maxIndexSize ∧ out' = out ++ lines ∧ b' = true := by
  induction lines generalizing out with
  | nil => simp [pure, Except.pure, Prod.ext_iff, eq_comm (a := out), eq_comm (a := true), hout]
  | cons line lines ih =>
    rw [List.foldlM_cons, bind_ok, fileSize_cons]
    constructor
    · rintro ⟨x, hline, h⟩
      obtain ⟨out₁, hwrite, hline⟩ := bind_ok.1 hline
      cases hline
      obtain ⟨hsize, rfl⟩ := writeLine_ok.1 hwrite
      obtain ⟨htotal, rfl, rfl⟩ := (ih (by simpa using hsize)).1 h
      simp only [fileSize_append, fileSize_cons, fileSize_nil] at htotal
      exact ⟨by omega, by simp, rfl⟩
    · rintro ⟨htotal, rfl, rfl⟩
      have hsize : fileSize out + lineSize line ≤ maxIndexSize := by omega
      refine ⟨(out ++ [line], true), bind_ok.2 ⟨_, writeLine_ok.2 ⟨hsize, rfl⟩, rfl⟩,
        (ih (by simpa using hsize)).2 ⟨?_, ?_, rfl⟩⟩
      · simp only [fileSize_append, fileSize_cons, fileSize_nil]
        omega
      · simp

theorem yankLine_encode (hlib : lib.Lawful text) {version : String} {yanked : Bool} {out : List String} {e : IndexEntry}
    (he : e.version ≠ "") {y : List String × Bool} :
    yankLine lib version yanked (out, false) (lib.encode e) = .ok y ↔
      fileSize out + lineSize (lib.encode (e.flag (single version yanked))) ≤ maxIndexSize ∧
        y = (out ++ [lib.encode (e.flag (single version yanked))], decide (e.version = version)) := by
  have hread : readEntry lib (lib.encode e) = .ok e := readEntry_ok.2 ⟨hlib.unmarshal_encode e, he⟩
  unfold yankLine
  rw [if_neg (by simp), hread]
  show (if e.version ≠ version then _ else _ : Except IndexError (List String × Bool)) = Except.ok y ↔ _
  by_cases heq : e.version = version
  · have hflag : e.flag (single version yanked) = { e with yanked } := by simp [IndexEntry.flag, single, heq]
    rw [if_neg (by simpa using heq), hflag, bind_ok]
    simp [writeLine_ok, heq, pure, Except.pure, eq_comm (b := y), and_assoc]
  · have hflag : e.flag (single version yanked) = e := by simp [IndexEntry.flag, single, heq]
    rw [if_pos heq, hflag, bind_ok]
    simp [writeLine_ok, heq, pure, Except.pure, eq_comm (b := y), and_assoc]

theorem flag_single_of_ne {version : String} {yanked : Bool} {entries : List IndexEntry}
    (h : ∀ e ∈ entries, e.version ≠ version) : entries.map (·.flag (single version yanked)) = entries := by
  rw [List.map_congr_left (g := id) (fun e he => by simp [IndexEntry.flag, single, h e he]), List.map_id]

theorem foldlM_yankLine (hlib : lib.Lawful text) {version : String} {yanked : Bool} {entries : List IndexEntry}
    {out out' : List String} {b' : Bool} (hnodup : (entries.map (·.version)).Nodup)
    (hne : ∀ e ∈ entries, e.version ≠ "") (hout : fileSize out ≤ maxIndexSize) :
    (encodeAll lib entries).foldlM (yankLine lib version yanked) (out, false) = .ok (out', b') ↔
      fileSize out + fileSize (encodeAll lib (entries.map (·.flag (single version yanked)))) ≤ maxIndexSize ∧
        out' = out ++ encodeAll lib (entries.map (·.flag (single version yanked))) ∧
        b' = entries.any fun e => e.version = version := by
  induction entries generalizing out out' b' with
  | nil => simp [pure, Except.pure, Prod.ext_iff, eq_comm (a := out), eq_comm (a := false), hout]
  | cons e entries ih =>
    simp only [encodeAll_cons, List.map_cons, List.foldlM_cons, bind_ok, fileSize_cons, List.any_cons]
    rw [List.map_cons, List.nodup_cons] at hnodup
    have hrest : ∀ e ∈ entries, e.version ≠ "" := fun e he => hne e (by simp [he])
    simp only [yankLine_encode hlib (hne e (by simp))]
    constructor
    · rintro ⟨_, ⟨hsize, rfl⟩, h⟩
      by_cases heq : e.version = version
      · -- the version is unique, so the flags of the rest stay
        have hsame := @flag_single_of_ne version yanked entries
          fun e' he' h' => hnodup.1 (heq ▸ h' ▸ List.mem_map_of_mem he')
        simp only [heq, decide_true] at h
        obtain ⟨htotal, rfl, rfl⟩ := (foldlM_yankLine_found (by simpa using hsize)).1 h
        simp only [fileSize_append, fileSize_cons, fileSize_nil] at htotal
        rw [hsame]
        exact ⟨by omega, by simp, by simp [heq]⟩
      · simp only [heq, decide_false] at h
        obtain ⟨htotal, rfl, rfl⟩ := (ih hnodup.2 hrest (by simpa using hsize)).1 h
        simp only [fileSize_append, fileSize_cons, fileSize_nil] at htotal
        exact ⟨by omega, by simp, by simp [heq]⟩
    · rintro ⟨htotal, rfl, rfl⟩
      have hsize : fileSize out + lineSize (lib.encode (e.flag (single version yanked))) ≤ maxIndexSize := by omega
      refine ⟨_, ⟨hsize, rfl⟩, ?_⟩
      by_cases heq : e.version = version
      · have hsame := @flag_single_of_ne version yanked entries
          fun e' he' h' => hnodup.1 (heq ▸ h' ▸ List.mem_map_of_mem he')
        rw [hsame] at htotal ⊢
        rw [decide_eq_true heq]
        refine (foldlM_yankLine_found (by simpa using hsize)).2 ⟨?_, by simp, by simp⟩
        simp only [fileSize_append, fileSize_cons, fileSize_nil]
        omega
      · rw [decide_eq_false heq, Bool.false_or]
        refine (ih hnodup.2 hrest ?_).2 ⟨?_, ?_, ?_⟩
        · simpa using hsize
        · simp only [fileSize_append, fileSize_cons, fileSize_nil]
          omega
        · simp
        · simp

theorem rewriteYanked_ok (hlib : lib.Lawful text) {version : String} {yanked found : Bool} {entries : List IndexEntry}
    {out : List String} (hnodup : (entries.map (·.version)).Nodup) (hne : ∀ e ∈ entries, e.version ≠ "") :
    rewriteYanked text lib (encodeAll lib entries) version yanked = .ok (out, found) ↔
      Scannable text (encodeAll lib entries) ∧ fileSize out ≤ maxIndexSize ∧
        out = encodeAll lib (entries.map (·.flag (single version yanked))) ∧ found = entries.any fun e =>
          e.version = version := by
  unfold rewriteYanked
  rw [scanIndex_zero_ok]
  refine and_congr_right fun _ => ?_
  rw [foldlM_yankLine hlib hnodup hne (by simp)]
  constructor
  · rintro ⟨hsize, rfl, rfl⟩
    exact ⟨by simpa using hsize, by simp, rfl⟩
  · rintro ⟨hsize, rfl, rfl⟩
    exact ⟨by simpa using hsize, by simp, rfl⟩

theorem foldlM_packageLine (hlib : lib.Lawful text) {desired : String → Option Bool} {entries : List IndexEntry}
    {out out' : List String} {n n' : Nat} (hne : ∀ e ∈ entries, e.version ≠ "") (hout : fileSize out ≤ maxIndexSize) :
    (encodeAll lib entries).foldlM (packageLine lib desired) (out, n) = .ok (out', n') ↔
      (∀ e ∈ entries, (desired e.version).isSome = true) ∧
        fileSize out + fileSize (encodeAll lib (entries.map (·.flag desired))) ≤ maxIndexSize ∧
        out' = out ++ encodeAll lib (entries.map (·.flag desired)) ∧ n' = n + entries.length := by
  induction entries generalizing out n out' n' with
  | nil => simp [pure, Except.pure, Prod.ext_iff, eq_comm (a := out), eq_comm (a := n), hout]
  | cons e entries ih =>
    simp only [encodeAll_cons, List.map_cons, List.foldlM_cons, bind_ok, fileSize_cons, List.length_cons]
    have hrest : ∀ e ∈ entries, e.version ≠ "" := fun e he => hne e (by simp [he])
    have hread : readEntry lib (lib.encode e) = .ok e := readEntry_ok.2 ⟨hlib.unmarshal_encode e, hne e (by simp)⟩
    constructor
    · rintro ⟨_, hline, h⟩
      obtain ⟨e', he', hdesired⟩ := bind_ok.1 hline
      rw [← Except.ok.inj (hread.symm.trans he')] at hdesired
      obtain ⟨b, hb, hline⟩ := bind_ok.1 hdesired
      obtain ⟨out₁, hwrite, hline⟩ := bind_ok.1 hline
      cases hline
      obtain ⟨hsize, rfl⟩ := writeLine_ok.1 hwrite
      have hflag : e.flag desired = { e with yanked := b } := by simp [IndexEntry.flag, orError_ok.1 hb]
      obtain ⟨hsome, htotal, rfl, rfl⟩ := (ih hrest (by simpa using hsize)).1 h
      simp only [fileSize_append, fileSize_cons, fileSize_nil] at htotal
      rw [hflag]
      refine ⟨?_, by omega, by simp, by omega⟩
      intro e' he'
      rcases List.mem_cons.1 he' with rfl | he'
      · rw [orError_ok.1 hb]; rfl
      · exact hsome e' he'
    · rintro ⟨hsome, htotal, rfl, rfl⟩
      obtain ⟨b, hb⟩ := Option.isSome_iff_exists.1 (hsome e (by simp))
      have hflag : e.flag desired = { e with yanked := b } := by simp [IndexEntry.flag, hb]
      rw [hflag] at htotal ⊢
      have hsize : fileSize out + lineSize (lib.encode { e with yanked := b }) ≤ maxIndexSize := by omega
      refine ⟨(out ++ [lib.encode { e with yanked := b }], n + 1), ?_,
        (ih hrest (by simpa using hsize)).2 ⟨?_, ?_, by simp, by omega⟩⟩
      · exact bind_ok.2 ⟨e, hread, bind_ok.2 ⟨b, orError_ok.2 hb,
          bind_ok.2 ⟨_, writeLine_ok.2 ⟨hsize, rfl⟩, rfl⟩⟩⟩
      · exact fun e' he' => hsome e' (by simp [he'])
      · simp only [fileSize_append, fileSize_cons, fileSize_nil]
        omega

theorem rewritePackageYanked_ok (hlib : lib.Lawful text) {desired : String → Option Bool} {entries : List IndexEntry}
    {out : List String} {updated : Nat} (hne : ∀ e ∈ entries, e.version ≠ "") :
    rewritePackageYanked text lib (encodeAll lib entries) desired = .ok (out, updated) ↔
      Scannable text (encodeAll lib entries) ∧ (∀ e ∈ entries, (desired e.version).isSome = true) ∧
        fileSize out ≤ maxIndexSize ∧ out = encodeAll lib (entries.map (·.flag desired)) ∧
          updated = entries.length := by
  unfold rewritePackageYanked
  rw [scanIndex_zero_ok]
  refine and_congr_right fun _ => ?_
  rw [foldlM_packageLine hlib hne (by simp)]
  refine and_congr_right fun _ => ?_
  constructor
  · rintro ⟨hsize, rfl, rfl⟩
    exact ⟨by simpa using hsize, by simp, by simp⟩
  · rintro ⟨hsize, rfl, rfl⟩
    exact ⟨by simpa using hsize, by simp, by simp⟩

end Specs

/-! ### A library for fixed inputs -/

/-- A text behind which a reader knows where it ends. -/
def field (s : List Char) : List Char := s.flatMap (fun c => ['x', c]) ++ ['y']

def readField : List Char → Option (List Char × List Char)
  | 'x' :: c :: rest => (readField rest).map fun (s, rest) => (c :: s, rest)
  | 'y' :: rest => some ([], rest)
  | _ => none

theorem readField_field (s rest : List Char) : readField (field s ++ rest) = some (s, rest) := by
  induction s with
  | nil => rfl
  | cons c s ih =>
    have h : field (c :: s) ++ rest = 'x' :: c :: (field s ++ rest) := by simp [field]
    rw [h, readField, ih]
    rfl

def plainEncode (e : IndexEntry) : String :=
  String.ofList ((if e.yanked then '1' else '0') :: (field e.name.toList ++ (field e.version.toList ++
    (field e.checksum.toList ++ e.details.toList))))

def plainDecode (line : String) : Option IndexEntry :=
  match line.toList with
  | [] => none
  | c :: cs => do
    let (name, cs) ← readField cs
    let (version, cs) ← readField cs
    let (checksum, cs) ← readField cs
    pure ⟨String.ofList name, String.ofList version, String.ofList checksum, c = '1', String.ofList cs⟩

theorem plainDecode_encode (e : IndexEntry) : plainDecode (plainEncode e) = some e := by
  unfold plainDecode plainEncode
  simp only [String.toList_ofList, readField_field, Option.bind_eq_bind, Option.bind_some, String.ofList_toList]
  cases h : e.yanked <;> simp [← h]

/-- Versions are compared as texts, and a line is a flag and three fields. -/
def plainLib : IndexLib where
  semverValid v := v.toList.all fun c => 33 ≤ c.toNat && c.toNat < 127
  semverCompare v w := if v = w then 0 else 1
  equalFold s t := s = t
  unmarshalName line := (plainDecode line).map fun e => (e.name, e.version)
  unmarshal := plainDecode
  encode := plainEncode

theorem plainLib_lawful {text : Text} (htrim : text.trimSpace = id) : plainLib.Lawful text where
  compare_self v := by simp [plainLib]
  semver_printable v h := by simpa [plainLib, Printable] using h
  trimSpace_printable s _ := by simp [htrim]
  unmarshal_encode := plainDecode_encode
  unmarshalName_eq line e h := by
    simp only [plainLib] at h ⊢
    rw [h]
    rfl
  encode_nonblank e := by
    rw [htrim]
    intro h
    have hnil : (plainEncode e).toList = [] := by
      show (plainEncode e).toList = "".toList
      exact congrArg String.toList h
    simp [plainEncode] at hnil

end Renop.Cargo
