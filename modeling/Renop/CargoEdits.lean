import Renop.CargoIndex

/-!
# Edits of an index file

The handlers change the index of a crate by reading its lines through `scanIndex` and writing a new file. A run is any
sequence of such rewrites; `apply` is what they do to the list of the entries.
-/

namespace Renop.Cargo

open Sql

/-! ### The file -/

/-- An entry that can be published: its name and its version have been checked. -/
structure Release where
  entry : IndexEntry
  named : entry.name ≠ "" ∧ entry.version ≠ ""

/-- A rewrite that a handler makes. -/
inductive Edit
  | publish (release : Release)
  | yank (version : String) (yanked : Bool)
  | remove (version : String)
  /-- All versions get the flag that a map has for them. -/
  | flagAll (desired : List (String × Bool))

inductive EditError
  | index (e : IndexError)
  | versionNotFound
  /-- `cargo index version count does not match package metadata` -/
  | countMismatch
deriving DecidableEq, Repr

section Write
variable (text : Text) (lib : IndexLib)

/-- The new lines of the file, and the check that the handler makes before it commits them. -/
def Edit.rewrite (lines : List String) : Edit → Except EditError (List String)
  | .publish release => (rewriteIndex text lib lines release.entry).mapError .index
  | .yank version yanked => do
    let (out, versionFound) ← (rewriteYanked text lib lines version yanked).mapError .index
    require (versionFound = true) .versionNotFound
    pure out
  | .remove version => do
    let (out, removed) ← (rewriteRemoveVersion text lib lines version).mapError .index
    require (removed = true) .versionNotFound
    pure out
  | .flagAll desired => do
    let (out, updated) ← (rewritePackageYanked text lib lines fun v => desired.lookup v).mapError .index
    require (updated = desired.length) .countMismatch
    pure out

def rewriteAll (edits : List Edit) (lines : List String) : Except EditError (List String) :=
  edits.foldlM (fun lines edit => edit.rewrite text lib lines) lines

end Write

/-! ### The entries -/

section Entries
variable (lib : IndexLib)

/-- What an edit does to the entries, if it may be made. -/
def Edit.apply (entries : List IndexEntry) : Edit → Option (List IndexEntry)
  | .publish release =>
    if ∀ e ∈ entries, lib.equalFold e.name release.entry.name = true ∧ sameVersion lib e.version release.entry.version =
      false then
      some (entries ++ [release.entry])
    else none
  | .yank version yanked =>
    if ∃ e ∈ entries, e.version = version then some (entries.map (·.flag (single version yanked))) else none
  | .remove version =>
    if ∃ e ∈ entries, e.version = version then some (entries.filter fun e => e.version ≠ version) else none
  | .flagAll desired =>
    if (∀ e ∈ entries, (desired.lookup e.version).isSome = true) ∧ entries.length = desired.length then
      some (entries.map (·.flag fun v => desired.lookup v))
    else none

/-- The entries of an index: they have names and versions, and no version is there twice. -/
structure Listed (entries : List IndexEntry) : Prop where
  named : ∀ e ∈ entries, e.name ≠ "" ∧ e.version ≠ ""
  apart : entries.Pairwise fun a b => sameVersion lib a.version b.version = false

/-- A run of edits; each one needs a file that can be scanned, and a new file that is not too large. -/
inductive Edit.Run (text : Text) : List IndexEntry → List Edit → List IndexEntry → Prop
  | nil (entries : List IndexEntry) : Run text entries [] entries
  | cons {entries next last : List IndexEntry} {edit : Edit} {edits : List Edit}
      (hscan : Scannable text (encodeAll lib entries))
      (happly : edit.apply lib entries = some next) (hsize : fileSize (encodeAll lib next) ≤ maxIndexSize)
      (hrest : Run text next edits last) : Run text entries (edit :: edits) last

end Entries

section Specs
variable {text : Text} {lib : IndexLib} {entries next : List IndexEntry} {edit : Edit}

theorem encodeAll_append (xs ys : List IndexEntry) : encodeAll lib (xs ++ ys) = encodeAll lib xs ++ encodeAll lib ys :=
  List.map_append

theorem Listed.nodup (hlib : lib.Lawful text) (h : Listed lib entries) : (entries.map (·.version)).Nodup := by
  refine List.pairwise_map.2 (h.apart.imp ?_)
  intro a b hab heq
  rw [heq, sameVersion_self hlib] at hab
  cases hab

/-! #### Publishing -/

theorem foldlM_copyLine_encode (hlib : lib.Lawful text) {entry : IndexEntry} {out out' : List String} {b b' : Bool}
    (hnamed : ∀ e ∈ entries, e.name ≠ "" ∧ e.version ≠ "") (hout : fileSize out ≤ maxIndexSize) :
    (encodeAll lib entries).foldlM (copyLine lib entry) (out, b) = .ok (out', b') ↔
      (∀ e ∈ entries, lib.equalFold e.name entry.name = true) ∧
        fileSize out + fileSize (encodeAll lib entries) ≤ maxIndexSize ∧
        out' = out ++ encodeAll lib entries ∧ b' = (b || entries.any fun e => sameVersion lib e.version entry.version) := by
  induction entries generalizing out b with
  | nil => simp [pure, Except.pure, Prod.ext_iff, eq_comm (a := out), eq_comm (a := b), hout]
  | cons e entries ih =>
    simp only [encodeAll_cons, List.foldlM_cons, bind_ok, fileSize_cons, List.any_cons]
    have hread : lib.unmarshalName (lib.encode e) = some (e.name, e.version) :=
      hlib.unmarshalName_eq _ _ (hlib.unmarshal_encode e)
    have hrest : ∀ e ∈ entries, e.name ≠ "" ∧ e.version ≠ "" := fun e he => hnamed e (List.mem_cons_of_mem _ he)
    constructor
    · rintro ⟨_, hline, h⟩
      obtain ⟨x, hx, hline⟩ := bind_ok.1 hline
      rw [orError_ok, hread] at hx
      cases hx
      obtain ⟨-, hline⟩ := require_bind_ok.1 hline
      obtain ⟨hfold, hline⟩ := require_bind_ok.1 hline
      obtain ⟨out₁, hwrite, hline⟩ := bind_ok.1 hline
      cases hline
      obtain ⟨hsize, rfl⟩ := writeLine_ok.1 hwrite
      obtain ⟨hall, htotal, rfl, rfl⟩ := (ih hrest (by simpa using hsize)).1 h
      simp only [fileSize_append, fileSize_cons, fileSize_nil] at htotal
      refine ⟨List.forall_mem_cons.2 ⟨hfold, hall⟩, by omega, by simp, ?_⟩
      rw [Bool.or_assoc]
    · rintro ⟨hall, htotal, rfl, rfl⟩
      obtain ⟨hfold, hall⟩ := List.forall_mem_cons.1 hall
      have hsize : fileSize out + lineSize (lib.encode e) ≤ maxIndexSize := by omega
      refine ⟨(out ++ [lib.encode e], b || sameVersion lib e.version entry.version), ?_,
        (ih hrest (by simpa using hsize)).2 ⟨hall, ?_, ?_, ?_⟩⟩
      · exact bind_ok.2 ⟨_, orError_ok.2 hread, require_bind_ok.2 ⟨hnamed e List.mem_cons_self,
          require_bind_ok.2 ⟨hfold, bind_ok.2 ⟨_, writeLine_ok.2 ⟨hsize, rfl⟩, rfl⟩⟩⟩⟩
      · simp only [fileSize_append, fileSize_cons, fileSize_nil]
        omega
      · simp
      · rw [Bool.or_assoc]

theorem rewriteIndex_encode (hlib : lib.Lawful text) {entry : IndexEntry} {out : List String}
    (hnamed : ∀ e ∈ entries, e.name ≠ "" ∧ e.version ≠ "") :
    rewriteIndex text lib (encodeAll lib entries) entry = .ok out ↔
      Scannable text (encodeAll lib entries) ∧
        (∀ e ∈ entries, lib.equalFold e.name entry.name = true ∧ sameVersion lib e.version entry.version = false) ∧
        fileSize out ≤ maxIndexSize ∧ out = encodeAll lib (entries ++ [entry]) := by
  unfold rewriteIndex
  simp only [bind_ok, require_ok, exists_const, writeLine_ok, scanIndex_zero_ok]
  constructor
  · rintro ⟨⟨out₁, b⟩, ⟨hscan, hfold⟩, hexists, hsize, rfl⟩
    obtain ⟨hall, -, rfl, rfl⟩ := (foldlM_copyLine_encode hlib hnamed (by simp)).1 hfold
    refine ⟨hscan, fun e he => ⟨hall e he, ?_⟩, by simpa using hsize, ?_⟩
    · have hany : (entries.any fun e => sameVersion lib e.version entry.version) = false := by simpa using hexists
      simpa using List.any_eq_false.1 hany e he
    · rw [encodeAll_append]
      rfl
  · rintro ⟨hscan, hall, hsize, rfl⟩
    rw [encodeAll_append, fileSize_append] at hsize
    refine ⟨(encodeAll lib entries, false), ⟨hscan, (foldlM_copyLine_encode hlib hnamed (by simp)).2 ?_⟩, rfl,
      hsize, ?_⟩
    · refine ⟨fun e he => (hall e he).1, by simpa using hscan.total, rfl, ?_⟩
      rw [Bool.false_or, eq_comm, List.any_eq_false]
      intro e he
      simp [(hall e he).2]
    · rw [encodeAll_append]
      rfl

/-! #### One edit -/

theorem fileSize_filter_le (p : String → Bool) (lines : List String) : fileSize (lines.filter p) ≤ fileSize lines := by
  induction lines with
  | nil => exact le_rfl
  | cons line lines ih =>
    rw [List.filter_cons, fileSize_cons]
    split
    · rw [fileSize_cons]
      omega
    · omega

/-- The lines after an edit are those of the entries after it. -/
theorem rewrite_ok_iff (hlib : lib.Lawful text) (h : Listed lib entries) {out : List String} :
    edit.rewrite text lib (encodeAll lib entries) = .ok out ↔
      Scannable text (encodeAll lib entries) ∧ ∃ next, edit.apply lib entries = some next ∧
        fileSize (encodeAll lib next) ≤ maxIndexSize ∧ out = encodeAll lib next := by
  have hne : ∀ e ∈ entries, e.version ≠ "" := fun e he => (h.named e he).2
  cases edit with
  | publish release =>
    simp only [Edit.rewrite, mapError_ok, rewriteIndex_encode hlib h.named, Edit.apply, Option.ite_none_right_eq_some]
    refine and_congr_right fun _ => ?_
    constructor
    · rintro ⟨hall, hsize, rfl⟩
      exact ⟨_, ⟨hall, rfl⟩, hsize, rfl⟩
    · rintro ⟨next, ⟨hall, hnext⟩, hsize, rfl⟩
      cases hnext
      exact ⟨hall, hsize, rfl⟩
  | yank version yanked =>
    simp only [Edit.rewrite, bind_ok, mapError_ok, require_ok, exists_const, Prod.exists,
      rewriteYanked_ok hlib (h.nodup hlib) hne, Edit.apply, Option.ite_none_right_eq_some]
    constructor
    · rintro ⟨out₁, found, ⟨hscan, hsize, rfl, rfl⟩, hfound, hout⟩
      cases hout
      exact ⟨hscan, _, ⟨by simpa using hfound, rfl⟩, hsize, rfl⟩
    · rintro ⟨hscan, next, ⟨hfound, hnext⟩, hsize, rfl⟩
      cases hnext
      exact ⟨_, _, ⟨hscan, hsize, rfl, rfl⟩, by simpa using hfound, rfl⟩
  | remove version =>
    have hkeep : (encodeAll lib entries).filter (fun line => lineVersion lib line ≠ some version) =
        encodeAll lib (entries.filter fun e => e.version ≠ version) := by
      rw [encodeAll, List.filter_map, encodeAll]
      refine congrArg _ (List.filter_congr fun e _ => ?_)
      simp [lineVersion_encode hlib]
    have hfound : ((encodeAll lib entries).any fun line => lineVersion lib line = some version) = true ↔
        ∃ e ∈ entries, e.version = version := by
      simp [encodeAll, lineVersion_encode hlib]
    have hread : ∀ line ∈ encodeAll lib entries, ∃ v, lineVersion lib line = some v ∧ v ≠ "" := by
      intro line hline
      obtain ⟨e, he, rfl⟩ := List.mem_map.1 hline
      exact ⟨e.version, lineVersion_encode hlib e, hne e he⟩
    simp only [Edit.rewrite, bind_ok, mapError_ok, require_ok, exists_const, Prod.exists, rewriteRemoveVersion_ok, Edit.apply,
      Option.ite_none_right_eq_some]
    constructor
    · rintro ⟨out₁, removed, ⟨hscan, -, rfl, rfl⟩, hremoved, hout⟩
      cases hout
      refine ⟨hscan, _, ⟨hfound.1 hremoved, rfl⟩, ?_, hkeep⟩
      rw [← hkeep]
      exact (fileSize_filter_le _ _).trans hscan.total
    · rintro ⟨hscan, next, ⟨hex, hnext⟩, -, rfl⟩
      cases hnext
      exact ⟨_, _, ⟨hscan, hread, rfl, rfl⟩, hfound.2 hex, by rw [hkeep]; rfl⟩
  | flagAll desired =>
    simp only [Edit.rewrite, bind_ok, mapError_ok, require_ok, exists_const, Prod.exists, rewritePackageYanked_ok hlib hne,
      Edit.apply, Option.ite_none_right_eq_some]
    constructor
    · rintro ⟨out₁, updated, ⟨hscan, hall, hsize, rfl, rfl⟩, hcount, hout⟩
      cases hout
      exact ⟨hscan, _, ⟨⟨hall, hcount⟩, rfl⟩, hsize, rfl⟩
    · rintro ⟨hscan, next, ⟨⟨hall, hcount⟩, hnext⟩, hsize, rfl⟩
      cases hnext
      exact ⟨_, _, ⟨hscan, hall, hsize, rfl, rfl⟩, hcount, rfl⟩

theorem apply_listed (h : Listed lib entries) (happly : edit.apply lib entries = some next) : Listed lib next := by
  have hflag : ∀ desired, Listed lib (entries.map (·.flag desired)) := fun desired => by
    refine ⟨fun e he => ?_, List.pairwise_map.2 h.apart⟩
    obtain ⟨e₀, he₀, rfl⟩ := List.mem_map.1 he
    exact h.named e₀ he₀
  cases edit with
  | publish release =>
    obtain ⟨hall, hnext⟩ := Option.ite_none_right_eq_some.1 happly
    cases hnext
    refine ⟨fun e he => ?_, List.pairwise_append.2 ⟨h.apart, List.pairwise_singleton _ _, fun a ha b hb => ?_⟩⟩
    · rcases List.mem_append.1 he with he | he
      · exact h.named e he
      · rw [List.mem_singleton.1 he]
        exact release.named
    · rw [List.mem_singleton.1 hb]
      exact (hall a ha).2
  | yank version yanked =>
    obtain ⟨-, hnext⟩ := Option.ite_none_right_eq_some.1 happly
    cases hnext
    exact hflag _
  | remove version =>
    obtain ⟨-, hnext⟩ := Option.ite_none_right_eq_some.1 happly
    cases hnext
    exact ⟨fun e he => h.named e (List.mem_of_mem_filter he), h.apart.sublist List.filter_sublist⟩
  | flagAll desired =>
    obtain ⟨-, hnext⟩ := Option.ite_none_right_eq_some.1 happly
    cases hnext
    exact hflag _

/-! #### Runs -/

theorem Edit.Run.listed {edits : List Edit} {last : List IndexEntry} (hrun : Edit.Run lib text entries edits last)
    (h : Listed lib entries) :
    Listed lib last := by
  induction hrun with
  | nil entries => exact h
  | cons hscan happly hsize hrest ih => exact ih (apply_listed h happly)

theorem rewriteAll_from (hlib : lib.Lawful text) (edits : List Edit) (entries : List IndexEntry) (h : Listed lib entries)
    (lines : List String) :
    rewriteAll text lib edits (encodeAll lib entries) = .ok lines ↔
      ∃ last, Edit.Run lib text entries edits last ∧ lines = encodeAll lib last := by
  induction edits generalizing entries with
  | nil =>
    constructor
    · intro hlines
      cases hlines
      exact ⟨entries, .nil entries, rfl⟩
    · rintro ⟨last, hrun, rfl⟩
      cases hrun
      rfl
  | cons edit edits ih =>
    unfold rewriteAll
    rw [List.foldlM_cons, bind_ok]
    constructor
    · rintro ⟨lines₁, hrewrite, hrest⟩
      obtain ⟨hscan, next, happly, hsize, rfl⟩ := (rewrite_ok_iff hlib h).1 hrewrite
      obtain ⟨last, hrun, hlines⟩ := (ih next (apply_listed h happly)).1 hrest
      exact ⟨last, .cons hscan happly hsize hrun, hlines⟩
    · rintro ⟨last, hrun, rfl⟩
      cases hrun with
      | cons hscan happly hsize hrest =>
        exact ⟨_, (rewrite_ok_iff hlib h).2 ⟨hscan, _, happly, hsize, rfl⟩,
          (ih _ (apply_listed h happly)).2 ⟨last, hrest, rfl⟩⟩

theorem listed_nil : Listed lib [] := ⟨fun _ he => absurd he List.not_mem_nil, List.Pairwise.nil⟩

/-- A run of rewrites of a new index succeeds exactly when the edits may be made one after the other; its lines are then those
of the entries, in which no version is there twice. -/
theorem rewriteAll_refines (hlib : lib.Lawful text) (edits : List Edit) (lines : List String) :
    rewriteAll text lib edits [] = .ok lines ↔
      ∃ entries, Edit.Run lib text [] edits entries ∧ Listed lib entries ∧ lines = encodeAll lib entries := by
  refine (rewriteAll_from hlib edits [] listed_nil lines).trans (exists_congr fun entries => ?_)
  constructor
  · rintro ⟨hrun, hlines⟩
    exact ⟨hrun, hrun.listed listed_nil, hlines⟩
  · rintro ⟨hrun, -, hlines⟩
    exact ⟨hrun, hlines⟩

/-! #### Two edits -/

theorem flag_flag_single {version : String} {b b' : Bool} (e : IndexEntry) :
    (e.flag (single version b)).flag (single version b') = e.flag (single version b') := by
  by_cases heq : e.version = version <;> simp [IndexEntry.flag, single, heq]

theorem apply_publish_remove (hlib : lib.Lawful text) {release : Release}
    (happly : (Edit.publish release).apply lib entries = some next) :
    (Edit.remove release.entry.version).apply lib next = some entries := by
  obtain ⟨hall, hnext⟩ := Option.ite_none_right_eq_some.1 happly
  cases hnext
  have hne : ∀ e ∈ entries, e.version ≠ release.entry.version := by
    intro e he heq
    have hsame := (hall e he).2
    rw [heq, sameVersion_self hlib] at hsame
    cases hsame
  simp only [Edit.apply]
  rw [if_pos ⟨release.entry, by simp, rfl⟩, List.filter_append, List.filter_eq_self.2 (by simpa using hne)]
  simp

theorem apply_yank_again {version : String} {b : Bool} (happly : (Edit.yank version b).apply lib entries = some next) :
    (∀ b', (Edit.yank version b').apply lib next = (Edit.yank version b').apply lib entries) ∧
      (Edit.remove version).apply lib next = (Edit.remove version).apply lib entries := by
  obtain ⟨⟨e, he, hversion⟩, hnext⟩ := Option.ite_none_right_eq_some.1 happly
  cases hnext
  have hthere : ∃ e ∈ entries.map (·.flag (single version b)), e.version = version :=
    ⟨e.flag (single version b), List.mem_map_of_mem he, hversion⟩
  refine ⟨fun b' => ?_, ?_⟩ <;> simp only [Edit.apply] <;> rw [if_pos hthere, if_pos ⟨e, he, hversion⟩]
  · rw [List.map_map]
    exact congrArg some (List.map_congr_left fun e _ => flag_flag_single e)
  · rw [List.filter_map]
    refine congrArg some ((List.map_congr_left fun e he => ?_).trans (List.map_id _))
    have hne : e.version ≠ version := of_decide_eq_true (List.mem_filter.1 he).2
    simp [IndexEntry.flag, single, hne]

/-- In any index that was written by rewrites, removing what was just published gives back the lines as long as the new one
can be scanned, and the last of two flags, or a removal after a flag, does what it would have done alone. -/
theorem edits_exact (hlib : lib.Lawful text) (edits : List Edit) {lines : List String}
    (hrun : rewriteAll text lib edits [] = .ok lines) :
    (∀ release lines₁ lines₂, (Edit.publish release).rewrite text lib lines = .ok lines₁ →
      ((Edit.remove release.entry.version).rewrite text lib lines₁ = .ok lines₂ ↔
        (lib.encode release.entry).utf8ByteSize < maxIndexLineSize ∧ lines₂ = lines)) ∧
    ∀ version b lines₁ lines₂, (Edit.yank version b).rewrite text lib lines = .ok lines₁ →
      ((Edit.remove version).rewrite text lib lines₁ = .ok lines₂ → (Edit.remove version).rewrite text lib lines =
        .ok lines₂) ∧ ∀ b', (Edit.yank version b').rewrite text lib lines₁ = .ok lines₂ →
        (Edit.yank version b').rewrite text lib lines = .ok lines₂ := by
  obtain ⟨entries, hentries, rfl⟩ := (rewriteAll_from hlib edits [] listed_nil lines).1 hrun
  have hlisted := hentries.listed listed_nil
  have hsame : ∀ {e e' : Edit} {lines₁ : List String} (lines₂ : List String),
    e.rewrite text lib (encodeAll lib entries) =
    .ok lines₁ →
      e'.rewrite text lib lines₁ = .ok lines₂ →
      (∀ {next}, e.apply lib entries = some next → e'.apply lib next = e'.apply lib entries) →
      e'.rewrite text lib (encodeAll lib entries) = .ok lines₂ := by
    intro e e' lines₁ lines₂ hfirst hsecond happlied
    obtain ⟨hscan, next, happly, -, rfl⟩ := (rewrite_ok_iff hlib hlisted).1 hfirst
    obtain ⟨-, last, hlast, hsize, rfl⟩ := (rewrite_ok_iff hlib (apply_listed hlisted happly)).1 hsecond
    exact (rewrite_ok_iff hlib hlisted).2 ⟨hscan, last, (happlied happly) ▸ hlast, hsize, rfl⟩
  refine ⟨fun release lines₁ lines₂ hpublish => ?_, fun version b lines₁ lines₂ hyank =>
    ⟨fun hremove => ?_, fun b' hagain => ?_⟩⟩
  · obtain ⟨hscan, next, happly, hsize, rfl⟩ := (rewrite_ok_iff hlib hlisted).1 hpublish
    rw [rewrite_ok_iff hlib (apply_listed hlisted happly), apply_publish_remove hlib happly]
    have hnext : next = entries ++ [release.entry] := (Option.some.inj (Option.ite_none_right_eq_some.1 happly).2).symm
    subst hnext
    rw [encodeAll_append] at hsize ⊢
    constructor
    · rintro ⟨hscan', last, hlast, -, rfl⟩
      cases hlast
      exact ⟨(hscan'.line _ (List.mem_append_right _ (List.mem_singleton_self _))).1, rfl⟩
    · rintro ⟨hline, rfl⟩
      refine ⟨⟨fun line hl => ?_, hsize⟩, entries, rfl, hscan.total, rfl⟩
      rcases List.mem_append.1 hl with hl | hl
      · exact hscan.line line hl
      · rw [List.mem_singleton.1 hl]
        exact ⟨hline, hlib.encode_nonblank _⟩
  · exact hsame _ hyank hremove fun h => (apply_yank_again h).2
  · exact hsame _ hyank hagain fun h => (apply_yank_again h).1 b'

end Specs

/-! ### Fixed inputs -/

def bareText : Text := ⟨id, id, fun _ => true, fun _ => ""⟩

def demoRelease : Release := ⟨⟨"d", "1", "", false, ""⟩, by decide⟩

theorem rewriteAll_refines_demo :
    ∃ entries, Edit.Run plainLib bareText [] [.publish demoRelease, .yank "1" true] entries ∧ Listed plainLib entries ∧
      [plainEncode { demoRelease.entry with yanked := true }] = encodeAll plainLib entries :=
  (rewriteAll_refines (plainLib_lawful rfl) [.publish demoRelease, .yank "1" true] _).1 rfl

def earlierRelease : Release := ⟨⟨"d", "0", "", false, ""⟩, by decide⟩

/-- After an earlier version: the removal of the new one, and the earlier one unyanked again. -/
theorem edits_exact_demo :
    (Edit.remove "1").rewrite bareText plainLib [plainEncode earlierRelease.entry, plainEncode demoRelease.entry] =
      .ok [plainEncode earlierRelease.entry] ∧
    (Edit.yank "0" false).rewrite bareText plainLib [plainEncode earlierRelease.entry] =
      .ok [plainEncode earlierRelease.entry] := by
  have hrun : rewriteAll bareText plainLib [.publish earlierRelease] [] = .ok [plainEncode earlierRelease.entry] := rfl
  have hpublish : (Edit.publish demoRelease).rewrite bareText plainLib [plainEncode earlierRelease.entry] =
      .ok [plainEncode earlierRelease.entry, plainEncode demoRelease.entry] := rfl
  have hline : (plainEncode demoRelease.entry).utf8ByteSize < maxIndexLineSize := by decide +kernel
  have hyank : (Edit.yank "0" true).rewrite bareText plainLib [plainEncode earlierRelease.entry] =
      .ok [plainEncode { earlierRelease.entry with yanked := true }] := rfl
  obtain ⟨hremoved, hyanked⟩ := edits_exact (plainLib_lawful rfl) [.publish earlierRelease] hrun
  exact ⟨(hremoved demoRelease _ _ hpublish).2 ⟨hline, rfl⟩, (hyanked "0" true _ _ hyank).2 false rfl⟩

end Renop.Cargo
