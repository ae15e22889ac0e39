import Mathlib.Logic.Relation
import Renop.Cargo

/-!
# Yanking and archiving

The reference model has two flags: `own`, set by the last explicit yank or unyank of a version, and the
`archived` flag of its package; a version should be shown as yanked if one of them is set. The code does
not store `own`. `Flags` says how it is coded in the three flags of the row: while the package is not
archived `yanked` is `own`, and while it is archived, `own` holds if archiving found the version yanked
(`archiveYanked` is unset) or an administrator yanked it.

Two calls break the coding. A mirror adds a version to an archived package and leaves it unyanked, and a
yank by a non-administrator of a version that only the archive holds back leaves `archiveYanked` set, so
that restoring the package undoes it. `Event.Clean` excludes these two and nothing else.
-/

namespace Renop.Cargo

open Sql

variable {text : Text}

/-! ### What the calls do to the flags -/

def DB.archived? (db : DB) (key : Key) : Option Bool := (db.packages.find? key).map (·.archived)

theorem find?_updatePackage (db : DB) (key k : Key) (f : CargoPackage → CargoPackage) :
    (db.updatePackage key f).packages.find? k = (db.packages.find? k).map fun p =>
      if k = key then { f p with repository := p.repository, normalizedName := p.normalizedName } else p := by
  unfold DB.updatePackage
  rw [Table.find?_update]
  cases hp : db.packages.find? k with
  | none => rfl
  | some p => simp only [Option.map_some, (Table.find?_eq_some.1 hp).2]

theorem find?_updatePackage_ne_none {db : DB} {key k : Key} {f : CargoPackage → CargoPackage} :
    (db.updatePackage key f).packages.find? k ≠ none ↔ db.packages.find? k ≠ none := by
  rw [find?_updatePackage]
  simp

theorem archived?_updatePackage {db : DB} {key : Key} {f : CargoPackage → CargoPackage}
    (hf : ∀ p, (f p).archived = p.archived) (k : Key) : (db.updatePackage key f).archived? k = db.archived? k := by
  rw [DB.archived?, find?_updatePackage, DB.archived?, Option.map_map]
  congr 1
  funext p
  dsimp only [Function.comp]
  split <;> simp [hf]

theorem describe_archived (p q : CargoPackage) : (p.describe q).archived = q.archived := rfl

theorem describeMirrored_archived (p : CargoPackage) (updatedAt : Int) (q : CargoPackage) :
    (p.describeMirrored updatedAt q).archived = q.archived := rfl

theorem archived?_insert {db : DB} {packages : Table CargoPackage.key} {p : CargoPackage} {e : CargoError}
    (h : db.packages.insert p e = .ok packages) (hnone : db.packages.find? p.key = none) (k : Key) :
    ({ db with packages := packages } : DB).archived? k = if k = p.key then some p.archived else db.archived? k := by
  obtain ⟨-, hrows⟩ := Table.insert_ok h
  simp only [DB.archived?, Table.find?, hrows, List.find?_append]
  split
  · rename_i hk
    subst hk
    have : db.packages.rows.find? (fun a => a.key = p.key) = none := hnone
    simp [this]
  · rename_i hk
    simp [Ne.symm hk]

/-- The packages and versions after a call that adds the version `v`. -/
structure Adds (db db' : DB) (v : CargoVersion) : Prop where
  rows : db'.versions.rows = db.versions.rows ++ [v]
  unset : v.yanked = false ∧ v.adminYanked = false ∧ v.archiveYanked = false
  absent : db.version? v.key v.version = none
  package : ∃ a, db'.archived? v.key = some a
  kept : ∀ k a, db.archived? k = some a → db'.archived? k = some a

theorem ensureUserProfile_frame {db db' : DB} {username newID userID : String}
    (h : ensureUserProfile text db username newID = .ok (userID, db')) :
    ∃ profiles, db' = { db with profiles := profiles } := by
  obtain ⟨-, h⟩ := require_bind_ok.1 h
  split at h
  · cases h
    exact ⟨db.profiles, rfl⟩
  · obtain ⟨-, h⟩ := require_bind_ok.1 h
    obtain ⟨profiles, -, h⟩ := bind_ok.1 h
    cases h
    exact ⟨profiles, rfl⟩

theorem insertMember_frame {db db' : DB} {m : CargoMember} (h : db.insertMember m = .ok db') :
    ∃ members, db' = { db with members := members } := by
  obtain ⟨-, h⟩ := require_bind_ok.1 h
  obtain ⟨members, -, h⟩ := bind_ok.1 h
  cases h
  exact ⟨members, rfl⟩

theorem joinCargoPackage_archived {db db' : DB} {p : CargoPackage} {username userID : String}
    (h : joinCargoPackage db p username userID = .ok db') :
    db'.versions = db.versions ∧ db'.archived? p.key = some false ∧
      ∀ k a, db.archived? k = some a → db'.archived? k = some a := by
  unfold joinCargoPackage at h
  split at h
  · rename_i hnone
    obtain ⟨packages, hins, h⟩ := bind_ok.1 h
    obtain ⟨members, rfl⟩ := insertMember_frame h
    have harch := archived?_insert hins hnone
    refine ⟨rfl, (harch p.key).trans (if_pos rfl), fun k a hk => ?_⟩
    have hne : k ≠ p.key := by
      rintro rfl
      simp [DB.archived?, hnone] at hk
    exact ((harch k).trans (if_neg hne)).trans hk
  · rename_i stored hstored
    obtain ⟨ha, h⟩ := require_bind_ok.1 h
    obtain ⟨-, h⟩ := require_bind_ok.1 h
    obtain ⟨permission, -, h⟩ := bind_ok.1 h
    obtain ⟨-, h⟩ := require_bind_ok.1 h
    cases h
    exact ⟨rfl, by simp [DB.archived?, hstored, ha], fun _ _ hk => hk⟩

theorem recordCargoPublication_adds {db db' : DB} {pkg : CargoPackage} {version : CargoVersion}
    {username newID : String} (h : recordCargoPublication text db pkg version username newID = .ok db') :
    ∃ v, Adds db db' v ∧ db'.archived? v.key = some false := by
  obtain ⟨-, h⟩ := require_bind_ok.1 h
  obtain ⟨⟨userID, db₁⟩, hprofile, h⟩ := bind_ok.1 h
  obtain ⟨-, -, h⟩ := bind_ok.1 h
  obtain ⟨-, -, h⟩ := bind_ok.1 h
  obtain ⟨db₂, hjoin, h⟩ := bind_ok.1 h
  obtain ⟨habsent, h⟩ := require_bind_ok.1 h
  obtain ⟨versions, hins, h⟩ := bind_ok.1 h
  cases h
  have hframe : ∃ profiles, db₁ = { db with profiles := profiles } := by
    cases hp : ensureUserProfile text db (sanitizeCargoUsername text username) newID with
    | error e => rw [hp] at hprofile; cases hprofile
    | ok r => rw [hp] at hprofile; cases hprofile; exact ensureUserProfile_frame hp
  obtain ⟨profiles, rfl⟩ := hframe
  obtain ⟨hversions, hfalse, hkept⟩ := joinCargoPackage_archived hjoin
  have harch := @archived?_updatePackage { db₂ with versions := versions } ((sanitizedPackage text pkg).key)
    ((sanitizedPackage text pkg).describe) (describe_archived _)
  refine ⟨publishedVersion text (sanitizedPackage text pkg) version (sanitized text version.version 128)
      (sanitizeCargoUsername text username),
    ⟨?_, ⟨rfl, rfl, rfl⟩, ?_, ⟨false, (harch _).trans hfalse⟩, fun k a hk => (harch k).trans (hkept k a hk)⟩,
    (harch _).trans hfalse⟩
  · rw [← hversions]
    exact (Table.insert_ok hins).2
  · rw [DB.version?, ← hversions]
    exact habsent

theorem joinMirroredPackage_archived {db db' : DB} {p : CargoPackage} {createdAt updatedAt : Int}
    (h : joinMirroredPackage db p createdAt updatedAt = .ok db') :
    db'.versions = db.versions ∧ (∃ a, db'.archived? p.key = some a) ∧
      (∀ k a, db.archived? k = some a → db'.archived? k = some a) ∧
      (db.archived? p.key = none → db'.archived? p.key = some false) := by
  unfold joinMirroredPackage at h
  split at h
  · rename_i hnone
    obtain ⟨packages, hins, h⟩ := bind_ok.1 h
    cases h
    have harch := archived?_insert hins hnone
    refine ⟨rfl, ⟨false, (harch p.key).trans (if_pos rfl)⟩, fun k a hk => ?_, fun _ =>
      (harch p.key).trans (if_pos rfl)⟩
    have hne : k ≠ p.key := by
      rintro rfl
      simp [DB.archived?, hnone] at hk
    exact ((harch k).trans (if_neg hne)).trans hk
  · rename_i stored hstored
    obtain ⟨-, h⟩ := require_bind_ok.1 h
    cases h
    have harch := @archived?_updatePackage db p.key (p.describeMirrored updatedAt) (describeMirrored_archived p updatedAt)
    refine ⟨rfl, ⟨stored.archived, ?_⟩, fun k a hk => (harch k).trans hk, fun hk => ?_⟩
    · rw [harch]
      simp [DB.archived?, hstored]
    · simp [DB.archived?, hstored] at hk

theorem recordCargoMirrorPublication_cases {db db' : DB} {pkg : CargoPackage} {version : CargoVersion} {now : Int}
    (h : recordCargoMirrorPublication text db pkg version now = .ok db') :
    (∃ v, Adds db db' v ∧ v.id = ((sanitizedPackage text pkg).key, sanitized text version.version 128) ∧
      (db.archived? v.key = none → db'.archived? v.key = some false) ∧ v.version ≠ "" ∧
      ∀ p, db.packages.find? v.key = some p → p.name = (sanitizedPackage text pkg).name) ∨
    (∃ f : CargoVersion → CargoVersion, db'.versions.rows = db.versions.rows.map f ∧
      (∀ v, (f v).id = v.id ∧ (f v).yanked = v.yanked ∧ (f v).adminYanked = v.adminYanked ∧
        (f v).archiveYanked = v.archiveYanked) ∧
      ∀ k a, db.archived? k = some a → db'.archived? k = some a) := by
  obtain ⟨⟨-, -, -, hversion⟩, h⟩ := require_bind_ok.1 h
  obtain ⟨db₁, hjoin, h⟩ := bind_ok.1 h
  obtain ⟨hversions, ⟨a, ha⟩, hkept, hnew⟩ := joinMirroredPackage_archived hjoin
  split at h
  · rename_i habsent
    obtain ⟨versions, hins, h⟩ := bind_ok.1 h
    cases h
    refine .inl ⟨mirroredVersion (sanitizedPackage text pkg) version (sanitized text version.version 128)
        (if pkg.createdAt ≤ 0 then now else pkg.createdAt),
      ⟨?_, ⟨rfl, rfl, rfl⟩, ?_, ⟨a, ha⟩, hkept⟩, rfl, hnew, hversion, ?_⟩
    · rw [← hversions]
      exact (Table.insert_ok hins).2
    · rw [DB.version?, ← hversions]
      exact habsent
    · intro p (hp : db.packages.find? (sanitizedPackage text pkg).key = some p)
      unfold joinMirroredPackage at hjoin
      rw [hp] at hjoin
      exact (require_bind_ok.1 hjoin).1
  · cases h
    refine .inr ⟨_, by rw [← hversions]; rfl, fun v => ?_, hkept⟩
    dsimp only
    split <;> exact ⟨rfl, rfl, rfl, rfl⟩

theorem setCargoVersionYanked_ok {db db' : DB} {repository normalizedName version : String} {yanked administrator : Bool}
    (h : setCargoVersionYanked text db repository normalizedName version yanked administrator = .ok db') :
    let key := sanitizeCargoKey text repository normalizedName
    let name := sanitized text version 128
    (∀ k, db'.archived? k = db.archived? k) ∧
    ∃ a stored, db.archived? key = some a ∧ db.version? key name = some stored ∧ (yanked = true ∨ a = false) ∧
      (yanked = true ∨ stored.adminYanked = false ∨ administrator = true) ∧
      db'.versions.rows = db.versions.rows.map fun v => if v.id = (key, name) then
        { v with yanked := yanked, adminYanked := if administrator then yanked else stored.adminYanked } else v := by
  intro key name
  obtain ⟨package, hpackage, h⟩ := bind_ok.1 h
  obtain ⟨stored, hstored, h⟩ := bind_ok.1 h
  obtain ⟨harch, h⟩ := require_bind_ok.1 h
  obtain ⟨hadmin, h⟩ := require_bind_ok.1 h
  cases h
  refine ⟨fun _ => rfl, package.archived, stored, ?_, orError_ok.1 hstored, harch, hadmin, ?_⟩
  · rw [DB.archived?, orError_ok.1 hpackage, Option.map_some]
  · refine List.map_congr_left fun v _ => ?_
    simp only [CargoVersion.id, Prod.mk.injEq, Bool.and_eq_true, decide_eq_true_eq, key, name]

theorem setCargoPackageArchived_ok {db db' : DB} {repository normalizedName : String} {archived administrator : Bool}
    (h : setCargoPackageArchived text db repository normalizedName archived administrator = .ok db') :
    let key := sanitizeCargoKey text repository normalizedName
    (∃ a, db.archived? key = some a) ∧
    (∀ k, db'.archived? k = if k = key then some archived else db.archived? k) ∧
    db'.versions.rows = db.versions.rows.map fun v => if v.key = key then archiveVersion archived v else v := by
  intro key
  obtain ⟨package, hpackage, h⟩ := bind_ok.1 h
  obtain ⟨-, h⟩ := require_bind_ok.1 h
  cases h
  have hfind : db.packages.find? key = some package := orError_ok.1 hpackage
  refine ⟨⟨package.archived, by rw [DB.archived?, hfind, Option.map_some]⟩, fun k => ?_, ?_⟩
  · rw [DB.archived?, find?_updatePackage]
    split
    · rename_i hk
      subst hk
      change ((db.packages.find? key).map _).map _ = _
      simp [hfind]
    · change ((db.packages.find? k).map _).map _ = _
      simp [DB.archived?]
  · refine List.map_congr_left fun v _ => ?_
    simp only [decide_eq_true_eq]
    split
    · unfold archiveVersion
      split <;> rfl
    · rfl

/-! ### The reference model -/

/-- An explicit yank or unyank, and who made it. -/
structure Explicit where
  yanked : Bool
  administrator : Bool
deriving DecidableEq, Repr

inductive Call
  | publish (pkg : CargoPackage) (version : CargoVersion) (username newID : String)
  | mirror (pkg : CargoPackage) (version : CargoVersion) (now : Int)
  | setYanked (repository normalizedName version : String) (yanked administrator : Bool)
  | setArchived (repository normalizedName : String) (archived administrator : Bool)

namespace Call

def run (text : Text) (db : DB) : Call → Except CargoError DB
  | publish pkg version username newID => recordCargoPublication text db pkg version username newID
  | mirror pkg version now => recordCargoMirrorPublication text db pkg version now
  | setYanked repository normalizedName version yanked administrator =>
    setCargoVersionYanked text db repository normalizedName version yanked administrator
  | setArchived repository normalizedName archived administrator =>
    setCargoPackageArchived text db repository normalizedName archived administrator

def byAdministrator : Call → Bool
  | publish .. => false
  | mirror .. => false
  | setYanked _ _ _ _ administrator => administrator
  | setArchived _ _ _ administrator => administrator

end Call

/-- The tables, and the last explicit yank or unyank of each version. -/
structure YankState where
  db : DB
  last : Key → String → Option Explicit

/-- A call, or a change of tables that the calls only read. -/
inductive Event
  | call (c : Call)
  | other (db : DB)

def own (last : Option Explicit) : Bool := (last.map (·.yanked)).getD false

namespace YankState

def start (db : DB) : YankState := ⟨db, fun _ _ => none⟩

def note (text : Text) (s : YankState) : Call → Key → String → Option Explicit
  | .setYanked repository normalizedName version yanked administrator => fun k n =>
    if (k, n) = (sanitizeCargoKey text repository normalizedName, sanitized text version 128) then
      some ⟨yanked, administrator⟩
    else s.last k n
  | _ => s.last

def step (text : Text) (s : YankState) : Event → YankState
  | .call c => match c.run text s.db with
    | .ok db => ⟨db, s.note text c⟩
    | .error _ => s
  | .other db => ⟨{ db with packages := s.db.packages, versions := s.db.versions }, s.last⟩

/-- The stored flag of every version is what the reference model says. -/
def Agrees (s : YankState) : Prop :=
  ∀ p ∈ s.db.packages.rows, ∀ v ∈ s.db.versions.rows, v.key = p.key →
    v.yanked = (own (s.last v.key v.version) || p.archived)

end YankState

/-- The two calls that break the coding of `own` are left out: a mirror that adds a version to an archived package, and
a non-administrator's yank of a version that is yanked by the archive alone. -/
def Event.Clean (text : Text) (s : YankState) : Event → Prop
  | .call (.mirror pkg version _) =>
    let p := sanitizedPackage text pkg
    let name := sanitized text version.version 128
    ∀ stored, s.db.packages.find? p.key = some stored → stored.name = p.name → name ≠ "" →
      s.db.version? p.key name = none → stored.archived = false
  | .call (.setYanked repository normalizedName version true false) =>
    ∀ v, s.db.version? (sanitizeCargoKey text repository normalizedName) (sanitized text version 128) = some v →
      v.archiveYanked = true → v.adminYanked = true
  | _ => True

/-- `Run text good s s'`: a run from `s` to `s'` whose events are all `good` when they happen. -/
def Run (text : Text) (good : YankState → Event → Prop) : YankState → YankState → Prop :=
  Relation.ReflTransGen fun s s' => ∃ e, good s e ∧ s' = s.step text e

/-! ### The coding of `own` -/

/-- How the flags of a row code `own`, in a package that is archived or not. -/
structure Flags (archived : Bool) (last : Option Explicit) (v : CargoVersion) : Prop where
  shown : archived = false → v.archiveYanked = false ∧ v.yanked = own last
  hidden : archived = true → v.yanked = true ∧ (own last = true ↔ v.archiveYanked = false ∨ v.adminYanked = true)
  admin : v.adminYanked = true → own last = true

namespace Flags

variable {a : Bool} {last : Option Explicit} {v w : CargoVersion}

theorem yanked (h : Flags a last v) : v.yanked = (own last || a) := by
  cases a with
  | false => simp [h.shown rfl]
  | true => simp [h.hidden rfl]

theorem congr (h : Flags a last v) (hy : w.yanked = v.yanked) (ha : w.adminYanked = v.adminYanked)
    (hr : w.archiveYanked = v.archiveYanked) : Flags a last w :=
  ⟨by rw [hy, hr]; exact h.shown, by rw [hy, ha, hr]; exact h.hidden, by rw [ha]; exact h.admin⟩

theorem unset (hy : v.yanked = false) (ha : v.adminYanked = false) (hr : v.archiveYanked = false) :
    Flags false none v :=
  ⟨fun _ => ⟨hr, hy⟩, nofun, by simp [ha]⟩

theorem archive (h : Flags a last v) (archived : Bool) : Flags archived last (archiveVersion archived v) := by
  have hadmin := h.admin
  cases a with
  | false =>
    obtain ⟨hr, hy⟩ := h.shown rfl
    cases archived with
    | true =>
      refine ⟨nofun, fun _ => ⟨rfl, ?_⟩, hadmin⟩
      cases ho : own last <;> simp_all [archiveVersion]
    | false => exact ⟨fun _ => ⟨rfl, by simp [archiveVersion, hr, hy]⟩, nofun, hadmin⟩
  | true =>
    obtain ⟨hy, hiff⟩ := h.hidden rfl
    cases archived with
    | true => exact ⟨nofun, fun _ => ⟨rfl, by simpa [archiveVersion, hy] using hiff⟩, hadmin⟩
    | false =>
      refine ⟨fun _ => ⟨rfl, ?_⟩, nofun, hadmin⟩
      cases ho : own last <;> simp_all [archiveVersion]

theorem setYanked (h : Flags a last v) {yanked administrator : Bool} (hv : v = w) (hopen : yanked = true ∨ a = false)
    (hadmin : yanked = true ∨ v.adminYanked = false ∨ administrator = true)
    (hclean : yanked = true → administrator = false → v.archiveYanked = true → v.adminYanked = true) :
    Flags a (some ⟨yanked, administrator⟩)
      { v with yanked := yanked, adminYanked := if administrator then yanked else w.adminYanked } := by
  subst hv
  have hshown := h.shown
  cases yanked with
  | false =>
    obtain rfl : a = false := by simpa using hopen
    refine ⟨fun _ => ⟨(hshown rfl).1, rfl⟩, nofun, ?_⟩
    cases administrator <;> simp_all
  | true =>
    refine ⟨fun ha => ⟨(hshown ha).1, rfl⟩, fun _ => ⟨rfl, ?_⟩, fun _ => rfl⟩
    cases administrator with
    | true => simp [own]
    | false =>
      have := hclean rfl rfl
      cases hr : v.archiveYanked <;> simp_all [own]

end Flags

namespace YankState

variable {s : YankState} {c : Call} {db : DB}

/-- Kept by every call: an explicit yank or unyank is of a stored version, and an administrator's yank is marked. -/
structure Marked (s : YankState) : Prop where
  stored : ∀ k n, s.last k n ≠ none → s.db.version? k n ≠ none
  admin : ∀ v ∈ s.db.versions.rows, s.last v.key v.version = some ⟨true, true⟩ → v.adminYanked = true

/-- Kept by the clean calls. -/
structure Coded (s : YankState) : Prop where
  known : ∀ v ∈ s.db.versions.rows, ∃ a, s.db.archived? v.key = some a
  flags : ∀ v ∈ s.db.versions.rows, ∀ a, s.db.archived? v.key = some a → Flags a (s.last v.key v.version) v

theorem Coded.agrees (h : s.Coded) : s.Agrees := by
  intro p hp v hv hkey
  have harch : s.db.archived? v.key = some p.archived := by
    rw [DB.archived?, Table.find?_eq_some.2 ⟨hp, hkey.symm⟩, Option.map_some]
  exact (h.flags v hv _ harch).yanked

theorem version?_isSome_of_mem {v : CargoVersion} (hv : v ∈ db.versions.rows) : db.version? v.key v.version ≠ none := by
  have : db.version? v.key v.version = some v := Table.find?_eq_some.2 ⟨hv, rfl⟩
  simp [this]

theorem mem_of_version? {k : Key} {n : String} (h : db.version? k n ≠ none) :
    ∃ v ∈ db.versions.rows, v.key = k ∧ v.version = n := by
  obtain ⟨v, hv⟩ := Option.ne_none_iff_exists'.1 h
  obtain ⟨hmem, hid⟩ := Table.find?_eq_some.1 hv
  exact ⟨v, hmem, congrArg Prod.fst hid, congrArg Prod.snd hid⟩

/-! ### Adding a version -/

theorem Marked.adds {v : CargoVersion} (h : s.Marked) (ha : Adds s.db db v) : Marked ⟨db, s.last⟩ := by
  refine ⟨fun k n hl => ?_, fun w hw hlast => ?_⟩
  · obtain ⟨w, hw, rfl, rfl⟩ := mem_of_version? (h.stored k n hl)
    exact version?_isSome_of_mem (by rw [ha.rows]; exact List.mem_append_left _ hw)
  · rcases List.mem_append.1 (ha.rows ▸ hw) with hw | hw
    · exact h.admin w hw hlast
    · obtain rfl := List.mem_singleton.1 hw
      have hlast : s.last w.key w.version = some ⟨true, true⟩ := hlast
      exact absurd ha.absent (h.stored w.key w.version (by rw [hlast]; exact Option.some_ne_none _))

theorem Coded.adds {v : CargoVersion} (hm : s.Marked) (h : s.Coded) (ha : Adds s.db db v)
    (hopen : db.archived? v.key = some false) : Coded ⟨db, s.last⟩ := by
  refine ⟨fun w hw => ?_, fun w hw a harch => ?_⟩
  · rcases List.mem_append.1 (ha.rows ▸ hw) with hw | hw
    · obtain ⟨a, hka⟩ := h.known w hw
      exact ⟨a, ha.kept _ a hka⟩
    · obtain rfl := List.mem_singleton.1 hw
      exact ha.package
  · rcases List.mem_append.1 (ha.rows ▸ hw) with hw | hw
    · obtain ⟨b, hkb⟩ := h.known w hw
      obtain rfl : b = a := Option.some.inj ((ha.kept _ b hkb).symm.trans harch)
      exact h.flags w hw b hkb
    · obtain rfl := List.mem_singleton.1 hw
      obtain rfl : false = a := Option.some.inj (hopen.symm.trans harch)
      have hnone : s.last w.key w.version = none := by
        by_contra hl
        exact hm.stored _ _ hl ha.absent
      change Flags false (s.last w.key w.version) w
      rw [hnone]
      exact Flags.unset ha.unset.1 ha.unset.2.1 ha.unset.2.2

/-! ### Changing flags -/

theorem Marked.map {f : CargoVersion → CargoVersion} {last : Key → String → Option Explicit}
    (hrows : db.versions.rows = s.db.versions.rows.map f) (hid : ∀ v, (f v).id = v.id)
    (hstored : ∀ k n, last k n ≠ none → s.db.version? k n ≠ none)
    (hadmin : ∀ v ∈ s.db.versions.rows, last v.key v.version = some ⟨true, true⟩ → (f v).adminYanked = true) :
    Marked ⟨db, last⟩ := by
  have hkey : ∀ v, (f v).key = v.key ∧ (f v).version = v.version := fun v => Prod.mk.inj (hid v)
  refine ⟨fun k n hl => ?_, fun w hw hlast => ?_⟩
  · obtain ⟨v, hv, rfl, rfl⟩ := mem_of_version? (hstored k n hl)
    have := @version?_isSome_of_mem db (f v) (by rw [hrows]; exact List.mem_map_of_mem hv)
    rwa [(hkey v).1, (hkey v).2] at this
  · obtain ⟨v, hv, rfl⟩ := List.mem_map.1 (hrows ▸ hw)
    refine hadmin v hv ?_
    rwa [(hkey v).1, (hkey v).2] at hlast

theorem Coded.map {f : CargoVersion → CargoVersion} {last : Key → String → Option Explicit} (h : s.Coded)
    (hrows : db.versions.rows = s.db.versions.rows.map f) (hid : ∀ v, (f v).id = v.id)
    (hknown : ∀ k a, s.db.archived? k = some a → ∃ b, db.archived? k = some b)
    (hflags : ∀ v ∈ s.db.versions.rows, ∀ a b, s.db.archived? v.key = some a → db.archived? v.key = some b →
      Flags a (s.last v.key v.version) v → Flags b (last v.key v.version) (f v)) : Coded ⟨db, last⟩ := by
  have hkey : ∀ v, (f v).key = v.key ∧ (f v).version = v.version := fun v => Prod.mk.inj (hid v)
  refine ⟨fun w hw => ?_, fun w hw b hb => ?_⟩
  · obtain ⟨v, hv, rfl⟩ := List.mem_map.1 (hrows ▸ hw)
    obtain ⟨a, ha⟩ := h.known v hv
    rw [(hkey v).1]
    exact hknown v.key a ha
  · obtain ⟨v, hv, rfl⟩ := List.mem_map.1 (hrows ▸ hw)
    rw [(hkey v).1] at hb ⊢
    rw [(hkey v).2]
    obtain ⟨a, ha⟩ := h.known v hv
    exact hflags v hv a b ha hb (h.flags v hv a ha)

theorem archiveVersion_id (archived : Bool) (v : CargoVersion) : (archiveVersion archived v).id = v.id := by
  unfold archiveVersion
  split <;> rfl

theorem archiveVersion_adminYanked (archived : Bool) (v : CargoVersion) :
    (archiveVersion archived v).adminYanked = v.adminYanked := by
  unfold archiveVersion
  split <;> rfl

theorem eq_of_version? {k : Key} {n : String} {v w : CargoVersion} (h : db.version? k n = some w)
    (hv : v ∈ db.versions.rows) (hid : v.id = (k, n)) : v = w :=
  db.versions.eq_of_key hv (Table.find?_eq_some.1 h).1 (hid.trans (Table.find?_eq_some.1 h).2.symm)

theorem note_same {repository normalizedName version : String} {yanked administrator : Bool} {v : CargoVersion}
    (h : v.id = (sanitizeCargoKey text repository normalizedName, sanitized text version 128)) :
    s.note text (.setYanked repository normalizedName version yanked administrator) v.key v.version =
      some ⟨yanked, administrator⟩ := if_pos h

theorem note_other {repository normalizedName version : String} {yanked administrator : Bool} {v : CargoVersion}
    (h : v.id ≠ (sanitizeCargoKey text repository normalizedName, sanitized text version 128)) :
    s.note text (.setYanked repository normalizedName version yanked administrator) v.key v.version =
      s.last v.key v.version := if_neg h

/-! ### One event -/

theorem Marked.step (h : s.Marked) (e : Event) : (s.step text e).Marked := by
  cases e with
  | other db => exact ⟨h.stored, h.admin⟩
  | call c =>
    unfold YankState.step
    dsimp only
    split
    · rename_i db hrun
      cases c with
      | publish pkg version username newID =>
        obtain ⟨v, hv, -⟩ := recordCargoPublication_adds hrun
        exact h.adds hv
      | mirror pkg version now =>
        rcases recordCargoMirrorPublication_cases hrun with ⟨v, hv, -⟩ | ⟨f, hrows, hf, -⟩
        · exact h.adds hv
        · refine Marked.map hrows (fun v => (hf v).1) h.stored fun v hv hlast => ?_
          rw [(hf v).2.2.1]
          exact h.admin v hv hlast
      | setYanked repository normalizedName version yanked administrator =>
        obtain ⟨-, a, stored, -, hstored, -, -, hrows⟩ := setCargoVersionYanked_ok hrun
        refine Marked.map hrows (fun v => ?_) (fun k n hl => ?_) fun v hv hlast => ?_
        · split <;> rfl
        · simp only [note] at hl
          split at hl
          · rename_i hkn
            obtain ⟨rfl, rfl⟩ := Prod.mk.inj hkn
            simp [hstored]
          · exact h.stored k n hl
        · by_cases hid : v.id = (sanitizeCargoKey text repository normalizedName, sanitized text version 128)
          · rw [note_same hid] at hlast
            rw [if_pos hid]
            cases hlast
            rfl
          · rw [note_other hid] at hlast
            rw [if_neg hid]
            exact h.admin v hv hlast
      | setArchived repository normalizedName archived administrator =>
        obtain ⟨-, -, hrows⟩ := setCargoPackageArchived_ok hrun
        refine Marked.map hrows (fun v => ?_) h.stored fun v hv hlast => ?_
        · split
          · exact archiveVersion_id archived v
          · rfl
        · have := h.admin v hv hlast
          split
          · rwa [archiveVersion_adminYanked]
          · exact this
    · exact h

theorem Coded.step {e : Event} (hm : s.Marked) (h : s.Coded) (hclean : e.Clean text s) : (s.step text e).Coded := by
  cases e with
  | other db => exact ⟨h.known, h.flags⟩
  | call c =>
    unfold YankState.step
    dsimp only
    split
    · rename_i db hrun
      cases c with
      | publish pkg version username newID =>
        obtain ⟨v, hv, hopen⟩ := recordCargoPublication_adds hrun
        exact h.adds hm hv hopen
      | mirror pkg version now =>
        rcases recordCargoMirrorPublication_cases hrun with ⟨v, hv, hid, hnew, hname, hsame⟩ | ⟨f, hrows, hf, hkept⟩
        · refine h.adds hm hv ?_
          obtain ⟨hkey, hversion⟩ := Prod.mk.inj hid
          cases hp : s.db.packages.find? v.key with
          | none => exact hnew (by simp [DB.archived?, hp])
          | some stored =>
            -- the version is new, so the package is not archived
            have hopen : stored.archived = false := hclean stored (hkey ▸ hp) (hsame stored hp) (hversion ▸ hname)
              (hversion ▸ hkey ▸ hv.absent)
            exact hv.kept _ _ (by rw [DB.archived?, hp, Option.map_some, hopen])
        · refine h.map hrows (fun v => (hf v).1) (fun k a ha => ⟨a, hkept k a ha⟩) fun v _ a b ha hb hflags => ?_
          obtain rfl : a = b := Option.some.inj ((hkept _ a ha).symm.trans hb)
          exact hflags.congr (hf v).2.1 (hf v).2.2.1 (hf v).2.2.2
      | setYanked repository normalizedName version yanked administrator =>
        obtain ⟨harch, a, stored, ha, hstored, hopen, hadmin, hrows⟩ := setCargoVersionYanked_ok hrun
        refine h.map hrows (fun v => ?_) (fun k b hb => ⟨b, (harch k).trans hb⟩) fun v hv b b' hb hb' hflags => ?_
        · split <;> rfl
        obtain rfl : b = b' := Option.some.inj (hb.symm.trans ((harch v.key).symm.trans hb'))
        by_cases hid : v.id = (sanitizeCargoKey text repository normalizedName, sanitized text version 128)
        · obtain rfl := eq_of_version? hstored hv hid
          have hkey : v.key = sanitizeCargoKey text repository normalizedName := congrArg Prod.fst hid
          obtain rfl : a = b := Option.some.inj (ha.symm.trans (hkey ▸ hb))
          rw [if_pos hid, note_same hid]
          refine hflags.setYanked rfl hopen hadmin fun hy hna => ?_
          subst hy hna
          exact hclean v hstored
        · rw [if_neg hid, note_other hid]
          exact hflags
      | setArchived repository normalizedName archived administrator =>
        obtain ⟨-, harch, hrows⟩ := setCargoPackageArchived_ok hrun
        refine h.map hrows (fun v => ?_) (fun k a ha => ?_) fun v _ a b ha hb hflags => ?_
        · split
          · exact archiveVersion_id archived v
          · rfl
        · rw [harch]
          split
          · exact ⟨archived, rfl⟩
          · exact ⟨a, ha⟩
        · rw [harch] at hb
          by_cases hkey : v.key = sanitizeCargoKey text repository normalizedName
          · rw [if_pos hkey] at hb ⊢
            cases hb
            exact hflags.archive archived
          · rw [if_neg hkey] at hb ⊢
            cases ha.symm.trans hb
            exact hflags
    · exact h

/-! ### Whole runs -/

theorem Marked.start {db : DB} : Marked (YankState.start db) where
  stored := fun _ _ h => absurd rfl h
  admin := nofun

theorem Marked.run {good : YankState → Event → Prop} {s s' : YankState} (h : s.Marked) (hr : Run text good s s') :
    s'.Marked := by
  induction hr with
  | refl => exact h
  | tail _ hstep ih =>
    obtain ⟨e, -, rfl⟩ := hstep
    exact ih.step e

theorem Coded.run {s s' : YankState} (hm : s.Marked) (h : s.Coded) (hr : Run text (fun s e => e.Clean text s) s s') :
    s'.Coded := by
  induction hr with
  | refl => exact h
  | tail hr hstep ih =>
    obtain ⟨e, hclean, rfl⟩ := hstep
    exact ih.step (hm.run hr) hclean

theorem mem_of_adds {db' : DB} {u v w : CargoVersion} (ha : Adds db db' u) (hw : w ∈ db'.versions.rows)
    (hv : v ∈ db.versions.rows) (hid : w.id = v.id) : w ∈ db.versions.rows := by
  rcases List.mem_append.1 (ha.rows ▸ hw) with hw | hw
  · exact hw
  · obtain rfl := List.mem_singleton.1 hw
    obtain ⟨hk, hn⟩ := Prod.mk.inj hid
    have := version?_isSome_of_mem hv
    rw [← hk, ← hn] at this
    exact absurd ha.absent this

/-- A non-administrator's call does not unyank a version that an administrator yanked. -/
theorem Marked.not_unyanked (h : s.Marked) (hc : c.byAdministrator = false) {v w : CargoVersion}
    (hv : v ∈ s.db.versions.rows) (hlast : s.last v.key v.version = some ⟨true, true⟩) (hy : v.yanked = true)
    (hw : w ∈ (s.step text (.call c)).db.versions.rows) (hid : w.id = v.id) : w.yanked = true := by
  have hmark := h.admin v hv hlast
  have hsame : w ∈ s.db.versions.rows → w.yanked = true := fun hw =>
    (s.db.versions.eq_of_key hw hv hid).symm ▸ hy
  unfold YankState.step at hw
  dsimp only at hw
  split at hw
  · rename_i db hrun
    cases c with
    | publish pkg version username newID =>
      obtain ⟨u, hu, -⟩ := recordCargoPublication_adds hrun
      exact hsame (mem_of_adds hu hw hv hid)
    | mirror pkg version now =>
      rcases recordCargoMirrorPublication_cases hrun with ⟨u, hu, -⟩ | ⟨f, hrows, hf, -⟩
      · exact hsame (mem_of_adds hu hw hv hid)
      · obtain ⟨u, hu, rfl⟩ := List.mem_map.1 (hrows ▸ hw)
        obtain rfl := s.db.versions.eq_of_key hu hv ((hf u).1.symm.trans hid)
        rw [(hf u).2.1]
        exact hy
    | setYanked repository normalizedName version yanked administrator =>
      obtain rfl : administrator = false := hc
      obtain ⟨-, a, stored, -, hstored, -, hadmin, hrows⟩ := setCargoVersionYanked_ok hrun
      obtain ⟨u, hu, rfl⟩ := List.mem_map.1 (hrows ▸ hw)
      split at hid
      · rename_i hu'
        obtain rfl := s.db.versions.eq_of_key hu hv hid
        obtain rfl := eq_of_version? hstored hu hu'
        rw [if_pos hu']
        rcases hadmin with h | h | h
        · exact h
        · exact absurd hmark (by simp [h])
        · cases h
      · rename_i hu'
        rw [if_neg hu']
        exact (s.db.versions.eq_of_key hu hv hid).symm ▸ hy
    | setArchived repository normalizedName archived administrator =>
      obtain ⟨-, -, hrows⟩ := setCargoPackageArchived_ok hrun
      obtain ⟨u, hu, rfl⟩ := List.mem_map.1 (hrows ▸ hw)
      split at hid
      · rename_i hu'
        obtain rfl := s.db.versions.eq_of_key hu hv ((archiveVersion_id archived u).symm.trans hid)
        rw [if_pos hu']
        cases archived <;> simp [archiveVersion, hy, hmark]
      · rename_i hu'
        rw [if_neg hu']
        exact (s.db.versions.eq_of_key hu hv hid).symm ▸ hy
  · exact hsame hw

instance (s : YankState) : Decidable s.Agrees :=
  inferInstanceAs (Decidable (∀ p ∈ s.db.packages.rows, ∀ v ∈ s.db.versions.rows, v.key = p.key →
    v.yanked = (own (s.last v.key v.version) || p.archived)))

/-- In every clean run the stored flag is `own` or `archived`. An administrator's yank stands against the calls of
non-administrators in every run, clean or not. -/
theorem run_agrees (text : Text) (profiles : Table Profile.userID) (accountDeleted : String → Bool)
    (superTeamRole : String → String → Option Int) (resourceLock : Key → String → Option CargoError) :
    (∀ s, Run text (fun s e => e.Clean text s)
        (start (DB.initial profiles accountDeleted superTeamRole resourceLock)) s → s.Agrees) ∧
    (∀ s, Run text (fun _ _ => True) (start (DB.initial profiles accountDeleted superTeamRole resourceLock)) s →
      ∀ c : Call, c.byAdministrator = false → ∀ v ∈ s.db.versions.rows,
        s.last v.key v.version = some ⟨true, true⟩ → v.yanked = true →
        ∀ w ∈ (s.step text (.call c)).db.versions.rows, w.id = v.id → w.yanked = true) := by
  constructor
  · intro s hr
    have hstart : Coded (start (DB.initial profiles accountDeleted superTeamRole resourceLock)) :=
      ⟨nofun, nofun⟩
    exact (hstart.run .start hr).agrees
  · intro s hr c hc v hv hlast hy w hw hid
    exact (Marked.start.run hr).not_unyanked hc hv hlast hy hw hid

end YankState

/-! ### Runs that are not clean -/

/-- Go's functions on ASCII text that is trimmed and in lower case. -/
def Text.plain : Text := ⟨id, id, fun _ => true, fun _ => ""⟩

namespace YankState

def serde : CargoPackage := ⟨"crates", "serde", "serde", "", "", "", "", "", "", false, false, false, 1, 1⟩

def serdeVersion (version : String) : CargoVersion :=
  ⟨"crates", "serde", version, "", "", 1, "", "", "", "", "", "", false, false, false, false, 1⟩

def serdePublish : Event := .call (.publish serde (serdeVersion "1.0.0") "alice" "u1")

def serdeMirror : Event := .call (.mirror serde (serdeVersion "1.0.1") 2)

def serdeYank : Event := .call (.setYanked "crates" "serde" "1.0.0" true false)

def serdeArchive (archived : Bool) : Event := .call (.setArchived "crates" "serde" archived false)

def emptyStart : YankState := start (DB.initial .empty (fun _ => false) (fun _ _ => none) fun _ _ => none)

theorem run_of_events {text : Text} {good : YankState → Event → Prop} (s : YankState) (es : List Event)
    (h : ∀ s, ∀ e ∈ es, good s e) : Run text good s (es.foldl (step text) s) := by
  induction es generalizing s with
  | nil => exact .refl
  | cons e es ih =>
    exact .head ⟨e, h s e (by simp), rfl⟩ (ih (s.step text e) fun s e' he => h s e' (by simp [he]))

/-- A mirror adds a version, and the owner yanks the first one; archiving and restoring keep that. -/
theorem run_agrees_restored : ∃ s, Run .plain (fun s e => e.Clean .plain s) emptyStart s ∧
    s.db.versions.rows.map (·.yanked) = [true, false] ∧ s.db.packages.rows.map (·.archived) = [false] ∧ s.Agrees := by
  set s₁ := emptyStart.step .plain serdePublish with hs₁
  set s₂ := s₁.step .plain serdeMirror with hs₂
  have hmirror : serdeMirror.Clean .plain s₁ := by
    have hopen : (s₁.db.packages.find? (sanitizedPackage .plain serde).key).map (·.archived) = some false := by decide
    intro stored hs _ _ _
    exact Option.some.inj ((congrArg (Option.map CargoPackage.archived) hs).symm.trans hopen)
  have hyank : serdeYank.Clean .plain s₂ := by
    have hshown : (s₂.db.version? (sanitizeCargoKey .plain "crates" "serde") (sanitized .plain "1.0.0" 128)).map
        (·.archiveYanked) = some false := by decide
    intro v hv harch
    have hplain : v.archiveYanked = false := Option.some.inj
      ((congrArg (Option.map CargoVersion.archiveYanked) hv).symm.trans hshown)
    rw [hplain] at harch
    cases harch
  have hpublished : Run .plain (fun s e => e.Clean .plain s) emptyStart s₁ := .single ⟨serdePublish, trivial, hs₁⟩
  have hyanked := (hpublished.tail ⟨serdeMirror, hmirror, hs₂⟩).tail ⟨serdeYank, hyank, rfl⟩
  have hrun := (hyanked.tail ⟨serdeArchive true, trivial, rfl⟩).tail ⟨serdeArchive false, trivial, rfl⟩
  exact ⟨_, hrun, by decide, by decide, (run_agrees .plain .empty (fun _ => false) (fun _ _ => none) fun _ _ =>
    none).1 _ hrun⟩

/-- A yank of an archived version by its owner is lost when the package is restored, and a version that a mirror adds
to an archived package is not yanked. -/
theorem unclean_runs_disagree :
    (∃ s, Run .plain (fun _ _ => True) emptyStart s ∧ ¬ s.Agrees ∧
      s.db.versions.rows.map (·.yanked) = [false] ∧ own (s.last ("crates", "serde") "1.0.0") = true) ∧
    ∃ s, Run .plain (fun _ _ => True) emptyStart s ∧ ¬ s.Agrees ∧ s.db.packages.rows.map (·.archived) = [true] ∧
      s.db.versions.rows.map (·.yanked) = [true, false] := by
  have hlost := @run_of_events .plain (fun _ _ => True) emptyStart
    [serdePublish, serdeArchive true, serdeYank, serdeArchive false]
    fun _ _ _ => trivial
  have hmirror := @run_of_events .plain (fun _ _ => True) emptyStart
    [serdePublish, serdeArchive true, serdeMirror] fun _ _ _ => trivial
  exact ⟨⟨_, hlost, by decide, by decide, by decide⟩,
    ⟨_, hmirror, by decide, by decide, by decide⟩⟩

end YankState

end Renop.Cargo
