import Renop.CargoReserve
import Renop.StoragePaths

/-!
# A deletion that failed

A deletion changes the index, then the crate and then the catalog, and it begins by looking for the version in the
catalog and in the index. So it can be repeated as long as the index still has the version, and no longer.
-/

namespace Renop.Cargo

open Sql Interleave

section Names
variable {text : Text} {lib : IndexLib}

theorem map_toLower_normalized (cs : List Char) :
    ((cs.map Char.toLower).map fun c => if c = '_' then '-' else c).map Char.toLower =
      (cs.map Char.toLower).map fun c => if c = '_' then '-' else c := by
  rw [List.map_map, List.map_map, List.map_map]
  refine List.map_congr_left fun c _ => ?_
  simp only [Function.comp_apply]
  split
  · rfl
  · exact Storage.toLower_toLower c

theorem sanitizeCargoKey_normalized (hlib : lib.Lawful text) (hlower : text.LowersASCII) {repository name : String}
    (hname : validateCrateName text name = true) :
    (sanitizeCargoKey text repository (normalizeCrateName text name)).2 = normalizeCrateName text name := by
  obtain ⟨hp, hsize⟩ := validateCrateName_printable hname
  obtain ⟨hprintable, hsize'⟩ := normalizeCrateName_printable hlib hlower hp
  show text.toLower (sanitized text (normalizeCrateName text name) 64) = _
  rw [sanitized_eq hlib hprintable (by omega), hlower _ hprintable]
  unfold normalizeCrateName
  rw [hlib.trimSpace_printable name hp, hlower name hp, String.toList_ofList, String.toList_ofList, map_toLower_normalized]

theorem sanitized_version (hlib : lib.Lawful text) {name version : String}
    (h : validatePackage text lib name version = true) :
    sanitized text version 128 = version := by
  simp only [validatePackage, Bool.and_eq_true, decide_eq_true_eq] at h
  exact sanitized_eq hlib (hlib.semver_printable version h.2) h.1.2

theorem validatePackage_name {name version : String} (h : validatePackage text lib name version = true) :
    validateCrateName text name = true := by
  simp only [validatePackage, Bool.and_eq_true] at h
  exact h.1.1.1

end Names

section Delete
variable {env : Env} {repo : Repo} {user : User} {crateName version : String} {w w' : World}

theorem require_of {e : ServiceError} {c : Prop} [Decidable c] (h : c) : require c e = .ok () := if_pos h

/-- What a deletion finds that succeeds. -/
structure Deletable (env : Env) (repo : Repo) (user : User) (crateName version : String) (w : World) (details : Details)
    (lines out : List String) (db : DB) : Prop where
  valid : validatePackage env.text env.lib crateName version = true
  authorized : authorizePackageMutation env w user repo.name crateName cargoPermissionVersion = .ok details
  found : ∃ v ∈ details.versions, v.version = version
  index : w.index (cargoIndexPath repo details.package.name) = some lines
  rewritten : rewriteRemoveVersion env.text env.lib lines version = .ok (out, true)
  deleted : deleteCargoVersion env.text w.db repo.name details.package.normalizedName version = .ok db

/-- The index file is replaced by `out`, or deleted when no line is left. -/
def World.unindexed (w : World) (path : String) (out : List String) : World :=
  { w with index := Function.update w.index path (if out = [] then none else some out) }

def World.uncrated (w : World) (path : String) : World := { w with crates := Function.update w.crates path none }

theorem exec_removeVersionFromIndex {fault : Step → Bool} {path : String} {lines out : List String}
    (hindex : w.index path = some lines) (hrewritten : rewriteRemoveVersion env.text env.lib lines version = .ok (out, true)) :
    Proc.exec fault (removeVersionFromIndex env path version) w =
      if fault ⟨.openIndex, false⟩ then (.error .storage, w)
      else if fault ⟨.stageIndex, false⟩ then (.error .storage, w)
      else if out = [] then (.ok 0, w)
      else if fault ⟨.commitIndex, false⟩ then (.error .storage, w)
      else (.ok out.length, { w with index := Function.update w.index path (some out) }) := by
  have hcheck : require True (ServiceError.cargo .versionNotFound) = .ok () := require_of trivial
  unfold removeVersionFromIndex openIndex stageIndex commitIndex
  simp only [Proc.bind_eq, Proc.exec_bind, Proc.exec_ask, hindex]
  cases fault ⟨.openIndex, false⟩ with
  | true => rfl
  | false =>
    cases fault ⟨.stageIndex, false⟩ with
    | true => rfl
    | false =>
      simp only [Bool.false_eq_true, if_false, orError, Proc.exec_ofExcept, hrewritten, Except.mapError, hcheck]
      by_cases hout : out = []
      · simp [hout]
      · simp only [hout, if_false, Proc.exec_tell]
        cases fault ⟨.commitIndex, false⟩ <;> simp

/-- A deletion of a version that can be deleted, whatever fails. -/
theorem exec_deleteVersion (fault : Step → Bool) {details : Details} {lines out : List String} {db : DB}
    (h : Deletable env repo user crateName version w details lines out db) :
    Proc.exec fault (deleteVersion env repo user crateName version) w =
      let crate := cratePath repo details.package.name version
      let unindexed := w.unindexed (cargoIndexPath repo details.package.name) out
      if fault ⟨.readDetails, false⟩ then (.error (.cargo .database), w)
      else if fault ⟨.openIndex, false⟩ ∨ fault ⟨.stageIndex, false⟩ then (.error .storage, w)
      else if fault ⟨if out = [] then .deleteIndex else .commitIndex, false⟩ then (.error .storage, w)
      else if fault ⟨.deleteCrate, false⟩ then (.error .storage, unindexed)
      else if fault ⟨.deleteVersion, false⟩ then (.error (.cargo .database), unindexed.uncrated crate)
      else (.ok (), { unindexed.uncrated crate with db }) := by
  have hvalid : require (validatePackage env.text env.lib crateName version = true)
      (ServiceError.status 400 "invalid Cargo crate") = .ok () := require_of h.valid
  have hfound : require (∃ v ∈ details.versions, v.version = version) (ServiceError.cargo .versionNotFound) = .ok () :=
    require_of h.found
  unfold deleteVersion deleteIndex deleteCrate World.unindexed World.uncrated
  simp only [Proc.bind_eq, Proc.exec_bind, Proc.exec_ask, Proc.exec_ofExcept, hvalid, h.authorized]
  cases fault ⟨.readDetails, false⟩ with
  | true => rfl
  | false =>
    simp only [Bool.false_eq_true, if_false, hfound, exec_removeVersionFromIndex h.index h.rewritten]
    cases fault ⟨.openIndex, false⟩ with
    | true => rfl
    | false =>
      cases fault ⟨.stageIndex, false⟩ with
      | true => rfl
      | false =>
        by_cases hout : out = []
        · simp only [hout, if_true, if_false, Bool.false_eq_true, Proc.exec_tell, or_self]
          cases fault ⟨.deleteIndex, false⟩ with
          | true => rfl
          | false =>
            cases fault ⟨.deleteCrate, false⟩ with
            | true => rfl
            | false =>
              cases fault ⟨.deleteVersion, false⟩ with
              | true => rfl
              | false => simp [h.deleted, Except.map, Except.mapError]
        · simp only [hout, if_false, Bool.false_eq_true, or_self]
          cases fault ⟨.commitIndex, false⟩ with
          | true => rfl
          | false =>
            simp only [Bool.false_eq_true, if_false, List.length_eq_zero_iff, hout, Proc.pure_eq, Proc.exec_done,
              Proc.exec_tell]
            cases fault ⟨.deleteCrate, false⟩ with
            | true => rfl
            | false =>
              cases fault ⟨.deleteVersion, false⟩ with
              | true => rfl
              | false => simp [h.deleted, Except.map, Except.mapError]

theorem deletable_of_ok {fault : Step → Bool} (h : Proc.exec fault (deleteVersion env repo user crateName version) w =
    (.ok (), w')) :
    ∃ details lines out db, Deletable env repo user crateName version w details lines out db := by
  unfold deleteVersion removeVersionFromIndex at h
  obtain ⟨⟨⟩, hvalid, h⟩ := Proc.exec_ofExcept_bind_ok h
  obtain ⟨details, hdetails, h⟩ := Proc.exec_ask_bind_ok h
  obtain ⟨⟨⟩, hfound, h⟩ := Proc.exec_ofExcept_bind_ok h
  obtain ⟨remaining, w₁, hremove, h⟩ := Proc.exec_bind_ok h
  obtain ⟨file, hopen, hremove⟩ := Proc.exec_ask_bind_ok hremove
  cases hopen
  obtain ⟨lines, hlines, hremove⟩ := Proc.exec_ofExcept_bind_ok hremove
  obtain ⟨⟨⟩, -, hremove⟩ := Proc.exec_ask_bind_ok hremove
  obtain ⟨⟨out, removed⟩, hrewrite, hremove⟩ := Proc.exec_ofExcept_bind_ok hremove
  obtain ⟨⟨⟩, hremoved, hrest⟩ := Proc.exec_ofExcept_bind_ok hremove
  have hremoved : removed = true := require_ok.1 hremoved
  -- neither the index nor the crate is a part of the catalog
  obtain ⟨⟨⟩, w₂, hcommit, hrest⟩ := Proc.exec_bind_ok hrest
  have hdb₂ : w₂.db = w.db := by
    split at hcommit
    · cases hcommit
      rfl
    · cases Proc.exec_tell_ok hcommit
      rfl
  cases hrest
  obtain ⟨⟨⟩, w₃, hindex, h⟩ := Proc.exec_bind_ok h
  have hdb₃ : w₃.db = w₁.db := by
    split at hindex
    · cases Proc.exec_tell_ok hindex
      rfl
    · cases hindex
      rfl
  obtain ⟨⟨⟩, w₄, hcrate, h⟩ := Proc.exec_bind_ok h
  cases Proc.exec_tell_ok hcrate
  obtain ⟨db, hdb, -⟩ := map_ok.1 (mapError_ok.1 (Proc.exec_tell_ok h))
  have hdb : deleteCargoVersion env.text w.db repo.name details.package.normalizedName version = .ok db := by
    rw [← hdb₂, ← hdb₃]
    exact hdb
  exact ⟨details, lines, out, db, require_ok.1 hvalid, hdetails, require_ok.1 hfound, orError_ok.1 hlines,
    hremoved ▸ mapError_ok.1 hrewrite, hdb⟩

/-- The version has left the index, the crates and the catalog. -/
def Gone (env : Env) (repo : Repo) (crateName version : String) (w : World) : Prop :=
  ∃ p, w.package? env repo.name (normalizeCrateName env.text crateName) = some p ∧
    (∀ lines, w.index (cargoIndexPath repo p.name) = some lines → ∀ line ∈ lines,
      lineVersion env.lib line ≠ some version) ∧
    w.crates (cratePath repo p.name version) = none ∧
    ∀ v ∈ w.db.versions.rows, v.key = p.key → v.version ≠ version

theorem authorizePackageMutation_ok {level : Int} {details : Details}
    (h : authorizePackageMutation env w user repo.name crateName level = .ok details) :
    w.package? env repo.name (normalizeCrateName env.text crateName) = some details.package ∧
      details.versions = w.db.versionsOf details.package.key := by
  obtain ⟨-, h⟩ := require_bind_ok.1 h
  obtain ⟨found, hfound, h⟩ := bind_ok.1 h
  obtain ⟨details', hsome, h⟩ := bind_ok.1 h
  obtain ⟨-, h⟩ := require_bind_ok.1 h
  cases h
  rw [orError_ok] at hsome
  subst hsome
  have hfound := mapError_ok.1 hfound
  unfold getCargoPackageDetails at hfound
  split at hfound
  · cases hfound
  · rename_i p hp
    dsimp only at hfound
    split at hfound
    · cases hfound
      exact ⟨hp, rfl⟩
    · obtain ⟨permission, -, hfound⟩ := bind_ok.1 hfound
      cases hfound
      exact ⟨hp, rfl⟩

theorem deleteCargoVersion_ok {text : Text} {db db' : DB} {repository name : String}
    (h : deleteCargoVersion text db repository name version = .ok db') :
    db'.versions.rows = (db.versions.rows.filter fun v =>
      !(v.key = sanitizeCargoKey text repository name && v.version = sanitized text version 128)) ∧
    ∀ k p, db.packages.find? k = some p → ∃ p', db'.packages.find? k = some p' ∧ p'.name = p.name := by
  obtain ⟨-, h⟩ := require_bind_ok.1 h
  cases h
  refine ⟨rfl, fun k p hp => ?_⟩
  rw [find?_updatePackage]
  show ∃ p' : CargoPackage, (db.packages.find? k).map _ = some p' ∧ p'.name = p.name
  rw [hp]
  refine ⟨_, rfl, ?_⟩
  split <;> rfl

theorem Deletable.gone (hlib : env.lib.Lawful env.text) (hlower : env.text.LowersASCII) {details : Details}
    {lines out : List String} {db : DB} (h : Deletable env repo user crateName version w details lines out db) :
    Gone env repo crateName version
      { (w.unindexed (cargoIndexPath repo details.package.name) out).uncrated (cratePath repo details.package.name version)
        with db } := by
  obtain ⟨hpackage, hversions⟩ := authorizePackageMutation_ok h.authorized
  obtain ⟨hrows, hpackages⟩ := deleteCargoVersion_ok h.deleted
  obtain ⟨p, hp, hname⟩ := hpackages _ _ hpackage
  have hkey : sanitizeCargoKey env.text repo.name details.package.normalizedName = p.key := by
    have hfound := (Table.find?_eq_some.1 hpackage).2
    rw [(Table.find?_eq_some.1 hp).2, ← show details.package.key.2 = details.package.normalizedName from rfl, hfound,
      sanitizeCargoKey_normalized hlib hlower (validatePackage_name h.valid)]
  refine ⟨p, hp, fun file hfile line hline => ?_, ?_, fun v hv hvkey hvversion => ?_⟩
  · -- the file that was written, or none
    have hfile : (if out = [] then none else some out) = some file := by
      simpa [World.unindexed, World.uncrated, hname] using hfile
    split at hfile
    · cases hfile
    · cases hfile
      rw [(rewriteRemoveVersion_ok.1 h.rewritten).2.2.1] at hline
      simpa using (List.mem_filter.1 hline).2
  · simp [World.uncrated, hname]
  · have hv : v ∈ db.versions.rows := hv
    rw [hrows, List.mem_filter] at hv
    simp [hkey, hvkey, hvversion, sanitized_version hlib h.valid] at hv

theorem not_deletable {details : Details} {lines out : List String} {db : DB}
    (h : Deletable env repo user crateName version w details lines out db) (hdb : w'.db = w.db)
    (hindex : w'.index = (w.unindexed (cargoIndexPath repo details.package.name) out).index) {fault : Step → Bool} :
    (Proc.exec fault (deleteVersion env repo user crateName version) w').1 ≠ .ok () := by
  intro hok
  obtain ⟨details', lines', out', db', h'⟩ := deletable_of_ok (Prod.ext hok rfl)
  have hpackage : details'.package = details.package := by
    have hp' := (authorizePackageMutation_ok h'.authorized).1
    rw [World.package?, hdb] at hp'
    exact Option.some.inj (hp'.symm.trans (authorizePackageMutation_ok h.authorized).1)
  have hlines := h'.index
  rw [hindex, hpackage] at hlines
  simp only [World.unindexed, Function.update_self] at hlines
  split at hlines
  · cases hlines
  · cases hlines
    have hremoved := (rewriteRemoveVersion_ok.1 h'.rewritten).2.2.2
    obtain ⟨line, hline, hversion⟩ := List.any_eq_true.1 hremoved.symm
    rw [(rewriteRemoveVersion_ok.1 h.rewritten).2.2.1] at hline
    simp [of_decide_eq_true hversion] at hline

/-- What is left of a deletion that failed can be deleted, and archiving the package works as before. -/
def Resumable (env : Env) (repo : Repo) (user : User) (crateName version : String) (w w' : World) : Prop :=
  (∃ w'', Proc.exec noFault (deleteVersion env repo user crateName version) w' = (.ok (), w'') ∧
    Gone env repo crateName version w'') ∧
  ∀ owner archived, (Proc.exec noFault (setPackageArchived env repo owner crateName archived) w).1 = .ok () →
    (Proc.exec noFault (setPackageArchived env repo owner crateName archived) w').1 = .ok ()

theorem resumable_self (hlib : env.lib.Lawful env.text) (hlower : env.text.LowersASCII) {details : Details}
    {lines out : List String} {db : DB} (h : Deletable env repo user crateName version w details lines out db) :
    Resumable env repo user crateName version w w := by
  refine ⟨⟨_, ?_, h.gone hlib hlower⟩, fun _ _ hok => hok⟩
  rw [exec_deleteVersion noFault h]
  simp [noFault]

theorem deletion_resumes (env : Env) (hlib : env.lib.Lawful env.text) (hlower : env.text.LowersASCII) (repo : Repo)
    (user : User) (crateName version : String) (w : World) (call : StoreCall)
    (hok : (Proc.exec noFault (deleteVersion env repo user crateName version) w).1 = .ok ())
    (hfail : (Proc.exec (failing call) (deleteVersion env repo user crateName version) w).1 ≠ .ok ()) :
    Resumable env repo user crateName version w (Proc.exec (failing call) (deleteVersion env repo user crateName version)
      w).2 ↔ call ≠ .deleteCrate ∧ call ≠ .deleteVersion := by
  obtain ⟨details, lines, out, db, h⟩ := deletable_of_ok (Prod.ext hok rfl)
  have hexec := exec_deleteVersion (failing call) h
  constructor
  · -- the index has been written by then
    rintro ⟨⟨w'', hretry, -⟩, -⟩
    constructor
    · rintro rfl
      refine not_deletable h ?_ ?_ (congrArg Prod.fst hretry)
      · rw [hexec]
        by_cases hout : out = [] <;> simp [failing, hout, World.unindexed]
      · rw [hexec]
        by_cases hout : out = [] <;> simp [failing, hout]
    · rintro rfl
      refine not_deletable h ?_ ?_ (congrArg Prod.fst hretry)
      · rw [hexec]
        by_cases hout : out = [] <;> simp [failing, hout, World.unindexed, World.uncrated]
      · rw [hexec]
        by_cases hout : out = [] <;> simp [failing, hout, World.uncrated]
  · rintro ⟨hcrate, hversion⟩
    have hsame : (Proc.exec (failing call) (deleteVersion env repo user crateName version) w).2 = w := by
      have hcrate : failing call ⟨.deleteCrate, false⟩ = false := by simpa [failing] using hcrate.symm
      have hversion : failing call ⟨.deleteVersion, false⟩ = false := by simpa [failing] using hversion.symm
      rw [hexec] at hfail ⊢
      dsimp only at hfail ⊢
      rw [hcrate, hversion] at hfail ⊢
      by_cases hread : failing call ⟨.readDetails, false⟩ = true
      · rw [if_pos hread]
      · by_cases hopen : failing call ⟨.openIndex, false⟩ = true ∨ failing call ⟨.stageIndex, false⟩ = true
        · rw [if_neg hread, if_pos hopen]
        · by_cases hwrite : failing call ⟨if out = [] then .deleteIndex else .commitIndex, false⟩ = true
          · rw [if_neg hread, if_neg hopen, if_pos hwrite]
          · -- nothing has failed
            rw [if_neg hread, if_neg hopen, if_neg hwrite] at hfail
            exact absurd rfl hfail
    rw [hsame]
    exact resumable_self hlib hlower h

/-! ### Two versions -/

/-- Two versions of `serde`, by its owner. -/
def twoVersions : World :=
  (Proc.exec noFault (publish asciiEnv openRepo { serdeRequest with version := "1.1.0", now := 2 })
    (Proc.exec noFault (publish asciiEnv openRepo serdeRequest) twoUsers).2).2

def alice : User := ⟨"alice", false⟩

/-- A deletion whose index could not be written is done again. -/
theorem deletion_resumes_index :
    Resumable asciiEnv openRepo alice "serde" "1.0.0" twoVersions
      (Proc.exec (failing .commitIndex) (deleteVersion asciiEnv openRepo alice "serde" "1.0.0") twoVersions).2 :=
  (deletion_resumes asciiEnv (plainLib_lawful rfl) asciiText_lowers openRepo alice "serde" "1.0.0" twoVersions .commitIndex
    (by decide) (by decide)).2 (by decide)

/-- A deletion whose crate could not be deleted is refused from then on, and so is archiving. -/
theorem deletion_stuck :
    (Proc.exec noFault (deleteVersion asciiEnv openRepo alice "serde" "1.0.0") twoVersions).1 = .ok () ∧
    (Proc.exec noFault (setPackageArchived asciiEnv openRepo alice "serde" true) twoVersions).1 = .ok () ∧
    let stuck := Proc.exec (failing .deleteCrate) (deleteVersion asciiEnv openRepo alice "serde" "1.0.0") twoVersions
    stuck.1 = .error .storage ∧
    (Proc.exec noFault (deleteVersion asciiEnv openRepo alice "serde" "1.0.0") stuck.2).1 =
      .error (.cargo .versionNotFound) ∧
    (Proc.exec noFault (setPackageArchived asciiEnv openRepo alice "serde" true) stuck.2).1 =
      .error (.status 500 "cargo index version count does not match package metadata") := by
  decide

end Delete

end Renop.Cargo
