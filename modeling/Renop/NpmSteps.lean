import Renop.Npm

/-!
# What a call has done

The transactions of `Npm` taken apart: for each call, the checks that it passed and the catalog that it left. What
holds over runs is derived from these and no longer unfolds the calls.
-/

namespace Renop.Npm

open Sql Cargo

variable {text : Text} {semver : Semver} {out : Outside} {c c' : Catalog} {p : NPMPackage} {k : String}

/-! ### Reading -/

theorem published_iff : published c k = true ↔ ∃ v ∈ c.versions.rows, v.version = k ∧ v.unpublished = false := by
  simp only [published, Option.any_eq_true, Bool.not_eq_true', Table.find?_eq_some]
  constructor
  · rintro ⟨v, ⟨hv, hk⟩, h⟩
    exact ⟨v, hv, hk, h⟩
  · rintro ⟨v, hv, hk, h⟩
    exact ⟨v, ⟨hv, hk⟩, h⟩

theorem published_congr (h : c'.versions = c.versions) : published c' k = published c k := by
  simp only [published, h]

/-! ### Setting tags -/

/-- `c'` is `c` after the tags of `done` were set, one after the other. -/
structure TagsSet (text : Text) (done : List (String × String)) (c c' : Catalog) : Prop where
  same : c' = { c with tags := c'.tags }
  mem : ∀ t ∈ c'.tags.rows, t ∈ c.tags.rows ∨ ∃ p ∈ done, t.version = versionKey text p.2
  find : ∀ k, (c'.tags.find? k).map (·.version) =
    match (done.filter fun p => tagKey text p.1 = k).getLast? with
    | some p => some (versionKey text p.2)
    | none => (c.tags.find? k).map (·.version)

theorem TagsSet.nil (c : Catalog) : TagsSet text [] c c := ⟨rfl, fun _ ht => .inl ht, fun _ => rfl⟩

theorem upsertNPMTag_ok {tag version : String} {now : Int} (h : upsertNPMTag text tag version now c = .ok c') :
    c' = { c with tags := c.tags.put ⟨tagKey text tag, versionKey text version, now⟩ } := by
  obtain ⟨-, h⟩ := require_bind_ok.1 h
  cases h
  rfl

theorem TagsSet.put {done : List (String × String)} {c₁ : Catalog} {p : String × String} {now : Int}
    (h : TagsSet text done c c₁) (hput : upsertNPMTag text p.1 p.2 now c₁ = .ok c') : TagsSet text (done ++ [p]) c c' := by
  obtain rfl := upsertNPMTag_ok hput
  refine ⟨by rw [h.same], fun t ht => ?_, fun k => ?_⟩
  · rcases Table.mem_put.1 ht with rfl | ⟨ht, -⟩
    · exact .inr ⟨p, by simp, rfl⟩
    · exact (h.mem t ht).imp_right fun ⟨q, hq, hversion⟩ => ⟨q, List.mem_append_left _ hq, hversion⟩
  · rw [Table.find?_put, List.filter_append]
    by_cases hk : k = tagKey text p.1
    · simp [hk]
    · simp [hk, Ne.symm hk, h.find k]

theorem TagsSet.versions {done : List (String × String)} (h : TagsSet text done c c') :
    c'.versions = c.versions := by rw [h.same]

theorem TagsSet.package {done : List (String × String)} (h : TagsSet text done c c') :
    c'.package = c.package := by rw [h.same]

theorem TagsSet.npmTagVersion {done : List (String × String)} (h : TagsSet text done c c') (k : String) :
    npmTagVersion c' k = match (done.filter fun p => tagKey text p.1 = k).getLast? with
      | some p => versionKey text p.2
      | none => npmTagVersion c k := by
  simp only [Npm.npmTagVersion, h.find k]
  split <;> rfl

theorem upserts_ok {tags : List (String × String)} {now : Int}
    (h : tags.foldlM (fun c (tag, version) => upsertNPMTag text tag version now c) c = .ok c') : TagsSet text tags c c' := by
  refine foldlM_ok (fun done c' => TagsSet text done c c') h (.nil c) fun done p c₁ c₂ _ hdone hput => ?_
  exact hdone.put hput

theorem TagsSet.published {done : List (String × String)} (h : TagsSet text done c c')
    (hold : ∀ t ∈ c.tags.rows, published c t.version = true)
    (hnew : ∀ p ∈ done, Npm.published c (versionKey text p.2) = true) :
      ∀ t ∈ c'.tags.rows, Npm.published c' t.version = true := by
  intro t ht
  rw [published_congr h.versions]
  rcases h.mem t ht with hin | ⟨p, hp, hversion⟩
  · exact hold t hin
  · exact hversion ▸ hnew p hp

/-! ### Deprecations -/

/-- `f` changes nothing but the deprecation. -/
def Relabels (f : NPMVersion → NPMVersion) : Prop := ∀ v, f v = { v with deprecated := (f v).deprecated }

/-- `c'` has the versions of `c` but for their deprecations. -/
structure Deprecates (c c' : Catalog) : Prop where
  same : c' = { c with versions := c'.versions }
  rows : ∃ f, Relabels f ∧ c'.versions.rows = c.versions.rows.map f

theorem Relabels.fields {f : NPMVersion → NPMVersion} (hf : Relabels f) (v : NPMVersion) :
    (f v).version = v.version ∧ (f v).unpublished = v.unpublished ∧ (f v).mirrored = v.mirrored ∧
      (f v).createdAt = v.createdAt := by
  rw [hf v]
  exact ⟨rfl, rfl, rfl, rfl⟩

theorem Deprecates.refl (c : Catalog) : Deprecates c c := ⟨rfl, id, fun _ => rfl, by simp⟩

theorem deprecateVersion_ok {version deprecated : String} {c₁ : Catalog} (h : Deprecates c c₁)
    (hstep : deprecateVersion text version deprecated c₁ = .ok c') : Deprecates c c' := by
  obtain ⟨-, hstep⟩ := require_bind_ok.1 hstep
  cases hstep
  obtain ⟨f, hf, hrows⟩ := h.rows
  refine ⟨by rw [h.same], fun v => if (f v).version = versionKey text version then
    { f v with deprecated := sanitized text deprecated 4000 } else f v, fun v => ?_, ?_⟩
  · dsimp only
    split
    · exact congrArg (fun w : NPMVersion => { w with deprecated := sanitized text deprecated 4000 }) (hf v)
    · exact hf v
  · simp only [Table.rows_update, hrows, List.map_map, Function.comp_def]

/-! ### Checks -/

theorem updatePackage_versions (c : Catalog) (f : NPMPackage → NPMPackage) :
    (c.updatePackage f).versions = c.versions := rfl

theorem updatePackage_tags (c : Catalog) (f : NPMPackage → NPMPackage) : (c.updatePackage f).tags = c.tags := rfl

theorem lockNPMPackage_ok {p : NPMPackage} (h : lockNPMPackage text c = .ok p) :
    c.package = some p ∧ ensureMutable text c "" false = .ok () := by
  obtain ⟨p₁, h₁, h⟩ := bind_ok.1 h
  obtain ⟨_, h₂, h⟩ := bind_ok.1 h
  cases h
  exact ⟨orError_ok.1 h₁, h₂⟩

theorem requireNPMRevision_ok {r : Int} (h : requireNPMRevision p r = .ok ()) : 0 < r → p.revision = r := by
  simpa [requireNPMRevision] using h

/-- A lifecycle call has found the package open to it, under the revision that the client expects. -/
structure Opened (text : Text) (c : Catalog) (p : NPMPackage) (expectedRevision : Int) : Prop where
  package : c.package = some p
  mutable : ensureMutable text c "" false = .ok ()
  revision : 0 < expectedRevision → p.revision = expectedRevision

theorem opened_of {r : Int} (h : lockNPMPackage text c = .ok p) (hr : requireNPMRevision p r = .ok ()) : Opened text c p r :=
  ⟨(lockNPMPackage_ok h).1, (lockNPMPackage_ok h).2, requireNPMRevision_ok hr⟩

/-! ### Loops -/

/-- A publication sets only the tags of its version. -/
def recordTags (text : Text) (versionName : String) (now : Int) (tags : StringMap) (c : Catalog) : Except NPMError Catalog :=
  tags.rows.foldlM (fun c (tag, tagVersion) =>
    if tagVersion ≠ versionName then .ok c
    else do
      ensureNPMTagChange text c tag tagVersion
      upsertNPMTag text tag tagVersion now c) c

theorem recordTags_ok {versionName : String} {now : Int} {tags : StringMap}
    (h : recordTags text versionName now tags c = .ok c') :
    TagsSet text (tags.rows.filter fun q => q.2 = versionName) c c' := by
  refine foldlM_ok (fun done c' => TagsSet text (done.filter fun q => q.2 = versionName) c c') h (.nil c)
    fun done q b b' _ hdone hstep => ?_
  rw [List.filter_append]
  dsimp only at hstep
  split at hstep
  · next hskip =>
    cases hstep
    simpa [hskip] using hdone
  · next htag =>
    obtain ⟨_, -, hput⟩ := bind_ok.1 hstep
    have htag : q.2 = versionName := not_not.1 htag
    simpa [htag] using hdone.put hput

def deprecateVersions (text : Text) (deprecations : StringMap) (c : Catalog) : Except NPMError Catalog :=
  deprecations.rows.foldlM (fun c (version, deprecated) => deprecateVersion text version deprecated c) c

theorem deprecateVersions_ok {deprecations : StringMap} (h : deprecateVersions text deprecations c = .ok c') :
    Deprecates c c' :=
  foldlM_ok (fun _ b => Deprecates c b) h (.refl c) fun _ _ _ _ _ hb hstep => deprecateVersion_ok hb hstep

/-- The tags of a packument name published versions. -/
def packumentTags (text : Text) (now : Int) (tags : StringMap) (c : Catalog) : Except NPMError Catalog :=
  tags.rows.foldlM (fun c (tag, version) => do
    require (published c version) .versionNotFound
    upsertNPMTag text tag version now c) c

theorem packumentTags_ok {now : Int} {tags : StringMap} (h : packumentTags text now tags c = .ok c') :
    TagsSet text tags.rows c c' ∧ ∀ q ∈ tags.rows, published c q.2 = true := by
  refine foldlM_ok (fun done b => TagsSet text done c b ∧ ∀ q ∈ done, published c q.2 = true) h ⟨.nil c, by simp⟩
    fun done q b b' _ hb hstep => ?_
  obtain ⟨hpub, hput⟩ := require_bind_ok.1 hstep
  refine ⟨hb.1.put hput, fun r hr => ?_⟩
  rcases List.mem_append.1 hr with hr | hr
  · exact hb.2 r hr
  · obtain rfl := List.mem_singleton.1 hr
    rwa [published_congr hb.1.versions] at hpub

/-! ### Calls -/

theorem recordNPMPublication_ok {pkg : Publication} {version : NPMVersion} {tags : StringMap} {username : String}
    (h : recordNPMPublication text out semver pkg version tags username c = .ok c') :
    ∃ p versions c₁, c.package = some p ∧ ensureMutable text c "" false = .ok () ∧
      ensureMutable text c (versionKey text version.version) false = .ok () ∧ versionKey text version.version ≠ "" ∧
      p.mirrored = false ∧
      c.versions.insert (version.recorded text (text.toLower (sanitized text username maxTokenNameLen)))
        (NPMError.invalid "insert npm version") = .ok versions ∧
      recordTags text (versionKey text version.version) pkg.updatedAt tags { c with versions := versions } = .ok c₁ ∧
      c' = c₁.updatePackage fun p =>
        { p with
          description := sanitized text pkg.description 4000
          publisher := text.toLower (sanitized text username maxTokenNameLen)
          latestVersion := latestOrChosen c₁ semver
          revision := p.revision + 1
          updatedAt := pkg.updatedAt } := by
  simp only [recordNPMPublication] at h
  obtain ⟨⟨-, hne, -⟩, h⟩ := require_bind_ok.1 h
  obtain ⟨p, hp, h⟩ := bind_ok.1 h
  obtain ⟨_, hmutable, h⟩ := bind_ok.1 h
  obtain ⟨-, h⟩ := require_bind_ok.1 h
  obtain ⟨⟨hlocal, -⟩, h⟩ := require_bind_ok.1 h
  obtain ⟨-, h⟩ := require_bind_ok.1 h
  obtain ⟨-, h⟩ := require_bind_ok.1 h
  obtain ⟨-, h⟩ := require_bind_ok.1 h
  obtain ⟨versions, hinsert, h⟩ := bind_ok.1 h
  obtain ⟨c₁, hloop, h⟩ := bind_ok.1 h
  cases h
  obtain ⟨hp, hopen⟩ := lockNPMPackage_ok hp
  exact ⟨p, versions, c₁, hp, hopen, hmutable, hne, by simpa using hlocal, hinsert, hloop, rfl⟩

/-- The catalog without a version and its tags. -/
def Catalog.dropVersion (c : Catalog) (version : String) : Catalog :=
  { c with
    versions := c.versions.delete (·.version = version)
    tags := c.tags.delete (·.version = version) }

theorem rollbackNPMPublicationReview_ok {version : String} {previous : NPMPackage} {previousTags : StringMap}
    (h : rollbackNPMPublicationReview text version previous previousTags c = .ok c') :
    ∃ p c₁, c.package = some p ∧ TagsSet text previousTags.rows (c.dropVersion (versionKey text version)) c₁ ∧
      c' = c₁.updatePackage fun p =>
        { p with
          description := previous.description
          publisher := previous.publisher
          latestVersion := previous.latestVersion
          revision := previous.revision
          updatedAt := previous.updatedAt } := by
  simp only [rollbackNPMPublicationReview] at h
  obtain ⟨-, h⟩ := require_bind_ok.1 h
  obtain ⟨p, hp, h⟩ := bind_ok.1 h
  obtain ⟨-, h⟩ := require_bind_ok.1 h
  obtain ⟨c₁, hloop, h⟩ := bind_ok.1 h
  cases h
  exact ⟨p, c₁, orError_ok.1 hp, upserts_ok hloop, rfl⟩

/-- The versions that a refresh leaves. -/
def refreshedVersions (text : Text) (versions : List NPMVersion) (c : Catalog) : Table NPMVersion.version :=
  (versions.foldl (refreshVersion text) (c.versions.update (fun v => if v.mirrored then { v with unpublished := true } else v)
    version_stale)).delete fun v => v.mirrored && v.unpublished

theorem recordNPMMirrorPublication_ok {pkg : Publication} {versions : List NPMVersion} {tags : StringMap}
    (h : recordNPMMirrorPublication text semver pkg versions tags c = .ok c') :
    ∃ package c₁, ensureMutable text c "" true = .ok () ∧ package.mirrored = true ∧
      (∀ p, c.package = some p → p.mirrored = true ∧ package.revision = p.revision + 1) ∧
      TagsSet text tags.rows
        { c with package := some package, versions := refreshedVersions text versions c, tags := Table.empty } c₁ ∧
      c' = c₁.updatePackage fun p => { p with latestVersion := latestOrChosen c₁ semver } := by
  simp only [recordNPMMirrorPublication] at h
  obtain ⟨_, hmutable, h⟩ := bind_ok.1 h
  obtain ⟨hmirrored, h⟩ := require_bind_ok.1 h
  obtain ⟨c₁, hloop, h⟩ := bind_ok.1 h
  cases h
  refine ⟨_, c₁, hmutable, ?_, ?_, upserts_ok hloop, rfl⟩
  · cases hp : c.package with
    | none => rfl
    | some p => simpa [hp] using hmirrored
  · intro p hp
    rw [hp]
    exact ⟨by simpa [hp] using hmirrored, rfl⟩

theorem setNPMDistTag_ok {tag version actor : String} {expectedRevision now : Int}
    (h : setNPMDistTag text out semver tag version actor expectedRevision now c = .ok c') :
    ∃ p c₁, Opened text c p expectedRevision ∧ published c version = true ∧ ensureNPMTagChange text c tag version =
      .ok () ∧ TagsSet text [(tag, version)] c c₁ ∧
      c' = c₁.updatePackage fun p =>
        { p with latestVersion := latestOrChosen c₁ semver, revision := p.revision + 1, updatedAt := now } := by
  obtain ⟨p, hp, h⟩ := bind_ok.1 h
  obtain ⟨_, -, h⟩ := bind_ok.1 h
  obtain ⟨_, hrevision, h⟩ := bind_ok.1 h
  obtain ⟨hpub, h⟩ := require_bind_ok.1 h
  obtain ⟨_, htag, h⟩ := bind_ok.1 h
  obtain ⟨c₁, hput, h⟩ := bind_ok.1 h
  cases h
  exact ⟨p, c₁, opened_of hp hrevision, hpub, htag, (TagsSet.nil c).put (p := (tag, version)) hput, rfl⟩

theorem deleteNPMDistTag_ok {tag actor : String} {expectedRevision now : Int}
    (h : deleteNPMDistTag text out semver tag actor expectedRevision now c = .ok c') :
    ∃ p c₁, Opened text c p expectedRevision ∧ ensureNPMTagChange text c (tagKey text tag) "" = .ok () ∧
      c₁ = { c with tags := c.tags.delete (·.tag = tagKey text tag) } ∧
      c' = c₁.updatePackage fun p =>
        { p with latestVersion := latestOrChosen c₁ semver, revision := p.revision + 1, updatedAt := now } := by
  obtain ⟨p, hp, h⟩ := bind_ok.1 h
  obtain ⟨_, -, h⟩ := bind_ok.1 h
  obtain ⟨_, hrevision, h⟩ := bind_ok.1 h
  obtain ⟨_, htag, h⟩ := bind_ok.1 h
  obtain ⟨-, h⟩ := require_bind_ok.1 h
  cases h
  exact ⟨p, _, opened_of hp hrevision, htag, rfl, rfl⟩

theorem setNPMVersionDeprecated_ok {version deprecated actor : String} {expectedRevision now : Int}
    (h : setNPMVersionDeprecated text out version deprecated actor expectedRevision now c = .ok c') :
    ∃ p c₁, Opened text c p expectedRevision ∧ ensureMutable text c (versionKey text version) false = .ok () ∧
      deprecateVersion text version deprecated c = .ok c₁ ∧
      c' = c₁.updatePackage fun p => { p with revision := p.revision + 1, updatedAt := now } := by
  obtain ⟨p, hp, h⟩ := bind_ok.1 h
  obtain ⟨_, -, h⟩ := bind_ok.1 h
  obtain ⟨_, hrevision, h⟩ := bind_ok.1 h
  obtain ⟨_, hmutable, h⟩ := bind_ok.1 h
  obtain ⟨c₁, hset, h⟩ := bind_ok.1 h
  cases h
  exact ⟨p, c₁, opened_of hp hrevision, hmutable, hset, rfl⟩

theorem updateNPMPackument_ok {actor : String} {expectedRevision : Int} {deprecations tags : StringMap} {now : Int}
    (h : updateNPMPackument text out actor expectedRevision deprecations tags now c = .ok c') :
    ∃ p c₁ c₂, Opened text c p expectedRevision ∧ ensureNPMPackumentLocks text c deprecations tags = .ok () ∧
      deprecateVersions text deprecations c = .ok c₁ ∧ packumentTags text now tags { c₁ with tags := Table.empty } =
        .ok c₂ ∧
      c' = c₂.updatePackage fun p =>
        { p with latestVersion := StringMap.get tags "latest", revision := p.revision + 1, updatedAt := now } := by
  obtain ⟨p, hp, h⟩ := bind_ok.1 h
  obtain ⟨_, -, h⟩ := bind_ok.1 h
  obtain ⟨_, hrevision, h⟩ := bind_ok.1 h
  obtain ⟨_, hlocks, h⟩ := bind_ok.1 h
  obtain ⟨c₁, hdeps, h⟩ := bind_ok.1 h
  obtain ⟨c₂, htags, h⟩ := bind_ok.1 h
  cases h
  exact ⟨p, c₁, c₂, opened_of hp hrevision, hlocks, hdeps, htags, rfl⟩

/-- The catalog with a version unpublished and its tags gone. -/
def Catalog.entomb (c : Catalog) (version : String) : Catalog :=
  { c with
    versions := c.versions.update (fun v => if v.version = version then { v with unpublished := true } else v)
      fun v => by split <;> rfl
    tags := c.tags.delete (·.version = version) }

theorem unpublishNPMVersion_ok {version actor : String} {expectedRevision now : Int} {path : String}
    (h : unpublishNPMVersion text out semver version actor expectedRevision now c = .ok (c', path)) :
    ∃ p c₁ c₂, Opened text c p expectedRevision ∧ ensureMutable text c (versionKey text version) false = .ok () ∧
      c₁ = c.entomb (versionKey text version) ∧
      (latestNPMVersion c₁ semver = "" ∧ c₂ = c₁ ∨
        latestNPMVersion c₁ semver ≠ "" ∧ ensureNPMTagChange text c₁ "latest" (latestNPMVersion c₁ semver) =
          .ok () ∧ TagsSet text [("latest", latestNPMVersion c₁ semver)] c₁ c₂) ∧
      c' = c₂.updatePackage fun p =>
        { p with latestVersion := latestNPMVersion c₁ semver, revision := p.revision + 1, updatedAt := now } := by
  simp only [unpublishNPMVersion] at h
  obtain ⟨p, hp, h⟩ := bind_ok.1 h
  obtain ⟨_, -, h⟩ := bind_ok.1 h
  obtain ⟨_, hrevision, h⟩ := bind_ok.1 h
  obtain ⟨_, hmutable, h⟩ := bind_ok.1 h
  obtain ⟨v, -, h⟩ := bind_ok.1 h
  obtain ⟨-, h⟩ := require_bind_ok.1 h
  have hopened := opened_of hp hrevision
  split at h
  · next hempty =>
    cases h
    exact ⟨p, _, _, hopened, hmutable, rfl, .inl ⟨hempty, rfl⟩, rfl⟩
  · next hne =>
    obtain ⟨_, htag, h⟩ := bind_ok.1 h
    obtain ⟨c₂, hput, h⟩ := bind_ok.1 h
    cases h
    exact ⟨p, _, c₂, hopened, hmutable, rfl, .inr ⟨hne, htag, (TagsSet.nil _).put (p := ("latest", _)) hput⟩, rfl⟩

theorem setNPMPackageArchived_ok {actor : String} {archived : Bool} {now : Int}
    (h : setNPMPackageArchived text out actor archived now c = .ok c') :
    ∃ p, c.package = some p ∧ ensureMutable text c "" true = .ok () ∧
      c' = c.updatePackage fun p => { p with archived := archived, revision := p.revision + 1, updatedAt := now } := by
  obtain ⟨p, hp, h⟩ := bind_ok.1 h
  obtain ⟨_, -, h⟩ := bind_ok.1 h
  obtain ⟨_, hmutable, h⟩ := bind_ok.1 h
  cases h
  exact ⟨p, (lockNPMPackage_ok hp).1, hmutable, rfl⟩

theorem deleteNPMPackage_ok {actor : String} {expectedRevision now : Int} {paths : List String}
    (h : deleteNPMPackage text out actor expectedRevision now c = .ok (c', paths)) :
    ∃ p c₁, Opened text c p expectedRevision ∧ ensureMutable text c "" true = .ok () ∧
      c₁ = { c with
        versions := c.versions.update (fun v => { v with unpublished := true }) fun _ => rfl
        tags := Table.empty } ∧
      c' = c₁.updatePackage fun p =>
        { p with archived := true, publishEnabled := false, latestVersion := "", revision := p.revision + 1, updatedAt :=
            now } := by
  obtain ⟨p, hp, h⟩ := bind_ok.1 h
  obtain ⟨_, -, h⟩ := bind_ok.1 h
  obtain ⟨_, hrevision, h⟩ := bind_ok.1 h
  obtain ⟨_, hmutable, h⟩ := bind_ok.1 h
  cases h
  exact ⟨p, _, opened_of hp hrevision, hmutable, rfl, rfl⟩

end Renop.Npm
