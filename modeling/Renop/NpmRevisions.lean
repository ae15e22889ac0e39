import Renop.NpmCatalog

/-!
# Revisions

A packument is read by three statements, first the row of the package with its revision, then the versions, then the
tags. A client sends the revision back with its changes, and the approval of a review keeps what it read for the case
that its decision fails. Every call that changes the catalog moves the revision on, but a rollback moves it back.
-/

namespace Renop.Npm

open Sql Cargo

/-- What a revision stands for. -/
@[ext] structure Content where
  version : String → Option NPMVersion
  tag : String → Option String

def Catalog.content (c : Catalog) : Content where
  version k := c.versions.find? k
  tag k := (c.tags.find? k).map (·.version)

def tagMap (tags : Table DistTag.tag) : StringMap where
  rows := tags.rows.map fun t => (t.tag, t.version)
  nodup := by simpa [List.map_map, Function.comp_def] using tags.nodup

/-- A `GetNPMPackageDetails` that is under way. -/
structure Reading where
  package : NPMPackage
  versions : Option (Table NPMVersion.version)
  /-- The catalog at the first statement, for the proofs only. -/
  start : Catalog

/-- What `GetNPMPackageDetails` returned. -/
structure Details where
  package : NPMPackage
  versions : Table NPMVersion.version
  tags : StringMap

def Details.content (d : Details) : Content where
  version k := d.versions.find? k
  tag k := (d.tags.find? k).map Prod.snd

structure World where
  catalog : Catalog
  readings : List Reading
  details : List Details

inductive Event
  | readPackage
  | readVersions (r : Reading)
  | readTags (r : Reading) (versions : Table NPMVersion.version)
  | call (out : Outside) (call : Call)
  /-- The decision on the review failed after its publication. -/
  | rollback (version : String) (previous : Details)

/-- A raw tag that `validNPMTag` accepts has one spelling in the table. -/
def Tagged (text : Text) (tag : String) : Prop := tagKey text (tagKey text tag) = tagKey text tag

/-- What the handlers see to. -/
def Spelled (text : Text) : Call → Prop
  | .publish _ version tags _ => Named text version.version ∧ ∀ p ∈ tags.rows, Tagged text p.1
  | .mirror _ versions tags => (∀ v ∈ versions, Named text v.version) ∧ ∀ p ∈ tags.rows, Tagged text p.1 ∧
      Named text p.2
  | .setTag tag .. => Tagged text tag
  | .packument _ _ _ tags _ => ∀ p ∈ tags.rows, Tagged text p.1
  | .rollback .. => False
  | _ => True

/-- The revision that a client sends back. -/
def Call.expectedRevision : Call → Int
  | .setTag _ _ _ r _ => r
  | .deleteTag _ _ r _ => r
  | .setDeprecated _ _ _ r _ => r
  | .packument _ r _ _ _ => r
  | .unpublish _ _ r _ => r
  | .delete _ r _ => r
  | _ => 0

section Steps
variable (text : Text) (semver : Semver)

inductive Step : World → Event → World → Prop
  | readPackage {w : World} {p : NPMPackage} (hp : w.catalog.package = some p) :
    Step w .readPackage { w with readings := ⟨p, none, w.catalog⟩ :: w.readings }
  | readVersions {w : World} {r : Reading} (hr : r ∈ w.readings) (h : r.versions = none) :
    Step w (.readVersions r) { w with readings := { r with versions := some w.catalog.versions } :: w.readings }
  | readTags {w : World} {r : Reading} {versions : Table NPMVersion.version} (hr : r ∈ w.readings)
      (h : r.versions = some versions) :
    Step w (.readTags r versions) { w with details := ⟨r.package, versions, tagMap w.catalog.tags⟩ :: w.details }
  | call {w : World} {out : Outside} {call : Call} {c : Catalog} (hs : Spelled text call)
      (h : exec text semver out w.catalog call = .ok c) : Step w (.call out call) { w with catalog := c }
  | rollback {w : World} {version : String} {d : Details} {c : Catalog} (hd : d ∈ w.details)
      (h : rollbackNPMPublicationReview text version d.package d.tags w.catalog = .ok c) :
    Step w (.rollback version d) { w with catalog := c }

/-- `c` is what a publication of `version` made of `c₀`. -/
def Publishes (c₀ c : Catalog) (version : String) : Prop :=
  ∃ out pkg row tags username, Named text row.version ∧ versionKey text row.version = versionKey text version ∧
    recordNPMPublication text out semver pkg row tags username c₀ = .ok c

/-- The three statements of a reading see one catalog, and a rollback finds the package as its publication left it, before
anybody has read it. -/
def Calm (w : World) : Event → Prop
  | .readTags r versions => (∀ k, versions.find? k = r.start.versions.find? k) ∧
    ∀ k, (w.catalog.tags.find? k).map (·.version) = (r.start.tags.find? k).map (·.version)
  | .rollback version previous =>
    (∃ c₀ : Catalog, c₀.package = some previous.package ∧ c₀.content = previous.content ∧
      Publishes text semver c₀ w.catalog version) ∧
    (∀ r ∈ w.readings, r.package.revision ≤ previous.package.revision) ∧
      ∀ d ∈ w.details, d.package.revision ≤ previous.package.revision
  | _ => True

inductive Steps (P : World → Event → Prop) : World → World → Prop
  | refl (w : World) : Steps P w w
  | tail {w₀ w w' : World} {e : Event} (hrun : Steps P w₀ w) (hp : P w e) (h : Step text semver w e w') : Steps P w₀ w'

end Steps

/-- Nothing has been read, and the catalog is that of a new package or of none. -/
structure Started (w : World) : Prop where
  catalog : Fresh w.catalog
  readings : w.readings = []
  details : w.details = []

/-- A content that was read, or is being read, under a revision. -/
def Seen (w : World) (revision : Int) (k : Content) : Prop :=
  (∃ r ∈ w.readings, r.package.revision = revision ∧ r.start.content = k) ∨
    ∃ d ∈ w.details, d.package.revision = revision ∧ d.content = k

/-- The tables spell tags and versions as they keep them. -/
def TagsSpelled (text : Text) (tags : List (String × String)) : Prop :=
  ∀ p ∈ tags, tagKey text p.1 = p.1 ∧ versionKey text p.2 = p.2

structure Inv (text : Text) (w : World) : Prop where
  tidy : Tidy text w.catalog
  spelled : TagsSpelled text (tagMap w.catalog.tags).rows
  read : ∀ d ∈ w.details, TagsSpelled text d.tags.rows
  seen : ∀ revision k, Seen w revision k → ∃ p, w.catalog.package = some p ∧ revision ≤ p.revision ∧
    (revision = p.revision → k = w.catalog.content)
  agree : ∀ revision k k', Seen w revision k → Seen w revision k' → k = k'

variable {text : Text} {semver : Semver} {out : Outside} {c c' c₀ : Catalog} {call : Call} {w w' : World}

/-! ### Revisions of calls -/

/-- A call other than a rollback moves the revision on, or creates the package. -/
def MovesOn (c c' : Catalog) : Prop :=
  ∃ p', c'.package = some p' ∧ ∀ p, c.package = some p → p'.revision = p.revision + 1

theorem movesOn_of {p : NPMPackage} {f : NPMPackage → NPMPackage} (hp : c.package = some p) (hp' : c'.package = some p)
    (hf : ∀ q, (f q).revision = q.revision + 1) : MovesOn c (c'.updatePackage f) := by
  refine ⟨f p, by simp [Catalog.updatePackage, hp'], fun q hq => ?_⟩
  obtain rfl := Option.some.inj (hp.symm.trans hq)
  exact hf p

theorem Spelled.permitted (h : Spelled text call) : Permitted text call := by
  cases call with
  | publish => exact h.1
  | mirror => exact ⟨h.1, fun q hq => (h.2 q hq).2⟩
  | rollback => exact h.elim
  | _ => trivial

/-- What a call other than a rollback does to the revision, and what it asked of it. -/
theorem exec_movesOn (hs : Spelled text call) (h : exec text semver out c call = .ok c') :
    MovesOn c c' ∧ ∀ p, c.package = some p → 0 < call.expectedRevision → p.revision = call.expectedRevision := by
  -- The lifecycle calls check the revision of the row that they lock.
  have hopen : ∀ {p r}, Opened text c p r → ∀ q, c.package = some q → 0 < r → q.revision = r := by
    intro p r hopened q hq
    obtain rfl := Option.some.inj (hopened.package.symm.trans hq)
    exact hopened.revision
  cases call with
  | publish pkg version tags username =>
    obtain ⟨p, versions, c₁, hp, -, -, -, -, -, hloop, rfl⟩ := recordNPMPublication_ok h
    exact ⟨movesOn_of hp ((recordTags_ok hloop).package.trans hp) fun _ => rfl, fun _ _ hr => absurd hr (lt_irrefl 0)⟩
  | rollback => exact hs.elim
  | mirror pkg versions tags =>
    obtain ⟨package, c₁, -, -, hrevision, hset, rfl⟩ := recordNPMMirrorPublication_ok h
    have hp₁ : c₁.package = some package := hset.package
    refine ⟨⟨{ package with latestVersion := latestOrChosen c₁ semver }, by rw [Catalog.updatePackage, hp₁]; rfl,
      fun p hp => (hrevision p hp).2⟩, fun _ _ hr => absurd hr (lt_irrefl 0)⟩
  | setTag tag version actor expectedRevision now =>
    obtain ⟨p, c₁, hopened, -, -, hset, rfl⟩ := setNPMDistTag_ok h
    exact ⟨movesOn_of hopened.package (hset.package.trans hopened.package) fun _ => rfl, hopen hopened⟩
  | deleteTag tag actor expectedRevision now =>
    obtain ⟨p, c₁, hopened, -, rfl, rfl⟩ := deleteNPMDistTag_ok h
    exact ⟨movesOn_of hopened.package hopened.package fun _ => rfl, hopen hopened⟩
  | setDeprecated version deprecated actor expectedRevision now =>
    obtain ⟨p, c₁, hopened, -, hset, rfl⟩ := setNPMVersionDeprecated_ok h
    have hp₁ : c₁.package = some p := by
      rw [(deprecateVersion_ok (.refl c) hset).same]
      exact hopened.package
    exact ⟨movesOn_of hopened.package hp₁ fun _ => rfl, hopen hopened⟩
  | packument actor expectedRevision deprecations tags now =>
    obtain ⟨p, c₁, c₂, hopened, -, hdeps, hloop, rfl⟩ := updateNPMPackument_ok h
    have hp₂ : c₂.package = some p := by
      rw [(packumentTags_ok hloop).1.package, (deprecateVersions_ok hdeps).same]
      exact hopened.package
    exact ⟨movesOn_of hopened.package hp₂ fun _ => rfl, hopen hopened⟩
  | unpublish version actor expectedRevision now =>
    obtain ⟨⟨_, path⟩, hcall, rfl⟩ := map_ok.1 h
    obtain ⟨p, c₁, c₂, hopened, -, rfl, hlast, rfl⟩ := unpublishNPMVersion_ok hcall
    have hp₂ : c₂.package = some p := by
      rcases hlast with ⟨-, rfl⟩ | ⟨-, -, hset⟩
      · exact hopened.package
      · exact hset.package.trans hopened.package
    exact ⟨movesOn_of hopened.package hp₂ fun _ => rfl, hopen hopened⟩
  | archive actor archived now =>
    obtain ⟨p, hp, -, rfl⟩ := setNPMPackageArchived_ok h
    exact ⟨movesOn_of hp hp fun _ => rfl, fun _ _ hr => absurd hr (lt_irrefl 0)⟩
  | delete actor expectedRevision now =>
    obtain ⟨⟨_, paths⟩, hcall, rfl⟩ := map_ok.1 h
    obtain ⟨p, c₁, hopened, -, rfl, rfl⟩ := deleteNPMPackage_ok hcall
    exact ⟨movesOn_of hopened.package hopened.package fun _ => rfl, hopen hopened⟩

/-! ### The spelling of tags -/

theorem tagsSpelled_iff {tags : Table DistTag.tag} :
    TagsSpelled text (tagMap tags).rows ↔ ∀ t ∈ tags.rows, tagKey text t.tag = t.tag ∧
      versionKey text t.version = t.version := by
  simp [TagsSpelled, tagMap]

theorem tagMap_find (tags : Table DistTag.tag) (k : String) :
    ((tagMap tags).find? k).map Prod.snd = (tags.find? k).map (·.version) := by
  simp only [tagMap, Table.find?, List.find?_map, Function.comp_def, Option.map_map]

theorem TagsSet.spelled {done : List (String × String)} (h : TagsSet text done c c')
    (hold : TagsSpelled text (tagMap c.tags).rows) (hnew : ∀ q ∈ done, Tagged text q.1 ∧ Named text q.2) :
    TagsSpelled text (tagMap c'.tags).rows := by
  rw [tagsSpelled_iff] at hold ⊢
  intro t ht
  have hfind := h.find t.tag
  rw [Table.find?_eq_some.2 ⟨ht, rfl⟩, Option.map_some] at hfind
  split at hfind
  · next q hlast =>
    obtain ⟨hq, htag⟩ := List.mem_filter.1 (List.mem_of_getLast? hlast)
    have htag : tagKey text q.1 = t.tag := by simpa using htag
    have hversion : t.version = versionKey text q.2 := Option.some.inj hfind
    rw [hversion, ← htag]
    exact hnew q hq
  · obtain ⟨t₀, hfound, hversion⟩ := Option.map_eq_some_iff.1 hfind.symm
    obtain ⟨ht₀, htag⟩ := Table.find?_eq_some.1 hfound
    rw [← hversion, ← htag]
    exact hold t₀ ht₀

theorem tagsSpelled_sub {tags tags' : Table DistTag.tag} (h : ∀ t ∈ tags'.rows, t ∈ tags.rows)
    (hold : TagsSpelled text (tagMap tags).rows) : TagsSpelled text (tagMap tags').rows := by
  rw [tagsSpelled_iff] at hold ⊢
  exact fun t ht => hold t (h t ht)

theorem Tidy.published_named (h : Tidy text c) {k : String} (hpub : published c k = true) : Named text k := by
  obtain ⟨v, hv, rfl, -⟩ := published_iff.1 hpub
  rw [Named, (h.named v hv).1, (h.named v hv).1]

theorem exec_spelled (hlatest : tagKey text "latest" = "latest") (hs : Spelled text call) (ht : Tidy text c)
    (hold : TagsSpelled text (tagMap c.tags).rows) (h : exec text semver out c call = .ok c') :
    TagsSpelled text (tagMap c'.tags).rows := by
  cases call with
  | publish pkg version tags username =>
    obtain ⟨p, versions, c₁, -, -, -, -, -, -, hloop, rfl⟩ := recordNPMPublication_ok h
    refine (recordTags_ok hloop).spelled hold fun q hq => ?_
    obtain ⟨hq, hversion⟩ := List.mem_filter.1 hq
    have hversion : q.2 = versionKey text version.version := by simpa using hversion
    refine ⟨hs.2 q hq, ?_⟩
    rw [hversion, Named, hs.1, hs.1]
  | rollback => exact hs.elim
  | mirror pkg versions tags =>
    obtain ⟨package, c₁, -, -, -, hset, rfl⟩ := recordNPMMirrorPublication_ok h
    exact hset.spelled (tagsSpelled_iff.2 (by simp)) hs.2
  | setTag tag version actor expectedRevision now =>
    obtain ⟨p, c₁, -, hpub, -, hset, rfl⟩ := setNPMDistTag_ok h
    refine hset.spelled hold fun q hq => ?_
    obtain rfl := List.mem_singleton.1 hq
    exact ⟨hs, ht.published_named hpub⟩
  | deleteTag tag actor expectedRevision now =>
    obtain ⟨p, c₁, -, -, rfl, rfl⟩ := deleteNPMDistTag_ok h
    exact tagsSpelled_sub (fun t htag => (List.mem_filter.1 htag).1) hold
  | setDeprecated version deprecated actor expectedRevision now =>
    obtain ⟨p, c₁, -, -, hset, rfl⟩ := setNPMVersionDeprecated_ok h
    rw [updatePackage_tags, (deprecateVersion_ok (.refl c) hset).same]
    exact hold
  | packument actor expectedRevision deprecations tags now =>
    obtain ⟨p, c₁, c₂, hopened, -, hdeps, hloop, rfl⟩ := updateNPMPackument_ok h
    obtain ⟨hset, hpub⟩ := packumentTags_ok hloop
    have htidy₁ := (deprecateVersions_ok hdeps).tidy ht hopened.package
    exact hset.spelled (tagsSpelled_iff.2 (by simp)) fun q hq => ⟨hs q hq, htidy₁.published_named (hpub q hq)⟩
  | unpublish version actor expectedRevision now =>
    obtain ⟨⟨_, path⟩, hcall, rfl⟩ := map_ok.1 h
    obtain ⟨p, c₁, c₂, hopened, -, hc₁, hlast, rfl⟩ := unpublishNPMVersion_ok hcall
    have hsub : TagsSpelled text (tagMap c₁.tags).rows := by
      rw [hc₁]
      exact tagsSpelled_sub (fun t htag => (List.mem_filter.1 htag).1) hold
    rcases hlast with ⟨-, rfl⟩ | ⟨hne, -, hset⟩
    · exact hsub
    · refine hset.spelled hsub fun q hq => ?_
      obtain rfl := List.mem_singleton.1 hq
      refine ⟨by rw [Tagged, hlatest, hlatest], ?_⟩
      -- The version that is chosen is a row of the table.
      obtain ⟨v, hv, hname, -⟩ := published_iff.1 (latestNPMVersion_published hne)
      rw [hc₁] at hv
      obtain ⟨w, hw, rfl⟩ := List.mem_map.1 hv
      have hrow : versionKey text w.version = w.version := (ht.named w hw).1
      have hname : w.version = latestNPMVersion c₁ semver := by
        rw [← hname]
        split <;> rfl
      rw [Named, ← hname, hrow, hrow]
  | archive actor archived now =>
    obtain ⟨p, -, -, rfl⟩ := setNPMPackageArchived_ok h
    exact hold
  | delete actor expectedRevision now =>
    obtain ⟨⟨_, paths⟩, hcall, rfl⟩ := map_ok.1 h
    obtain ⟨p, c₁, -, -, rfl, rfl⟩ := deleteNPMPackage_ok hcall
    exact tagsSpelled_iff.2 (by simp [Catalog.updatePackage])

/-! ### Rollbacks -/

theorem TagsSet.restored {tags : StringMap} (h : TagsSet text tags.rows c c') (hs : TagsSpelled text tags.rows) (k : String) :
    (c'.tags.find? k).map (·.version) = ((tags.find? k).map Prod.snd).or ((c.tags.find? k).map (·.version)) := by
  have hfilter : (tags.rows.filter fun q => tagKey text q.1 = k) = (tags.find? k).toList := by
    rw [← Table.filter_key]
    refine List.filter_congr fun q hq => ?_
    rw [(hs q hq).1]
  rw [h.find k, hfilter]
  rcases Option.eq_none_or_eq_some (tags.find? k) with hfind | ⟨q, hfind⟩
  · simp [hfind]
  · have hq := (Table.find?_eq_some.1 hfind).1
    simp [hfind, (hs q hq).2]

/-- A rollback right after its publication gives back what the publication found. -/
theorem rollback_restores {version : String} {previous : NPMPackage} {previousTags : StringMap}
    (hpub : Publishes text semver c₀ c version) (hp₀ : c₀.package = some previous)
    (htags : ∀ k, (previousTags.find? k).map Prod.snd = (c₀.tags.find? k).map (·.version))
    (hs : TagsSpelled text previousTags.rows)
    (h : rollbackNPMPublicationReview text version previous previousTags c = .ok c') :
    c'.package = c₀.package ∧ c'.content = c₀.content := by
  obtain ⟨out, pkg, row, tags, username, hnamed, hkey, hpub⟩ := hpub
  obtain ⟨p, versions, c₁, hp, -, -, -, -, hinsert, hloop, rfl⟩ := recordNPMPublication_ok hpub
  obtain ⟨p', c₂, -, hset, rfl⟩ := rollbackNPMPublicationReview_ok h
  have hpublished := recordTags_ok hloop
  obtain rfl := Option.some.inj (hp.symm.trans hp₀)
  have hversion : (row.recorded text (text.toLower (sanitized text username maxTokenNameLen))).version = versionKey text
    version := hkey
  constructor
  · rw [Catalog.updatePackage, hset.package]
    simp [Catalog.dropVersion, Catalog.updatePackage, hpublished.package, hp]
  refine Content.ext (funext fun k => ?_) (funext fun k => ?_)
  · -- The version goes, and it was not there before.
    have hnew := (Table.insert_ok hinsert).1
    show (c₂.versions).find? k = c₀.versions.find? k
    rw [hset.versions]
    show (c₁.versions.delete _).find? k = _
    rw [hpublished.versions, Table.find?_delete, Table.find?_insert hinsert, hversion]
    split
    · next hk =>
      have hnone : c₀.versions.find? k = none :=
        Table.find?_eq_none.2 fun v hv => by rw [hk, ← hversion]; exact hnew v hv
      simp [hnone, Option.filter, hversion]
    · next hk =>
      rcases Option.eq_none_or_eq_some (c₀.versions.find? k) with hfind | ⟨v, hfind⟩
      · simp [hfind]
      · have hne : v.version ≠ versionKey text version := (Table.find?_eq_some.1 hfind).2 ▸ hk
        simp [hfind, Option.filter, hne]
  · -- A tag that was not there names the version, and goes with it.
    show (c₂.tags.find? k).map (·.version) = (c₀.tags.find? k).map (·.version)
    rw [hset.restored hs, htags k]
    rcases Option.eq_none_or_eq_some (c₀.tags.find? k) with hfind | ⟨t, hfind⟩
    · rw [hfind, Option.map_none, Option.none_or, Option.map_eq_none_iff]
      show (c₁.tags.delete _).find? k = none
      rw [Table.find?_delete]
      have hmine := hpublished.find k
      rw [show ({ c₀ with versions := versions } : Catalog).tags = c₀.tags from rfl, hfind] at hmine
      rcases Option.eq_none_or_eq_some (c₁.tags.find? k) with hnone | ⟨t, hsome⟩
      · simp [hnone]
      · rw [hsome] at hmine
        have htarget : t.version = versionKey text version := by
          split at hmine
          · next q hlast =>
            have hq := (List.mem_filter.1 (List.mem_of_getLast? hlast)).1
            have hq : q.2 = versionKey text row.version := by simpa using (List.mem_filter.1 hq).2
            rw [Option.map_some] at hmine
            rw [Option.some.inj hmine, hq, hnamed, hkey]
          · cases hmine
        simp [hsome, Option.filter, htarget]
    · simp [hfind]

/-! ### Runs -/

theorem Started.inv (h : Started w) : Inv text w where
  tidy := h.catalog.tidy
  spelled := tagsSpelled_iff.2 (by simp [h.catalog.tags])
  read := by simp [h.details]
  seen := by simp [Seen, h.readings, h.details]
  agree := by simp [Seen, h.readings, h.details]

theorem Inv.moves {c : Catalog} (hinv : Inv text w) (hmoves : MovesOn w.catalog c) (htidy : Tidy text c)
    (hspelled : TagsSpelled text (tagMap c.tags).rows) : Inv text { w with catalog := c } where
  tidy := htidy
  spelled := hspelled
  read := hinv.read
  seen := by
    intro revision k hseen
    obtain ⟨p, hp, hle, -⟩ := hinv.seen revision k hseen
    obtain ⟨p', hp', hnext⟩ := hmoves
    have hlt := hnext p hp
    exact ⟨p', hp', by omega, fun heq => by omega⟩
  agree := hinv.agree

theorem step_inv {e : Event} (hlatest : tagKey text "latest" = "latest") (hinv : Inv text w) (hcalm : Calm text semver w e)
    (h : Step text semver w e w') : Inv text w' := by
  cases h with
  | @readPackage p hp =>
    have hold : ∀ revision k, Seen { w with readings := ⟨p, none, w.catalog⟩ :: w.readings } revision k →
        (revision = p.revision ∧ k = w.catalog.content) ∨ Seen w revision k := by
      rintro revision k (⟨r, hr, hrev, hk⟩ | hd)
      · rcases List.mem_cons.1 hr with rfl | hr
        · exact .inl ⟨hrev.symm, hk.symm⟩
        · exact .inr (.inl ⟨r, hr, hrev, hk⟩)
      · exact .inr (.inr hd)
    -- What has been seen under the same revision is what the catalog says now.
    have hsame : ∀ k, Seen w p.revision k → k = w.catalog.content := by
      intro k hk
      obtain ⟨q, hq, -, heq⟩ := hinv.seen _ _ hk
      obtain rfl := Option.some.inj (hp.symm.trans hq)
      exact heq rfl
    refine ⟨hinv.tidy, hinv.spelled, hinv.read, fun revision k hk => ?_, fun revision k k' hk hk' => ?_⟩
    · rcases hold revision k hk with ⟨rfl, rfl⟩ | hk
      · exact ⟨p, hp, le_refl _, fun _ => rfl⟩
      · exact hinv.seen revision k hk
    · rcases hold revision k hk with ⟨hrev, rfl⟩ | hk
      · rcases hold revision k' hk' with ⟨-, rfl⟩ | hk'
        · rfl
        · exact (hsame k' (hrev ▸ hk')).symm
      · rcases hold revision k' hk' with ⟨hrev, rfl⟩ | hk'
        · exact hsame k (hrev ▸ hk)
        · exact hinv.agree revision k k' hk hk'
  | @readVersions r hr _ =>
    have hold : ∀ revision k, Seen { w with readings := { r with versions := some w.catalog.versions } :: w.readings }
      revision k → Seen w revision k := by
      rintro revision k (⟨r', hr', hrev, hk⟩ | hd)
      · rcases List.mem_cons.1 hr' with rfl | hr'
        · exact .inl ⟨r, hr, hrev, hk⟩
        · exact .inl ⟨r', hr', hrev, hk⟩
      · exact .inr hd
    exact ⟨hinv.tidy, hinv.spelled, hinv.read, fun revision k hk => hinv.seen revision k (hold revision k hk),
      fun revision k k' hk hk' => hinv.agree revision k k' (hold revision k hk) (hold revision k' hk')⟩
  | @readTags r versions hr _ =>
    have hcontent : (⟨r.package, versions, tagMap w.catalog.tags⟩ : Details).content = r.start.content := by
      refine Content.ext (funext hcalm.1) (funext fun k => ?_)
      exact (tagMap_find w.catalog.tags k).trans (hcalm.2 k)
    have hold : ∀ revision k, Seen { w with details := ⟨r.package, versions, tagMap w.catalog.tags⟩ :: w.details }
      revision k → Seen w revision k := by
      rintro revision k (hr' | ⟨d, hd, hrev, hk⟩)
      · exact .inl hr'
      · rcases List.mem_cons.1 hd with rfl | hd
        · exact .inl ⟨r, hr, hrev, hcontent.symm.trans hk⟩
        · exact .inr ⟨d, hd, hrev, hk⟩
    refine ⟨hinv.tidy, hinv.spelled, fun d hd => ?_, fun revision k hk => hinv.seen revision k (hold revision k hk),
      fun revision k k' hk hk' => hinv.agree revision k k' (hold revision k hk) (hold revision k' hk')⟩
    rcases List.mem_cons.1 hd with rfl | hd
    · exact hinv.spelled
    · exact hinv.read d hd
  | @call out call c hs hcall =>
    exact hinv.moves (exec_movesOn hs hcall).1 (exec_keeps hlatest hinv.tidy hs.permitted hcall).1
      (exec_spelled hlatest hs hinv.tidy hinv.spelled hcall)
  | @rollback version d c hd hcall =>
    obtain ⟨⟨c₀, hp₀, hcontent, hpub⟩, hreadings, hdetails⟩ := hcalm
    have htags : ∀ k, (d.tags.find? k).map Prod.snd = (c₀.tags.find? k).map (·.version) :=
      fun k => (congrFun (congrArg Content.tag hcontent) k).symm
    obtain ⟨hp, hback⟩ := rollback_restores hpub hp₀ htags (hinv.read d hd) hcall
    have hbound : ∀ revision k, Seen w revision k → revision ≤ d.package.revision := by
      rintro revision k (⟨r, hr, rfl, -⟩ | ⟨d', hd', rfl, -⟩)
      · exact hreadings r hr
      · exact hdetails d' hd'
    have hmine : Seen w d.package.revision d.content := .inr ⟨d, hd, rfl, rfl⟩
    refine ⟨?_, ?_, hinv.read, fun revision k hk => ⟨d.package, hp.trans hp₀, hbound revision k hk, fun heq => ?_⟩,
      hinv.agree⟩
    · have hback : Tidy text c ∧ (Consistent semver w.catalog → _) := rollback_keeps hinv.tidy hcall
      exact hback.1
    · obtain ⟨_, c₁, -, hset, rfl⟩ := rollbackNPMPublicationReview_ok hcall
      refine hset.spelled (tagsSpelled_sub (fun t ht => (List.mem_filter.1 ht).1) hinv.spelled) fun q hq => ?_
      obtain ⟨htag, hversion⟩ := hinv.read d hd q hq
      exact ⟨by rw [Tagged, htag, htag], by rw [Named, hversion, hversion]⟩
    · show k = c.content
      rw [hback, hcontent]
      exact hinv.agree _ k d.content (heq ▸ hk) hmine

theorem steps_inv {w₀ : World} (hlatest : tagKey text "latest" = "latest") (h0 : Started w₀)
    (hrun : Steps text semver (Calm text semver) w₀ w) : Inv text w := by
  induction hrun with
  | refl => exact h0.inv
  | tail _ hcalm hstep ih => exact step_inv hlatest ih hcalm hstep

/-- What revisions promise in a state that was reached. -/
structure Guards (text : Text) (semver : Semver) (w : World) : Prop where
  /-- A call that names a revision finds what was read under it. -/
  fresh : ∀ out call c, Spelled text call → 0 < call.expectedRevision → exec text semver out w.catalog call = .ok c →
    ∀ d ∈ w.details, d.package.revision = call.expectedRevision → d.content = w.catalog.content
  /-- A revision stands for one content. -/
  unique : ∀ d ∈ w.details, ∀ d' ∈ w.details, d.package.revision = d'.package.revision → d.content = d'.content

/-- A rollback undoes its own publication and nothing else. -/
def Undoes (text : Text) (semver : Semver) (w : World) : Event → World → Prop
  | .rollback version _, w' => ∃ c₀, Publishes text semver c₀ w.catalog version ∧
    w'.catalog.package = c₀.package ∧ w'.catalog.content = c₀.content
  | _, _ => True

/-- Where every reading sees one catalog and a rollback comes before anybody has read what it takes back, a revision stands
for one content, a call that names it finds that content, and a rollback leaves what its publication found. -/
theorem revisions_guard {w₀ : World} (hlatest : tagKey text "latest" = "latest") (h0 : Started w₀)
    (hrun : Steps text semver (Calm text semver) w₀ w) :
    Guards text semver w ∧ ∀ e w', Calm text semver w e → Step text semver w e w' → Undoes text semver w e w' := by
  have hinv := steps_inv hlatest h0 hrun
  refine ⟨⟨fun out call c hs hr hcall d hd heq => ?_, fun d hd d' hd' heq => ?_⟩, fun e w' hcalm hstep => ?_⟩
  · have hseen : Seen w d.package.revision d.content := .inr ⟨d, hd, rfl, rfl⟩
    obtain ⟨p, hp, -, hsame⟩ := hinv.seen _ _ hseen
    have hrevision : p.revision = call.expectedRevision := (exec_movesOn hs hcall).2 p hp hr
    exact hsame (heq.trans hrevision.symm)
  · exact hinv.agree _ _ _ (.inr ⟨d, hd, rfl, rfl⟩) (.inr ⟨d', hd', heq.symm, rfl⟩)
  · cases hstep with
    | @rollback version d c hd hcall =>
      obtain ⟨⟨c₀, hp₀, hcontent, hpub⟩, -, -⟩ := hcalm
      have htags : ∀ k, (d.tags.find? k).map Prod.snd = (c₀.tags.find? k).map (·.version) :=
        fun k => (congrFun (congrArg Content.tag hcontent) k).symm
      exact ⟨c₀, hpub, rollback_restores hpub hp₀ htags (hinv.read d hd) hcall⟩
    | _ => trivial

/-! ### A revision that is used twice -/

/-- `w` after a reading that nothing came between. -/
def World.afterRead (w : World) (p : NPMPackage) : World where
  catalog := w.catalog
  readings := ⟨p, some w.catalog.versions, w.catalog⟩ :: ⟨p, none, w.catalog⟩ :: w.readings
  details := ⟨p, w.catalog.versions, tagMap w.catalog.tags⟩ :: w.details

theorem Steps.read {P : World → Event → Prop} {w₀ : World} {p : NPMPackage} (hP : ∀ w e, Calm text semver w e → P w e)
    (hrun : Steps text semver P w₀ w) (hp : w.catalog.package = some p) : Steps text semver P w₀ (w.afterRead p) := by
  have h1 := hrun.tail (hP w .readPackage trivial) (.readPackage hp)
  have h2 := h1.tail (hP _ (.readVersions ⟨p, none, w.catalog⟩) trivial) (.readVersions List.mem_cons_self rfl)
  exact h2.tail (hP _ (.readTags ⟨p, some w.catalog.versions, w.catalog⟩ w.catalog.versions) ⟨fun _ => rfl,
    fun _ => rfl⟩) (.readTags List.mem_cons_self rfl)

def newWorld : World := ⟨newCatalog, [], []⟩

/-- What the approval of a review reads first. -/
def approvalRead : Details := ⟨newPackage, newCatalog.versions, tagMap newCatalog.tags⟩

def rollbackCall : Call := .rollback "1.0.0" approvalRead.package approvalRead.tags

def undoneCatalog : Catalog := afterCall publishedCatalog rollbackCall

def otherPublication : Call :=
  .publish ⟨"", "", false, 0, 7⟩ { oneVersion with version := "1.1.0" } (single ("latest", "1.1.0")) "alice"

def otherCatalog : Catalog := afterCall undoneCatalog otherPublication

/-- The client still goes by the version that was taken back. -/
def staleDelete : Call := .delete "alice" 2 9

theorem firstPublication_spelled : Spelled plainText firstPublication := by
  unfold firstPublication Spelled Named Tagged
  decide

theorem other_ok : exec plainText noSemver everybody publishedCatalog rollbackCall = .ok undoneCatalog ∧
    Spelled plainText otherPublication ∧
    exec plainText noSemver everybody undoneCatalog otherPublication = .ok otherCatalog := by
  refine ⟨ok_getD (d := publishedCatalog) (by decide), ?_, ok_getD (d := undoneCatalog) (by decide)⟩
  unfold otherPublication Spelled Named Tagged
  decide

theorem newWorld_started : Started newWorld := ⟨newCatalog_fresh, rfl, rfl⟩

def publishedWorld : World := { newWorld.afterRead newPackage with catalog := publishedCatalog }

theorem publishedWorld_steps {P : World → Event → Prop} (hP : ∀ w e, Calm plainText noSemver w e → P w e) :
    Steps plainText noSemver P newWorld publishedWorld :=
  ((Steps.refl newWorld).read hP rfl).tail (hP _ (.call everybody firstPublication) trivial)
    (.call firstPublication_spelled publishedCatalog_ok)

theorem revisions_guard_undone : Guards plainText noSemver { publishedWorld with catalog := undoneCatalog } := by
  have hpublishes : Publishes plainText noSemver newCatalog publishedCatalog "1.0.0" := by
    refine ⟨everybody, ⟨"", "", false, 0, 5⟩, oneVersion, single ("latest", "1.0.0"), "alice", ?_, rfl,
      publishedCatalog_ok⟩
    unfold Named
    decide
  have hcalm : Calm plainText noSemver publishedWorld (.rollback "1.0.0" approvalRead) := by
    refine ⟨⟨newCatalog, rfl, rfl, hpublishes⟩, ?_, ?_⟩ <;>
      simp [publishedWorld, newWorld, World.afterRead, approvalRead]
  have hstep : Step plainText noSemver publishedWorld (.rollback "1.0.0" approvalRead)
      { publishedWorld with catalog := undoneCatalog } := .rollback List.mem_cons_self other_ok.1
  have hrun := (publishedWorld_steps fun _ _ h => h).tail hcalm hstep
  exact (revisions_guard (by decide) newWorld_started hrun).1

def publishedPackage : NPMPackage := publishedCatalog.package.getD newPackage

/-- A client reads the version before it is taken back, and deletes a package with another version. -/
theorem revision_used_twice : ¬ ∀ w, Steps plainText noSemver (fun _ _ => True) newWorld w →
    Guards plainText noSemver w := by
  intro hall
  have hread := (publishedWorld_steps fun _ _ _ => trivial).read (fun _ _ _ => trivial) (p := publishedPackage) (by decide)
  have hundone := hread.tail (e := .rollback "1.0.0" approvalRead) trivial
    (.rollback (List.mem_cons_of_mem _ List.mem_cons_self) other_ok.1)
  have hother := hundone.tail (e := .call everybody otherPublication) trivial
    (.call other_ok.2.1 other_ok.2.2)
  have hdelete : (exec plainText noSemver everybody otherCatalog staleDelete).toBool = true := by decide
  have hdeleted := ok_getD (d := otherCatalog) hdelete
  have hsame := (hall _ hother).fresh everybody staleDelete _ trivial (by decide) hdeleted
    ⟨publishedPackage, publishedCatalog.versions, tagMap publishedCatalog.tags⟩ List.mem_cons_self (by decide)
  have hversion := congrFun (congrArg Content.version hsame) "1.0.0"
  have hread : (publishedCatalog.versions.find? "1.0.0").isSome = true := by decide
  have hgone : (otherCatalog.versions.find? "1.0.0").isSome = false := by decide
  have hfound : publishedCatalog.versions.find? "1.0.0" = otherCatalog.versions.find? "1.0.0" := hversion
  rw [hfound, hgone] at hread
  cases hread

end Renop.Npm
