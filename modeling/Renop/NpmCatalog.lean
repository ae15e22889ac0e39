import Renop.NpmSteps
import Mathlib.Logic.Relation

/-!
# Dist-tags and the latest version

The latest version of a package is stored beside its dist-tags and computed again by every call. A catalog is
consistent when each tag names a version that is published and the stored latest version is the one `latestOrChosen`
gives. Two calls may break that: a packument whose tags have no key `latest`, and a rollback whose tags or latest
version were read before something else changed.
-/

namespace Renop.Npm

open Sql Cargo

structure Consistent (semver : Semver) (c : Catalog) : Prop where
  tags : ∀ t ∈ c.tags.rows, published c t.version = true
  latest : ∀ p, c.package = some p → p.latestVersion = latestOrChosen c semver
  empty : ∀ p, c.package = some p → (p.latestVersion = "" ↔ ∀ v ∈ c.versions.rows, v.unpublished = true)

/-- The tables spell their versions as they keep them, and a package is mirrored with all its versions. -/
structure Tidy (text : Text) (c : Catalog) : Prop where
  named : ∀ v ∈ c.versions.rows, versionKey text v.version = v.version ∧ v.version ≠ ""
  mirrored : ∀ p, c.package = some p → ∀ v ∈ c.versions.rows, v.mirrored = p.mirrored
  absent : c.package = none → c.versions.rows = [] ∧ c.tags.rows = []

/-- The sanitizer has nothing more to do: a version that `validNPMVersion` accepts is not cut off. -/
def Named (text : Text) (version : String) : Prop := versionKey text (versionKey text version) = versionKey text version

/-- What the handlers see to. What a rollback restores was read from the tables. -/
def Permitted (text : Text) : Call → Prop
  | .publish _ version _ _ => Named text version.version
  | .mirror _ versions tags => (∀ v ∈ versions, Named text v.version) ∧ ∀ p ∈ tags.rows, Named text p.2
  | .rollback _ _ previousTags => ∀ p ∈ previousTags.rows, tagKey text p.1 = p.1 ∧ versionKey text p.2 = p.2
  | _ => True

/-- The rows of a packument that the table keeps as the tag `latest`. -/
def latestRows (text : Text) (tags : StringMap) : List (String × String) := tags.rows.filter fun p =>
    tagKey text p.1 = "latest"

/-- The latest version of what is left of `c` without `version`, when the tags of `previousTags` are set. -/
def restoredLatest (semver : Semver) (c : Catalog) (version : String) (previousTags : StringMap) : String :=
  if StringMap.get previousTags "latest" ≠ "" then StringMap.get previousTags "latest"
  else if npmTagVersion c "latest" ≠ version ∧ npmTagVersion c "latest" ≠ "" then npmTagVersion c "latest"
  else latestNPMVersion { c with versions := c.versions.delete (·.version = version) } semver

/-- The calls that keep a catalog consistent. -/
def Keeps (text : Text) (semver : Semver) (c : Catalog) : Call → Prop
  -- The tag is spelled `latest`, or there is nothing it could name.
  | .packument _ _ _ tags _ =>
    match (latestRows text tags).getLast? with
    | some p => StringMap.get tags "latest" = p.2
    | none => ∀ v ∈ c.versions.rows, v.unpublished = true
  -- What was read before still holds.
  | .rollback version previous previousTags =>
    (∀ p ∈ previousTags.rows, p.2 ≠ versionKey text version ∧ published c p.2 = true) ∧
      previous.latestVersion = restoredLatest semver c (versionKey text version) previousTags
  -- The tags name versions of the packument; `parseMirroredPackument` drops the others.
  | .mirror _ versions tags =>
    ∀ p ∈ tags.rows, ∃ v ∈ versions, usable text v = true ∧ versionKey text v.version = versionKey text p.2
  | _ => True

variable {text : Text} {semver : Semver} {out : Outside} {c c' : Catalog} {call : Call} {k : String}

/-! ### The latest version -/

theorem latestNPMVersion_congr (h : c'.versions = c.versions) : latestNPMVersion c' semver = latestNPMVersion c semver := by
  simp only [latestNPMVersion, h]

theorem foldl_choose {α : Type} (p : α → α → Bool) (l : List α) (a : α) :
    l.foldl (fun a b => if p a b then b else a) a = a ∨ l.foldl (fun a b => if p a b then b else a) a ∈ l := by
  induction l generalizing a with
  | nil => exact .inl rfl
  | cons b l ih =>
    rw [List.foldl_cons]
    rcases ih (if p a b then b else a) with h | h
    · rw [h]
      split
      · exact .inr List.mem_cons_self
      · exact .inl rfl
    · exact .inr (List.mem_cons_of_mem b h)

theorem latestNPMVersion_cases (c : Catalog) (semver : Semver) :
    latestNPMVersion c semver = "" ∧ (∀ v ∈ c.versions.rows, v.unpublished = false → v.version = "") ∨
      published c (latestNPMVersion c semver) = true := by
  set names := ((c.versions.rows.filter (!·.unpublished)).insertionSort newer).map (·.version) with hnames
  have hmem : ∀ {k : String}, k ∈ names → published c k = true := by
    intro k hk
    obtain ⟨v, hv, rfl⟩ := List.mem_map.1 hk
    have hv := List.mem_filter.1 ((List.mem_insertionSort newer).1 hv)
    exact published_iff.2 ⟨v, hv.1, rfl, by simpa using hv.2⟩
  have hfold := foldl_choose (fun latest version =>
    semver.isValid ("v" ++ version) && (latest = "" || 0 < semver.compare ("v" ++ version) ("v" ++ latest))) names ""
  simp only [latestNPMVersion, ← hnames]
  split
  · next hempty =>
    cases hfirst : names.find? (· ≠ "") with
    | none =>
      refine .inl ⟨rfl, fun v hv hpub => ?_⟩
      have hin : v.version ∈ names :=
        List.mem_map_of_mem ((List.mem_insertionSort newer).2 (List.mem_filter.2 ⟨hv, by simp [hpub]⟩))
      simpa using List.find?_eq_none.1 hfirst _ hin
    | some k => exact .inr (hmem (List.mem_of_find?_eq_some hfirst))
  · next hne => exact .inr (hmem (hfold.resolve_left hne))

theorem latestNPMVersion_published (h : latestNPMVersion c semver ≠ "") : published c (latestNPMVersion c semver) = true :=
  (latestNPMVersion_cases c semver).resolve_left fun hempty => h hempty.1

theorem latestNPMVersion_eq_empty (hnamed : ∀ v ∈ c.versions.rows, v.version ≠ "") :
    latestNPMVersion c semver = "" ↔ ∀ v ∈ c.versions.rows, v.unpublished = true := by
  constructor
  · intro hempty v hv
    rcases latestNPMVersion_cases c semver with ⟨-, hall⟩ | hpub
    · by_contra hne
      exact hnamed v hv (hall v hv (by simpa using hne))
    · obtain ⟨w, hw, hk, -⟩ := published_iff.1 hpub
      exact absurd (hk.trans hempty) (hnamed w hw)
  · intro hall
    by_contra hne
    obtain ⟨v, hv, -, hpub⟩ := published_iff.1 (latestNPMVersion_published hne)
    simp [hall v hv] at hpub

theorem npmTagVersion_mem (h : npmTagVersion c k ≠ "") :
    ∃ t ∈ c.tags.rows, t.tag = k ∧ t.version = npmTagVersion c k := by
  unfold npmTagVersion at h ⊢
  cases hfind : c.tags.find? k with
  | none => simp [hfind] at h
  | some t =>
    obtain ⟨ht, hk⟩ := Table.find?_eq_some.1 hfind
    exact ⟨t, ht, hk, rfl⟩

theorem consistent_of (hnamed : ∀ v ∈ c.versions.rows, v.version ≠ "")
    (htags : ∀ t ∈ c.tags.rows, published c t.version = true)
    (hlatest : ∀ p, c.package = some p → p.latestVersion = latestOrChosen c semver) : Consistent semver c := by
  refine ⟨htags, hlatest, fun p hp => ?_⟩
  rw [hlatest p hp, latestOrChosen]
  split
  · exact latestNPMVersion_eq_empty hnamed
  · next hne =>
    obtain ⟨t, ht, -, hversion⟩ := npmTagVersion_mem hne
    obtain ⟨v, hv, -, hpub⟩ := published_iff.1 (htags t ht)
    refine ⟨fun h => absurd h hne, fun hall => ?_⟩
    simp [hall v hv] at hpub

/-! ### One call -/

theorem latestOrChosen_congr (hversions : c'.versions = c.versions) (htags : c'.tags = c.tags) :
    latestOrChosen c' semver = latestOrChosen c semver := by
  have htag : npmTagVersion c' "latest" = npmTagVersion c "latest" := by simp only [npmTagVersion, htags]
  simp only [latestOrChosen, htag, latestNPMVersion_congr hversions]

theorem consistent_stored {f : NPMPackage → NPMPackage} (hnamed : ∀ v ∈ c.versions.rows, v.version ≠ "")
    (htags : ∀ t ∈ c.tags.rows, published c t.version = true)
    (hf : ∀ p, (f p).latestVersion = latestOrChosen c semver) :
    Consistent semver (c.updatePackage f) := by
  refine consistent_of hnamed htags fun p hp => ?_
  obtain ⟨q, -, rfl⟩ := Option.map_eq_some_iff.1 hp
  rw [hf q]
  exact (latestOrChosen_congr rfl rfl).symm

theorem Tidy.versions (h : Tidy text c) {p p' : NPMPackage} (hp : c.package = some p) (hp' : c'.package = some p')
    (hmirrored : p'.mirrored = p.mirrored)
    (hv : ∀ v ∈ c'.versions.rows, (∃ w ∈ c.versions.rows, v.version = w.version ∧ v.mirrored = w.mirrored) ∨
      versionKey text v.version = v.version ∧ v.version ≠ "" ∧ v.mirrored = p.mirrored) : Tidy text c' := by
  refine ⟨fun v hv' => ?_, fun q hq v hv' => ?_, fun hnone => ?_⟩
  · rcases hv v hv' with ⟨w, hw, hname, -⟩ | ⟨hname, hne, -⟩
    · exact hname ▸ h.named w hw
    · exact ⟨hname, hne⟩
  · obtain rfl := Option.some.inj (hp'.symm.trans hq)
    rcases hv v hv' with ⟨w, hw, -, hsame⟩ | ⟨-, -, hsame⟩
    · rw [hsame, h.mirrored p hp w hw, hmirrored]
    · rw [hsame, hmirrored]
  · exact absurd (hp'.symm.trans hnone) nofun

theorem Tidy.updatePackage (h : Tidy text c) {f : NPMPackage → NPMPackage} (hf : ∀ p, (f p).mirrored = p.mirrored) :
    Tidy text (c.updatePackage f) := by
  refine ⟨h.named, fun q hq v hv => ?_, fun hnone => h.absent (Option.map_eq_none_iff.1 hnone)⟩
  obtain ⟨p, hp, rfl⟩ := Option.map_eq_some_iff.1 hq
  rw [hf p]
  exact h.mirrored p hp v hv

theorem published_mono (h : ∀ v ∈ c.versions.rows, v ∈ c'.versions.rows) (hpub : published c k = true) :
    published c' k = true := by
  obtain ⟨v, hv, hk, hu⟩ := published_iff.1 hpub
  exact published_iff.2 ⟨v, h v hv, hk, hu⟩

theorem Tidy.ne (h : Tidy text c) : ∀ v ∈ c.versions.rows, v.version ≠ "" := fun v hv => (h.named v hv).2

theorem publish_keeps {pkg : Publication} {version : NPMVersion} {tags : StringMap} {username : String} (ht : Tidy text c)
    (hn : Named text version.version) (h : recordNPMPublication text out semver pkg version tags username c = .ok c') :
    Tidy text c' ∧ (Consistent semver c → Consistent semver c') := by
  obtain ⟨p, versions, c₂, hp, -, -, hne, hlocal, hins, hloop, rfl⟩ := recordNPMPublication_ok h
  obtain ⟨-, hrows⟩ := Table.insert_ok hins
  have hset := recordTags_ok hloop
  set c₁ : Catalog := { c with versions := versions } with hc₁
  have hmem : ∀ v ∈ c.versions.rows, v ∈ c₁.versions.rows := fun v hv => by simp [hc₁, hrows, hv]
  have hnew : published c₁ (versionKey text version.version) = true :=
    published_iff.2 ⟨version.recorded text _, by rw [hc₁, hrows]; exact List.mem_append_right _ (List.mem_singleton_self _),
      rfl, rfl⟩
  have htidy : Tidy text c₂ := by
    have hp₂ : c₂.package = some p := hset.package.trans hp
    refine ht.versions hp hp₂ rfl fun v hv => ?_
    rw [hset.versions, hc₁] at hv
    dsimp only at hv
    rw [hrows] at hv
    rcases List.mem_append.1 hv with hold | hnew
    · exact .inl ⟨v, hold, rfl, rfl⟩
    · obtain rfl := List.mem_singleton.1 hnew
      exact .inr ⟨hn, hne, hlocal.symm⟩
  refine ⟨htidy.updatePackage fun _ => rfl, fun hc => consistent_stored htidy.ne ?_ fun _ => rfl⟩
  refine hset.published (fun t htag => published_mono hmem (hc.tags t htag)) fun q hq => ?_
  have hq : q.2 = versionKey text version.version := by simpa using (List.mem_filter.1 hq).2
  rw [hq, hn]
  exact hnew

theorem Tidy.changes (h : Tidy text c) {p p' : NPMPackage} (hp : c.package = some p) (hp' : c'.package = some p')
    (hmirrored : p'.mirrored = p.mirrored)
    (hv : ∀ v ∈ c'.versions.rows, ∃ w ∈ c.versions.rows, v.version = w.version ∧ v.mirrored = w.mirrored) :
      Tidy text c' :=
  h.versions hp hp' hmirrored fun v hin => .inl (hv v hin)

theorem setTag_keeps {tag version actor : String} {expectedRevision now : Int} (ht : Tidy text c)
    (h : setNPMDistTag text out semver tag version actor expectedRevision now c = .ok c') :
    Tidy text c' ∧ (Consistent semver c → Consistent semver c') := by
  obtain ⟨p, c₁, hopened, hpub, -, hset, rfl⟩ := setNPMDistTag_ok h
  have htidy : Tidy text c₁ :=
    ht.changes hopened.package (hset.package.trans hopened.package) rfl fun v hv => ⟨v, hset.versions ▸ hv, rfl, rfl⟩
  refine ⟨htidy.updatePackage fun _ => rfl, fun hc => consistent_stored htidy.ne ?_ fun _ => rfl⟩
  refine hset.published hc.tags fun q hq => ?_
  obtain rfl := List.mem_singleton.1 hq
  obtain ⟨v, hv, hk, -⟩ := published_iff.1 hpub
  rw [← hk, (ht.named v hv).1, hk]
  exact hpub

theorem deleteTag_keeps {tag actor : String} {expectedRevision now : Int} (ht : Tidy text c)
    (h : deleteNPMDistTag text out semver tag actor expectedRevision now c = .ok c') :
    Tidy text c' ∧ (Consistent semver c → Consistent semver c') := by
  obtain ⟨p, c₁, hopened, -, rfl, rfl⟩ := deleteNPMDistTag_ok h
  have htidy : Tidy text { c with tags := c.tags.delete (·.tag = tagKey text tag) } :=
    ht.changes hopened.package hopened.package rfl fun v hv => ⟨v, hv, rfl, rfl⟩
  refine ⟨htidy.updatePackage fun _ => rfl, fun hc => consistent_stored htidy.ne (fun t htag => ?_) fun _ => rfl⟩
  exact hc.tags t (List.mem_filter.1 htag).1

/-! ### Deprecations and packuments -/

theorem Deprecates.published (h : Deprecates c c') : published c' k = published c k := by
  obtain ⟨f, hf, hrows⟩ := h.rows
  rw [Bool.eq_iff_iff, published_iff, published_iff, hrows]
  constructor
  · rintro ⟨v, hv, hk, hu⟩
    obtain ⟨w, hw, rfl⟩ := List.mem_map.1 hv
    exact ⟨w, hw, (hf.fields w).1 ▸ hk, (hf.fields w).2.1 ▸ hu⟩
  · rintro ⟨w, hw, hk, hu⟩
    exact ⟨f w, List.mem_map_of_mem hw, (hf.fields w).1.trans hk, (hf.fields w).2.1.trans hu⟩

theorem Deprecates.latest (h : Deprecates c c') : latestNPMVersion c' semver = latestNPMVersion c semver := by
  obtain ⟨f, hf, hrows⟩ := h.rows
  have hfilter : c'.versions.rows.filter (!·.unpublished) = (c.versions.rows.filter (!·.unpublished)).map f := by
    rw [hrows, List.filter_map]
    congr 2
    funext v
    simp [(hf.fields v).2.1]
  have hsort : (c'.versions.rows.filter (!·.unpublished)).insertionSort newer =
      ((c.versions.rows.filter (!·.unpublished)).insertionSort newer).map f := by
    rw [hfilter, List.map_insertionSort (r := newer) (s := newer) f]
    intro a _ b _
    simp only [newer, (hf.fields a).1, (hf.fields b).1, (hf.fields a).2.2.2, (hf.fields b).2.2.2]
  have hnames : (f · |>.version) = NPMVersion.version := funext fun v => (hf.fields v).1
  simp only [latestNPMVersion, hsort, List.map_map]
  simp only [Function.comp_def, hnames]

theorem Deprecates.tidy (h : Deprecates c c') (ht : Tidy text c) {p : NPMPackage} (hp : c.package = some p) :
    Tidy text c' := by
  obtain ⟨f, hf, hrows⟩ := h.rows
  have hp' : c'.package = some p := by
    rw [h.same]
    exact hp
  refine ht.changes hp hp' rfl fun v hv => ?_
  rw [hrows] at hv
  obtain ⟨w, hw, rfl⟩ := List.mem_map.1 hv
  exact ⟨w, hw, (hf.fields w).1, (hf.fields w).2.2.1⟩

theorem deprecate_keeps {version deprecated actor : String} {expectedRevision now : Int} (ht : Tidy text c)
    (h : setNPMVersionDeprecated text out version deprecated actor expectedRevision now c = .ok c') :
    Tidy text c' ∧ (Consistent semver c → Consistent semver c') := by
  obtain ⟨p, c₁, hopened, -, hset, rfl⟩ := setNPMVersionDeprecated_ok h
  have hdep := deprecateVersion_ok (.refl c) hset
  have htidy := hdep.tidy ht hopened.package
  refine ⟨htidy.updatePackage fun _ => rfl, fun hc => consistent_of htidy.ne (fun t htag => ?_) fun q hq => ?_⟩
  · rw [published_congr (updatePackage_versions c₁ _), hdep.published]
    rw [updatePackage_tags, hdep.same] at htag
    exact hc.tags t htag
  · obtain ⟨p₁, hp₁, rfl⟩ := Option.map_eq_some_iff.1 hq
    rw [hdep.same] at hp₁
    have htag : npmTagVersion c₁ "latest" = npmTagVersion c "latest" := by
      rw [hdep.same]
      rfl
    dsimp only
    rw [hc.latest p₁ hp₁, latestOrChosen_congr (updatePackage_versions c₁ _) (updatePackage_tags c₁ _)]
    simp only [latestOrChosen, hdep.latest, htag]

theorem stringMap_get {m : StringMap} (h : StringMap.get m k ≠ "") : (k, StringMap.get m k) ∈ m.rows := by
  unfold StringMap.get at h ⊢
  cases hfind : m.find? k with
  | none => simp [hfind] at h
  | some p =>
    obtain ⟨hp, rfl⟩ := Table.find?_eq_some.1 hfind
    exact hp

theorem packument_keeps {actor : String} {expectedRevision : Int} {deprecations tags : StringMap} {now : Int}
    (ht : Tidy text c) (h : updateNPMPackument text out actor expectedRevision deprecations tags now c = .ok c') :
    Tidy text c' ∧ (Keeps text semver c (.packument actor expectedRevision deprecations tags now) →
      Consistent semver c') := by
  obtain ⟨p, c₁, c₂, hopened, -, hdeps, hloop, rfl⟩ := updateNPMPackument_ok h
  have hdep := deprecateVersions_ok hdeps
  have htidy₁ := hdep.tidy ht hopened.package
  obtain ⟨hset, hpub⟩ := packumentTags_ok hloop
  have hpub : ∀ q ∈ tags.rows, published c₁ q.2 = true := hpub
  have hkey : ∀ q ∈ tags.rows, versionKey text q.2 = q.2 ∧ q.2 ≠ "" := by
    intro q hq
    obtain ⟨v, hv, hname, -⟩ := published_iff.1 (hpub q hq)
    exact hname ▸ htidy₁.named v hv
  have hp₁ : c₁.package = some p := by
    rw [hdep.same]
    exact hopened.package
  have htidy : Tidy text c₂ :=
    htidy₁.changes hp₁ (hset.package.trans hp₁) rfl fun v hv => ⟨v, hset.versions ▸ hv, rfl, rfl⟩
  refine ⟨htidy.updatePackage fun _ => rfl, fun hk => consistent_stored htidy.ne ?_ fun _ => ?_⟩
  · exact hset.published (by simp) fun q hq => (hkey q hq).1.symm ▸ hpub q hq
  · have htag := hset.npmTagVersion "latest"
    simp only [Keeps, latestRows] at hk
    simp only [latestOrChosen]
    cases hlast : (tags.rows.filter fun p => tagKey text p.1 = "latest").getLast? with
    | some q =>
      have hq : q ∈ tags.rows := (List.mem_filter.1 (List.mem_of_getLast? hlast)).1
      simp only [hlast] at hk htag
      rw [htag, (hkey q hq).1, if_neg (hkey q hq).2, hk]
    | none =>
      simp only [hlast] at htag
      -- Nothing is published, so the packument has no tags.
      have hall : ∀ v ∈ c₁.versions.rows, v.unpublished = true := by
        intro v hv
        by_contra hne
        have : published c v.version = true := by
          rw [← hdep.published]
          exact published_iff.2 ⟨v, hv, rfl, by simpa using hne⟩
        obtain ⟨w, hw, -, hu⟩ := published_iff.1 this
        simp only [hlast] at hk
        simp [hk w hw] at hu
      have hempty : StringMap.get tags "latest" = "" := by
        by_contra hne
        obtain ⟨v, hv, -, hu⟩ := published_iff.1 (hpub _ (stringMap_get hne))
        simp [hall v hv] at hu
      rw [hempty]
      have hlatest : latestNPMVersion c₂ semver = "" := by
        rw [latestNPMVersion_congr hset.versions]
        exact (latestNPMVersion_eq_empty htidy₁.ne).2 hall
      have hnone : npmTagVersion c₂ "latest" = "" := htag.trans (by simp [npmTagVersion, Table.find?, Table.empty])
      simp [hnone, hlatest]

/-! ### Removals -/

theorem published_delete {version : String} (hk : k ≠ version) :
    published { c with versions := c.versions.delete (·.version = version) } k = published c k := by
  simp only [published]
  rw [Table.find?_delete_of fun v hv => by simpa [hv] using hk]

theorem published_tombstone {version : String} (hk : k ≠ version) (hpub : published c k = true) (tags : Table DistTag.tag) :
    published { c with
      versions := c.versions.update (fun v => if v.version = version then { v with unpublished := true } else v)
        fun v => by split <;> rfl
      tags := tags } k = true := by
  obtain ⟨v, hv, rfl, hu⟩ := published_iff.1 hpub
  exact published_iff.2 ⟨v, List.mem_map.2 ⟨v, hv, by simp [hk]⟩, rfl, hu⟩

theorem unpublish_keeps (hlatest : tagKey text "latest" = "latest") {version actor : String} {expectedRevision now : Int}
    {path : String} (ht : Tidy text c)
    (h : unpublishNPMVersion text out semver version actor expectedRevision now c = .ok (c', path)) :
    Tidy text c' ∧ (Consistent semver c → Consistent semver c') := by
  obtain ⟨p, c₁, c₂, hopened, -, hc₁, hlast, rfl⟩ := unpublishNPMVersion_ok h
  have hp₁ : c₁.package = some p := by
    rw [hc₁]
    exact hopened.package
  have htidy₁ : Tidy text c₁ := by
    refine ht.changes hopened.package hp₁ rfl fun v hv => ?_
    rw [hc₁] at hv
    obtain ⟨w, hw, rfl⟩ := List.mem_map.1 hv
    refine ⟨w, hw, ?_⟩
    split <;> exact ⟨rfl, rfl⟩
  have htags₁ : Consistent semver c → ∀ t ∈ c₁.tags.rows, published c₁ t.version = true := by
    intro hc t htag
    rw [hc₁] at htag ⊢
    obtain ⟨htag, hne⟩ := List.mem_filter.1 htag
    exact published_tombstone (by simpa using hne) (hc.tags t htag) _
  rcases hlast with ⟨hempty, rfl⟩ | ⟨hne, -, hset⟩
  · refine ⟨htidy₁.updatePackage fun _ => rfl, fun hc => consistent_stored htidy₁.ne (htags₁ hc) fun _ => ?_⟩
    -- Nothing is published, so no tag is left.
    dsimp only
    rw [hempty, latestOrChosen, hempty]
    split
    · rfl
    · next hne =>
      obtain ⟨t, htag, -, -⟩ := npmTagVersion_mem hne
      obtain ⟨v, hv, -, hu⟩ := published_iff.1 (htags₁ hc t htag)
      simp [(latestNPMVersion_eq_empty htidy₁.ne).1 hempty v hv] at hu
  · have hpub := latestNPMVersion_published hne
    have hkey : versionKey text (latestNPMVersion c₁ semver) = latestNPMVersion c₁ semver := by
      obtain ⟨v, hv, hname, -⟩ := published_iff.1 hpub
      exact hname ▸ (htidy₁.named v hv).1
    have htidy : Tidy text c₂ :=
      htidy₁.changes hp₁ (hset.package.trans hp₁) rfl fun v hv => ⟨v, hset.versions ▸ hv, rfl, rfl⟩
    refine ⟨htidy.updatePackage fun _ => rfl, fun hc =>
      consistent_stored htidy.ne (hset.published (htags₁ hc) fun q hq => ?_)
      fun _ => ?_⟩
    · obtain rfl := List.mem_singleton.1 hq
      rw [hkey]
      exact hpub
    · have htag := hset.npmTagVersion "latest"
      simp only [hlatest, decide_true, List.filter_cons_of_pos, List.filter_nil, List.getLast?_singleton, hkey] at htag
      dsimp only
      rw [latestOrChosen, htag, if_neg hne]

theorem delete_keeps {actor : String} {expectedRevision now : Int} {paths : List String} (ht : Tidy text c)
    (h : deleteNPMPackage text out actor expectedRevision now c = .ok (c', paths)) :
      Tidy text c' ∧ Consistent semver c' := by
  obtain ⟨p, c₁, hopened, -, hc₁, rfl⟩ := deleteNPMPackage_ok h
  have hrows : ∀ v ∈ c₁.versions.rows, ∃ w ∈ c.versions.rows, v = { w with unpublished := true } := by
    intro v hv
    rw [hc₁] at hv
    obtain ⟨w, hw, rfl⟩ := List.mem_map.1 hv
    exact ⟨w, hw, rfl⟩
  have hp₁ : c₁.package = some p := by
    rw [hc₁]
    exact hopened.package
  have htidy : Tidy text c₁ := by
    refine ht.changes hopened.package hp₁ rfl fun v hv => ?_
    obtain ⟨w, hw, rfl⟩ := hrows v hv
    exact ⟨w, hw, rfl, rfl⟩
  refine ⟨htidy.updatePackage fun _ => rfl, consistent_stored htidy.ne (by simp [hc₁]) fun _ => ?_⟩
  have hempty : latestNPMVersion c₁ semver = "" := by
    refine (latestNPMVersion_eq_empty htidy.ne).2 fun v hv => ?_
    obtain ⟨w, hw, rfl⟩ := hrows v hv
    rfl
  have htag : npmTagVersion c₁ "latest" = "" := by
    rw [hc₁]
    rfl
  simp [latestOrChosen, htag, hempty]

theorem archive_keeps {actor : String} {archived : Bool} {now : Int} (ht : Tidy text c)
    (h : setNPMPackageArchived text out actor archived now c = .ok c') :
    Tidy text c' ∧ (Consistent semver c → Consistent semver c') := by
  obtain ⟨p, -, -, rfl⟩ := setNPMPackageArchived_ok h
  refine ⟨ht.updatePackage fun _ => rfl, fun hc => consistent_of ht.ne hc.tags fun q hq => ?_⟩
  obtain ⟨q₁, hq₁, rfl⟩ := Option.map_eq_some_iff.1 hq
  exact hc.latest q₁ hq₁

theorem rollback_keeps {version : String} {previous : NPMPackage} {previousTags : StringMap} (ht : Tidy text c)
    (h : rollbackNPMPublicationReview text version previous previousTags c = .ok c') :
    Tidy text c' ∧ (Consistent semver c → Permitted text (.rollback version previous previousTags) →
      Keeps text semver c (.rollback version previous previousTags) → Consistent semver c') := by
  obtain ⟨p, c₂, hp, hset, rfl⟩ := rollbackNPMPublicationReview_ok h
  set c₁ := c.dropVersion (versionKey text version) with hc₁
  have hpublished : ∀ k, k ≠ versionKey text version → published c₁ k = published c k := fun k hk =>
    published_delete hk
  have htidy : Tidy text c₂ := by
    refine ht.changes hp (hset.package.trans hp) rfl fun v hv => ⟨v, ?_, rfl, rfl⟩
    rw [hset.versions] at hv
    exact (List.mem_filter.1 hv).1
  refine ⟨htidy.updatePackage fun _ => rfl, fun hc hperm ⟨htargets, hlatest⟩ =>
    consistent_stored htidy.ne (hset.published (fun t htag => ?_) fun q hq => ?_) fun _ => ?_⟩
  · obtain ⟨htag, hne⟩ := List.mem_filter.1 htag
    rw [hpublished _ (by simpa using hne)]
    exact hc.tags t htag
  · obtain ⟨hne, hpub⟩ := htargets q hq
    rw [(hperm q hq).2, hpublished _ hne]
    exact hpub
  · -- The tag `latest` is the one that was read, or the one that is left.
    have hrestored : previousTags.rows.filter (fun q => tagKey text q.1 = "latest") =
        (previousTags.find? "latest").toList := by
      rw [← Table.filter_key]
      refine List.filter_congr fun q hq => ?_
      rw [(hperm q hq).1]
    have hleft : npmTagVersion c₁ "latest" =
        if npmTagVersion c "latest" = versionKey text version then "" else npmTagVersion c "latest" := by
      simp only [npmTagVersion, hc₁, Catalog.dropVersion, Table.find?_delete]
      rcases Option.eq_none_or_eq_some (c.tags.find? "latest") with hfind | ⟨t, hfind⟩
      · simp [hfind]
      · by_cases heq : t.version = versionKey text version
        · simp [hfind, heq, Option.filter]
        · simp [hfind, heq, Option.filter]
    have htag := hset.npmTagVersion "latest"
    rw [hrestored] at htag
    have hchosen : latestNPMVersion c₂ semver = latestNPMVersion c₁ semver := latestNPMVersion_congr hset.versions
    dsimp only
    rw [hlatest]
    rcases Option.eq_none_or_eq_some (previousTags.find? "latest") with hfind | ⟨q, hfind⟩
    · have hget : StringMap.get previousTags "latest" = "" := by simp [StringMap.get, hfind]
      simp only [hfind, Option.toList_none, List.getLast?_nil, hleft] at htag
      simp only [restoredLatest, latestOrChosen, hget, htag, hchosen]
      by_cases heq : npmTagVersion c "latest" = versionKey text version
      · simp [heq, hc₁, Catalog.dropVersion, latestNPMVersion]
      · by_cases hempty : npmTagVersion c "latest" = ""
        · simp [hempty, hc₁, Catalog.dropVersion, latestNPMVersion]
        · simp [heq, hempty]
    · have hq := (Table.find?_eq_some.1 hfind).1
      have hget : StringMap.get previousTags "latest" = q.2 := by simp [StringMap.get, hfind]
      have hne : q.2 ≠ "" := by
        obtain ⟨v, hv, hname, -⟩ := published_iff.1 (htargets q hq).2
        exact hname ▸ (ht.named v hv).2
      simp only [hfind, Option.toList_some, List.getLast?_singleton, (hperm q hq).2] at htag
      simp [restoredLatest, latestOrChosen, hget, htag, hne]

/-! ### Mirrors -/

/-- The rows of a mirrored package. -/
def Mirrored (text : Text) (versions : Table NPMVersion.version) : Prop :=
  ∀ v ∈ versions.rows, (versionKey text v.version = v.version ∧ v.version ≠ "") ∧ v.mirrored = true

def Live (versions : Table NPMVersion.version) (k : String) :
    Prop := ∃ v ∈ versions.rows, v.version = k ∧ v.unpublished = false

theorem Mirrored.put {versions : Table NPMVersion.version} {row : NPMVersion} (h : Mirrored text versions)
    (hrow : (versionKey text row.version = row.version ∧ row.version ≠ "") ∧ row.mirrored = true) :
      Mirrored text (versions.put row) := by
  intro v hv
  rcases Table.mem_put.1 hv with rfl | ⟨hv, -⟩
  · exact hrow
  · exact h v hv

theorem Live.put {versions : Table NPMVersion.version} {row : NPMVersion} (hrow : row.unpublished = false)
    (h : Live versions k) : Live (versions.put row) k := by
  obtain ⟨v, hv, rfl, hu⟩ := h
  by_cases hk : v.version = row.version
  · exact ⟨row, Table.mem_put.2 (.inl rfl), hk.symm, hrow⟩
  · exact ⟨v, Table.mem_put.2 (.inr ⟨hv, hk⟩), rfl, hu⟩

theorem refreshVersion_ok {versions : Table NPMVersion.version} {version : NPMVersion} (hn : Named text version.version)
    (h : Mirrored text versions) : Mirrored text (refreshVersion text versions version) ∧
      (∀ k, Live versions k → Live (refreshVersion text versions version) k) ∧
      (usable text version = true → Live (refreshVersion text versions version) (versionKey text version.version)) := by
  unfold refreshVersion
  split
  · next husable =>
    have hne : versionKey text version.version ≠ "" := by
      simp only [usable, Bool.and_eq_true, decide_eq_true_eq] at husable
      exact husable.1.1
    cases hfind : versions.find? (versionKey text version.version) with
    | some v =>
      obtain ⟨hv, hk⟩ := Table.find?_eq_some.1 hfind
      dsimp only
      rw [if_pos (h v hv).2]
      exact ⟨h.put ⟨(h v hv).1, rfl⟩, fun k => Live.put rfl, fun _ => ⟨_, Table.mem_put.2 (.inl rfl), hk, rfl⟩⟩
    | none => exact ⟨h.put ⟨⟨hn, hne⟩, rfl⟩, fun k => Live.put rfl, fun _ =>
        ⟨_, Table.mem_put.2 (.inl rfl), rfl, rfl⟩⟩
  · next husable => exact ⟨h, fun k hk => hk, fun hu => absurd hu husable⟩

theorem refreshVersions_ok {l : List NPMVersion} {versions : Table NPMVersion.version}
    (hn : ∀ v ∈ l, Named text v.version)
    (h : Mirrored text versions) : Mirrored text (l.foldl (refreshVersion text) versions) ∧
      (∀ k, Live versions k → Live (l.foldl (refreshVersion text) versions) k) ∧
      ∀ v ∈ l, usable text v = true → Live (l.foldl (refreshVersion text) versions) (versionKey text v.version) := by
  induction l generalizing versions with
  | nil => exact ⟨h, fun k hk => hk, by simp⟩
  | cons w l ih =>
    rw [List.foldl_cons]
    obtain ⟨hone, hkeeps, hnew⟩ := refreshVersion_ok (hn w List.mem_cons_self) h
    obtain ⟨hall, hrest, hmem⟩ := ih (fun v hv => hn v (List.mem_cons_of_mem w hv)) hone
    refine ⟨hall, fun k hk => hrest k (hkeeps k hk), fun v hv husable => ?_⟩
    rcases List.mem_cons.1 hv with rfl | hv
    · exact hrest _ (hnew husable)
    · exact hmem v hv husable

theorem mirror_keeps {pkg : Publication} {versions : List NPMVersion} {tags : StringMap} (ht : Tidy text c)
    (hnamed : ∀ v ∈ versions, Named text v.version)
    (h : recordNPMMirrorPublication text semver pkg versions tags c = .ok c') :
    Tidy text c' ∧ (Keeps text semver c (.mirror pkg versions tags) → Consistent semver c') := by
  obtain ⟨package, c₂, -, hpm, hmirrored, hset, rfl⟩ := recordNPMMirrorPublication_ok h
  have hrows : Mirrored text c.versions := by
    intro v hv
    refine ⟨ht.named v hv, ?_⟩
    cases hp : c.package with
    | none => simp [(ht.absent hp).1] at hv
    | some p => rw [ht.mirrored p hp v hv, (hmirrored p hp).1]
  have hstale : Mirrored text (c.versions.update (fun v => if v.mirrored then { v with unpublished := true } else v)
      fun v => by split <;> rfl) := by
    intro v hv
    obtain ⟨w, hw, rfl⟩ := List.mem_map.1 hv
    have hrow := hrows w hw
    split <;> exact hrow
  obtain ⟨hall, -, hlive⟩ := refreshVersions_ok hnamed hstale
  have hp : c₂.package = some package := hset.package
  have hmem : ∀ v ∈ c₂.versions.rows, (versionKey text v.version = v.version ∧ v.version ≠ "") ∧
      v.mirrored = true := by
    intro v hv
    rw [hset.versions] at hv
    exact hall v (List.mem_filter.1 hv).1
  have htidy : Tidy text c₂ := by
    refine ⟨fun v hv => (hmem v hv).1, fun q hq v hv => ?_, fun hnone => absurd (hp.symm.trans hnone) nofun⟩
    obtain rfl := Option.some.inj (hp.symm.trans hq)
    rw [(hmem v hv).2, hpm]
  refine ⟨htidy.updatePackage fun _ => rfl, fun hk =>
    consistent_stored htidy.ne (hset.published (by simp) fun q hq => ?_) fun _ => rfl⟩
  obtain ⟨w, hw, husable, hkey⟩ := hk q hq
  obtain ⟨v, hv, hname, hu⟩ := hlive w hw husable
  refine published_iff.2 ⟨v, List.mem_filter.2 ⟨hv, by simp [hu]⟩, hname.trans hkey, hu⟩

/-! ### Runs -/

theorem exec_keeps (hlatest : tagKey text "latest" = "latest") (ht : Tidy text c) (hperm : Permitted text call)
    (h : exec text semver out c call = .ok c') :
    Tidy text c' ∧ (Consistent semver c → Keeps text semver c call → Consistent semver c') := by
  cases call with
  | publish pkg version tags username => exact (publish_keeps ht hperm h).imp_right fun hkeeps hc _ => hkeeps hc
  | rollback version previous previousTags => exact (rollback_keeps ht h).imp_right fun hkeeps hc hk => hkeeps hc hperm hk
  | mirror pkg versions tags => exact (mirror_keeps ht hperm.1 h).imp_right fun hkeeps _ hk => hkeeps hk
  | setTag tag version actor expectedRevision now => exact (setTag_keeps ht h).imp_right fun hkeeps hc _ => hkeeps hc
  | deleteTag tag actor expectedRevision now => exact (deleteTag_keeps ht h).imp_right fun hkeeps hc _ => hkeeps hc
  | setDeprecated version deprecated actor expectedRevision now =>
    exact (deprecate_keeps ht h).imp_right fun hkeeps hc _ => hkeeps hc
  | packument actor expectedRevision deprecations tags now =>
    exact (packument_keeps ht h).imp_right fun hkeeps _ hk => hkeeps hk
  | unpublish version actor expectedRevision now =>
    obtain ⟨⟨c₁, path⟩, hcall, rfl⟩ := map_ok.1 h
    exact (unpublish_keeps hlatest ht hcall).imp_right fun hkeeps hc _ => hkeeps hc
  | archive actor archived now => exact (archive_keeps ht h).imp_right fun hkeeps hc _ => hkeeps hc
  | delete actor expectedRevision now =>
    obtain ⟨⟨c₁, paths⟩, hcall, rfl⟩ := map_ok.1 h
    exact (delete_keeps ht hcall).imp_right fun hkeeps _ _ => hkeeps

/-- Calls that succeed, one after the other; one that fails changes nothing. -/
inductive Run (text : Text) (semver : Semver) (P : Catalog → Call → Prop) : Catalog → Catalog → Prop
  | refl (c : Catalog) : Run text semver P c c
  | tail {c₀ c c' : Catalog} (out : Outside) (call : Call) (hrun : Run text semver P c₀ c) (hp : P c call)
      (h : exec text semver out c call = .ok c') : Run text semver P c₀ c'

/-- A package before its first publication, or none. -/
structure Fresh (c : Catalog) : Prop where
  versions : c.versions.rows = []
  tags : c.tags.rows = []
  latest : ∀ p, c.package = some p → p.latestVersion = ""

theorem Fresh.tidy (h : Fresh c) : Tidy text c :=
  ⟨by simp [h.versions], by simp [h.versions], fun _ => ⟨h.versions, h.tags⟩⟩

theorem Fresh.consistent (h : Fresh c) : Consistent semver c := by
  refine consistent_of (by simp [h.versions]) (by simp [h.tags]) fun p hp => ?_
  have htag : npmTagVersion c "latest" = "" := by simp [npmTagVersion, Table.find?, h.tags]
  have hempty : latestNPMVersion c semver = "" := (latestNPMVersion_eq_empty (by simp [h.versions])).2 (by simp [h.versions])
  rw [h.latest p hp, latestOrChosen, htag, hempty]
  rfl

/-- The dist-tags name published versions and the latest version is the one they or the versions give, in every state
that calls within the condition reach. -/
theorem catalog_consistent {c₀ : Catalog} (hlatest : tagKey text "latest" = "latest") (h0 : Fresh c₀)
    (hrun : Run text semver (fun c call => Permitted text call ∧ Keeps text semver c call) c₀ c) :
      Consistent semver c := by
  suffices h : Tidy text c ∧ Consistent semver c from h.2
  induction hrun with
  | refl => exact ⟨h0.tidy, h0.consistent⟩
  | tail out call _ hp h ih =>
    obtain ⟨htidy, hkeeps⟩ := exec_keeps hlatest ih.1 hp.1 h
    exact ⟨htidy, hkeeps ih.2 hp.2⟩

/-! ### A packument without the tag `latest` -/

/-- ASCII letters and spaces. -/
def plainText : Text where
  toLower s := String.ofList (s.toList.map Char.toLower)
  trimSpace s := String.ofList ((s.toList.dropWhile (· = ' ')).reverse.dropWhile (· = ' ')).reverse
  jsonValid _ := true
  marshal _ := ""

def noSemver : Semver := ⟨fun _ => false, fun _ _ => 0⟩

def everybody : Outside := ⟨fun _ _ => true⟩

def newPackage : NPMPackage where
  description := ""
  publisher := ""
  latestVersion := ""
  isPrivate := false
  archived := false
  mirrored := false
  publishEnabled := true
  revision := 1
  createdAt := 0
  updatedAt := 0

def newCatalog : Catalog := ⟨some newPackage, Table.empty, Table.empty, [], false⟩

def oneVersion : NPMVersion where
  version := "1.0.0"
  manifestJSON := "\x7b\x7d"
  publisher := "alice"
  tarballPath := "p/-/p-1.0.0.tgz"
  shasum := ""
  integrity := ""
  size := 1
  deprecated := ""
  unpublished := false
  mirrored := false
  createdAt := 5

def single (p : String × String) : StringMap := ⟨[p], by simp⟩

def firstPublication : Call := .publish ⟨"", "", false, 0, 5⟩ oneVersion (single ("latest", "1.0.0")) "alice"

/-- `npm` sends the whole packument, here with no tag left. -/
def bareTags : Call := .packument "alice" 2 (single ("1.0.0", "")) Table.empty 6

def afterCall (c : Catalog) (call : Call) : Catalog := (exec plainText noSemver everybody c call).toOption.getD c

def publishedCatalog : Catalog := afterCall newCatalog firstPublication

def barePackage : Catalog := afterCall publishedCatalog bareTags

theorem publishedCatalog_ok : exec plainText noSemver everybody newCatalog firstPublication = .ok publishedCatalog :=
  ok_getD (d := newCatalog) (by decide)

theorem barePackage_ok : exec plainText noSemver everybody publishedCatalog bareTags = .ok barePackage :=
  ok_getD (d := publishedCatalog) (by decide)

theorem newCatalog_fresh : Fresh newCatalog := ⟨rfl, rfl, fun p hp => by cases hp; rfl⟩

/-! Another version, which the packument tags and which is then unpublished. -/

def secondPublication : Call :=
  .publish ⟨"", "", false, 0, 6⟩ { oneVersion with version := "1.1.0", createdAt := 6 } (single ("next", "1.1.0")) "alice"

def latestTag : Call := .packument "alice" 3 (single ("1.0.0", "old")) (single ("latest", "1.1.0")) 7

def withdrawal : Call := .unpublish "1.1.0" "alice" 4 8

def twoVersions : Catalog := afterCall publishedCatalog secondPublication

def taggedCatalog : Catalog := afterCall twoVersions latestTag

def withdrawnCatalog : Catalog := afterCall taggedCatalog withdrawal

theorem catalog_consistent_withdrawn :
    taggedCatalog.package.map (·.latestVersion) = some "1.1.0" ∧ withdrawnCatalog.package.map (·.latestVersion) =
      some "1.0.0" ∧ Consistent noSemver withdrawnCatalog := by
  have hfirst : Permitted plainText firstPublication := by
    unfold firstPublication Permitted Named
    decide
  have hsecond : Permitted plainText secondPublication := by
    unfold secondPublication Permitted Named
    decide
  have hkeeps : Keeps plainText noSemver twoVersions latestTag := by
    have hrow : (latestRows plainText (single ("latest", "1.1.0"))).getLast? = some ("latest", "1.1.0") := by decide +kernel
    unfold latestTag Keeps
    dsimp only
    rw [hrow]
    decide +kernel
  have htwo : exec plainText noSemver everybody publishedCatalog secondPublication = .ok twoVersions :=
    ok_getD (d := publishedCatalog) (by decide +kernel)
  have htagged : exec plainText noSemver everybody twoVersions latestTag = .ok taggedCatalog :=
    ok_getD (d := twoVersions) (by decide +kernel)
  have hwithdrawn : exec plainText noSemver everybody taggedCatalog withdrawal = .ok withdrawnCatalog :=
    ok_getD (d := taggedCatalog) (by decide +kernel)
  have hrun : Run plainText noSemver (fun c call => Permitted plainText call ∧ Keeps plainText noSemver c call) newCatalog
      withdrawnCatalog :=
    .tail everybody withdrawal (.tail everybody latestTag (.tail everybody secondPublication
      (.tail everybody firstPublication (.refl newCatalog) ⟨hfirst, trivial⟩ publishedCatalog_ok)
        ⟨hsecond, trivial⟩ htwo)
      ⟨trivial, hkeeps⟩ htagged) ⟨trivial, trivial⟩ hwithdrawn
  exact ⟨by decide +kernel, by decide +kernel, catalog_consistent (by decide) newCatalog_fresh hrun⟩

/-- The version stays published, and the latest version of its package is empty. -/
theorem packument_loses_latest : ¬ ∀ c, Run plainText noSemver (fun _ call => Permitted plainText call) newCatalog c →
    Consistent noSemver c := by
  intro h
  have hrun : Run plainText noSemver (fun _ call => Permitted plainText call) newCatalog barePackage :=
    .tail everybody bareTags (.tail everybody firstPublication (.refl newCatalog)
      (by unfold firstPublication Permitted Named; decide) publishedCatalog_ok) trivial barePackage_ok
  have hempty := (h barePackage hrun).empty
  have hlost : barePackage.package.map (·.latestVersion) = some "" := by decide
  obtain ⟨p, hp, hlatest⟩ := Option.map_eq_some_iff.1 hlost
  have hall := (hempty p hp).1 hlatest
  have hpublished : barePackage.versions.rows.all (·.unpublished) = false := by decide
  rw [List.all_eq_true.2 hall] at hpublished
  cases hpublished

end Renop.Npm
